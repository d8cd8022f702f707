import ServerPoller.BedrockPing
import ServerPoller.JavaPing

/-! `poll_server` for both editions, and a server that is polled again and again: what its answers are to a consumer of
the result queue. -/

namespace ServerPoller
open Json RustText Transition

/-- What a call of `poll_server` gets from outside: the time, the geolocation, and both networks. -/
structure PollContext where
  collectedAt : String
  country : String
  countryCode : String
  java : JavaNetwork
  /-- The socket of `ping_bedrock` that is connected to this host and port. -/
  bedrock : String → UInt16 → List UInt8 → Option (List UInt8)
  time : Int64
  guid : Int64

/-- A pong that is taken apart beyond its end would end the task too. -/
def bedrockPing (ctx : PollContext) (host : String) (port : UInt16) : Checked (Option BedrockStatus) :=
  (pingBedrock (ctx.bedrock host port) ctx.time ctx.guid).mapError fun _ => .slice

def pollServer (ctx : PollContext) (serverId host : String) (port : Option UInt16) (edition : Edition)
    (statusTimeoutSeconds : ℚ) : Checked PollResult :=
  let target : PollTarget := ⟨serverId, ctx.collectedAt, ctx.country, ctx.countryCode⟩
  match edition with
  | .bedrock => do
      let status ← bedrockPing ctx host (port.getD edition.defaultPort)
      pure (pollBedrock target status)
  | .java => pollJava target (javaPing ctx.java host port statusTimeoutSeconds)

/-- A poll comes to a result, whatever the networks answer. -/
theorem pollServer_returns (ctx : PollContext) (serverId host : String) (port : Option UInt16) (edition : Edition)
    (timeout : ℚ) : ∃ result, pollServer ctx serverId host port edition timeout = .ok result := by
  cases edition with
  | java =>
      change ∃ result, pollJava _ (javaPing ctx.java host port timeout) = .ok result
      cases javaPing ctx.java host port timeout with
      | none => exact ⟨_, rfl⟩
      | some response =>
          obtain ⟨version, sanitized, _⟩ :=
            sanitizeWithin_sanitized _ (trim response.version.name).toList (Nat.lt_succ_self _)
          rw [pollJava, sanitizeMinecraftVersion, sanitized]
          exact ⟨_, rfl⟩
  | bedrock =>
      obtain ⟨status, pinged⟩ : ∃ status, bedrockPing ctx host (port.getD Edition.bedrock.defaultPort) = .ok status := by
        unfold bedrockPing pingBedrock
        split
        · rename_i datagram _
          by_cases shaped : PongShaped (datagram.take bedrockBuffer)
          · rw [parsePong_shaped shaped]
            exact ⟨_, rfl⟩
          · rw [parsePong_unshaped shaped]
            exact ⟨_, rfl⟩
        · exact ⟨_, rfl⟩
      simp only [pollServer, pinged, ok_bind]
      exact ⟨_, rfl⟩

def serverAnswer (ctx : PollContext) (host : String) (port : Option UInt16) (edition : Edition)
    (statusTimeoutSeconds : ℚ) : Option Answer :=
  match edition with
  | .java => (javaPing ctx.java host port statusTimeoutSeconds).map .java
  | .bedrock =>
      match bedrockPing ctx host (port.getD edition.defaultPort) with
      | .ok status => status.map .bedrock
      | .error _ => none

def shownVersion (response : JavaStatusResponse) : String :=
  match sanitizeMinecraftVersion (trim response.version.name).toList with
  | .ok version => trim (String.ofList version)
  | .error _ => ""

/-- The record of a consumer after a poll, from the one before it: what the server has answered, or that it is down,
with what was known of it. -/
def told (crates : Crates) (ctx : PollContext) (before : Option Observation) : Option Answer → Observation
  | some (.java response) =>
      { up := true
        online := (Number.posInt response.players.online).asI64
        maxPlayers := (Number.posInt response.players.max).asI64
        version := shownVersion response
        motd := trim (motdFromDescription response.description)
        country := trim ctx.country
        countryCode := trim ctx.countryCode
        playersHash := playersHash crates (extractPlayerNames response.players.sample) }
  | some (.bedrock status) =>
      { up := true
        online := status.onlinePlayers
        maxPlayers := status.maxPlayers
        version := trim status.version
        motd := trim (if status.motdLine2 = "" then status.motd else status.motd ++ "\n" ++ status.motdLine2)
        country := trim ctx.country
        countryCode := trim ctx.countryCode
        playersHash := none }
  | none =>
      let old := before.getD ⟨false, none, none, "", "", "", "", none⟩
      { old with
        up := false
        online := some 0
        country := if trim ctx.country = "" then old.country else trim ctx.country
        countryCode := if trim ctx.countryCode = "" then old.countryCode else trim ctx.countryCode
        playersHash := none }

section Told
variable {crates : Crates} {ctx : PollContext} {id : String}

theorem mirror_failed (before : Option Observation) :
    mirror crates before (failedPoll ⟨id, ctx.collectedAt, ctx.country, ctx.countryCode⟩).payload false =
      told crates ctx before none := by
  have country : trimmedField (failPayload ⟨id, ctx.collectedAt, ctx.country, ctx.countryCode⟩) "country" =
      trim ctx.country := by
    simp [trimmedField, strField, failPayload, Value.get_ofFields, List.lookup_cons, Value.asStr]
  have countryCode : trimmedField (failPayload ⟨id, ctx.collectedAt, ctx.country, ctx.countryCode⟩) "country_code" =
      trim ctx.countryCode := by
    simp [trimmedField, strField, failPayload, Value.get_ofFields, Value.asStr]
  simp only [mirror, failedPoll, Bool.false_eq_true, if_false, country, countryCode, told]

theorem mirror_java (before : Option Observation) {response : JavaStatusResponse} {version : List Char}
    (sanitized : sanitizeMinecraftVersion (trim response.version.name).toList = .ok version) :
    mirror crates before
        (javaResult ⟨id, ctx.collectedAt, ctx.country, ctx.countryCode⟩ response (String.ofList version)).payload true =
      told crates ctx before (some (.java response)) := by
  have names := extractPlayers_javaExtra (extractPlayerNames_clean response.players.sample)
    (trim response.version.name) (String.ofList version)
  rw [mirror, if_pos rfl, extraOf_javaResult, names, told, shownVersion, sanitized]
  simp [intField, trimmedField, strField, javaResult, Value.get_ofFields, List.lookup_cons, Value.asStr, Value.asI64]

theorem mirror_bedrock (before : Option Observation) (status : BedrockStatus) :
    mirror crates before (bedrockResult ⟨id, ctx.collectedAt, ctx.country, ctx.countryCode⟩ status).payload true =
      told crates ctx before (some (.bedrock status)) := by
  have names : extractPlayers (extraOf
      (bedrockResult ⟨id, ctx.collectedAt, ctx.country, ctx.countryCode⟩ status).payload) = [] := by
    simp [extractPlayers, extraOf, bedrockResult, Value.get_ofFields, List.lookup_cons]
  rw [mirror, if_pos rfl, names, told]
  simp [intField, trimmedField, strField, bedrockResult, Value.get_ofFields, List.lookup_cons, Value.asStr, playersHash,
    Option.bind, Value.asI64_ofOption]

/-- The result of a poll says what the server has answered. -/
theorem mirror_pollServer {host : String} {port : Option UInt16} {edition : Edition} {timeout : ℚ} {result : PollResult}
    (polled : pollServer ctx id host port edition timeout = .ok result) (before : Option Observation) :
    mirror crates before result.payload result.statusOk =
      told crates ctx before (serverAnswer ctx host port edition timeout) := by
  cases edition with
  | java =>
      change pollJava _ (javaPing ctx.java host port timeout) = .ok result at polled
      rw [serverAnswer]
      cases pinged : javaPing ctx.java host port timeout with
      | none =>
          rw [pinged] at polled
          cases polled
          exact mirror_failed before
      | some response =>
          rw [pinged, pollJava] at polled
          cases sanitized : sanitizeMinecraftVersion (trim response.version.name).toList with
          | error panic =>
              rw [sanitized] at polled
              cases polled
          | ok version =>
              rw [sanitized] at polled
              cases polled
              exact mirror_java before sanitized
  | bedrock =>
      rw [serverAnswer]
      cases pinged : bedrockPing ctx host (port.getD Edition.bedrock.defaultPort) with
      | error panic =>
          simp only [pollServer, pinged] at polled
          cases polled
      | ok status =>
          simp only [pollServer, pinged, ok_bind] at polled
          cases polled
          cases status with
          | none => exact mirror_failed before
          | some status => exact mirror_bedrock before status

end Told

structure PollCall where
  net : PollContext
  ctx : UpdateContext
  room : Bool

section Calls
variable (crates : Crates) (settings : Settings) (statusTimeoutSeconds : ℚ)

/-- `process_work_item` with its call of `poll_server`, for a server that is not plugin-managed. -/
def pollOnce (s : PollRun) (call : PollCall) : Option PollRun :=
  match pollServer call.net s.state.serverId s.state.host s.state.port s.state.edition statusTimeoutSeconds with
  | .ok result => some (completePoll crates settings s ⟨result, call.ctx, call.room⟩)
  | .error _ => none

/-- The poll finds room, or it sees what was emitted last and no heartbeat is due. -/
def RoomForCall (s : PollRun) (call : PollCall) : Prop :=
  ∀ result,
    pollServer call.net s.state.serverId s.state.host s.state.port s.state.edition statusTimeoutSeconds = .ok result →
      RoomWhenNeeded crates settings s ⟨result, call.ctx, call.room⟩

def toldBy (address : Address) (calls : List PollCall) : Option Observation :=
  calls.foldl (fun before call => some (told crates call.net before
    (serverAnswer call.net address.host address.port address.edition statusTimeoutSeconds))) none

end Calls

section Runs
variable {crates : Crates} {settings : Settings} {timeout : ℚ} {s t : PollRun} {calls : List PollCall}

theorem completePoll_address (p : Poll) :
    (completePoll crates settings s p).state.toAddress = s.state.toAddress := by
  obtain ⟨e, eq⟩ := updateState_frame crates settings s.state.snapshot p.result p.ctx s.state
  rw [completePoll_state, eq]
  exact (undisturbed_recordPoll crates settings s.state.snapshot p.result p.ctx s.state).address

/-- The consumer is in step with the polls, and these tell it what the server has answered. -/
structure PollRun.KnowsAnswers (crates : Crates) (timeout : ℚ) (address : Address) (calls : List PollCall) (s : PollRun) :
    Prop where
  at_ : s.state.toAddress = address
  inStep : ∃ polls, s.InStep crates polls ∧ observed crates polls = toldBy crates timeout address calls

theorem PollRun.KnowsAnswers.step {address : Address} {call : PollCall} (h : s.KnowsAnswers crates timeout address calls)
    (room : RoomForCall crates settings timeout s call) (polled : pollOnce crates settings timeout s call = some t) :
    t.KnowsAnswers crates timeout address (calls ++ [call]) := by
  obtain ⟨polls, inStep, same⟩ := h.inStep
  unfold pollOnce at polled
  split at polled
  · rename_i result answered
    cases polled
    refine ⟨(completePoll_address _).trans h.at_, _, completePoll_inStep inStep (room result answered), ?_⟩
    rw [observed, List.foldl_append, toldBy, List.foldl_append]
    change some (mirror crates (observed crates polls) result.payload result.statusOk) = some (told crates call.net
      (toldBy crates timeout address calls) _)
    rw [same, mirror_pollServer answered, ← h.at_]
  · cases polled

end Runs

def offline : PollContext where
  collectedAt := "2026-01-01T00:00:00.000000"
  country := ""
  countryCode := ""
  java := { luxorNetwork with lookupHost := fun _ _ => none }
  bedrock _ _ _ := none
  time := 0
  guid := 0

def onceAnswered : List PollCall := [
  ⟨{ offline with java := luxorNetwork, country := "Germany", countryCode := "DE" }, quietContext 0, true⟩,
  ⟨offline, quietContext 300, true⟩]

def luxorState : ServerState := { sampleState with host := "play.luxorcraft.fun", port := none, edition := .java }

end ServerPoller
