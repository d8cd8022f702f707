import ServerPoller.BedrockPong
import ServerPoller.JavaStatus
import ServerPoller.PlayerChanges
import ServerPoller.PollWorker
import ServerPoller.VersionRecursion

/-! What the two pollers measure, and how much of it is left in the payload that is emitted: the `extra` object
is put together anew in `build_change_payload`. -/

namespace ServerPoller
open Json RustText

/-- What both pollers put into their payloads as they got it. -/
structure PollTarget where
  serverId : String
  collectedAt : String
  country : String
  countryCode : String

def serverListVersionNameExtraKey : String := "server_list_version_name"

/-- The closure `fail_payload` of `poll_server`. -/
def failPayload (target : PollTarget) : Value :=
  .ofFields [
    ("server_id", .string target.serverId),
    ("collected_at", .string target.collectedAt),
    ("online", .null),
    ("max_players", .null),
    ("version", .string ""),
    ("motd", .string ""),
    ("country", .string target.country),
    ("country_code", .string target.countryCode)]

def failedPoll (target : PollTarget) : PollResult := ⟨failPayload target, false, ""⟩

/-- The closure of `filter_map` with the names that it has passed on. -/
def samplePlayer (names : List String) (player : JavaStatusPlayer) : List String :=
  if trim player.name = "" ∨ trim player.name ∈ names then names else names ++ [trim player.name]

def extractPlayerNames (sample : Option (List JavaStatusPlayer)) : List String :=
  (sample.getD []).foldl samplePlayer []

mutual

def appendChatText : Value → String
  | .string text => text
  | .array items => appendChatItems items
  | .object fields => ((fields.lookup "text").bind Value.asStr).getD "" ++ appendChatExtra fields
  | _ => ""

def appendChatItems : List Value → String
  | [] => ""
  | item :: items => appendChatText item ++ appendChatItems items

def appendChatExtra : List (String × Value) → String
  | [] => ""
  | (key, v) :: fields => if key = "extra" then appendChatText v else appendChatExtra fields

end

def motdFromDescription (description : Option Value) : String := (description.map appendChatText).getD ""

def javaExtra (players : List String) (rawVersion version : String) : Value :=
  .ofFields (
    (if players.isEmpty then [] else [("players", .array (players.map .string))]) ++
    (if rawVersion ≠ "" ∧ rawVersion ≠ version then [(serverListVersionNameExtraKey, .string rawVersion)] else []))

/-- The result of `poll_java` for a response. -/
def javaResult (target : PollTarget) (response : JavaStatusResponse) (version : String) : PollResult where
  payload := .ofFields [
    ("server_id", .string target.serverId),
    ("collected_at", .string target.collectedAt),
    ("online", .number (.posInt response.players.online)),
    ("max_players", .number (.posInt response.players.max)),
    ("version", .string version),
    ("motd", .string (motdFromDescription response.description)),
    ("country", .string target.country),
    ("country_code", .string target.countryCode),
    ("extra", javaExtra (extractPlayerNames response.players.sample) (trim response.version.name) version)]
  statusOk := true
  favicon := (response.favicon.filter fun v => v ≠ "" ∧ v.startsWith "data:image/").getD ""

/-- `ping` is what the lookup of the address and the ping come to: a response, or any failure. -/
def pollJava (target : PollTarget) (ping : Option JavaStatusResponse) : Checked PollResult :=
  match ping with
  | none => pure (failedPoll target)
  | some response => do
      let version ← sanitizeMinecraftVersion (trim response.version.name).toList
      pure (javaResult target response (String.ofList version))

def bedrockResult (target : PollTarget) (status : BedrockStatus) : PollResult where
  payload := .ofFields [
    ("server_id", .string target.serverId),
    ("collected_at", .string target.collectedAt),
    ("online", .ofOption .ofI64 status.onlinePlayers),
    ("max_players", .ofOption .ofI64 status.maxPlayers),
    ("version", .string status.version),
    ("motd", .string (if status.motdLine2 = "" then status.motd else status.motd ++ "\n" ++ status.motdLine2)),
    ("country", .string target.country),
    ("country_code", .string target.countryCode),
    ("extra", .ofFields [("edition", .string status.edition), ("gamemode", .string status.gamemode)])]
  statusOk := true
  favicon := ""

def pollBedrock (target : PollTarget) (ping : Option BedrockStatus) : PollResult :=
  match ping with
  | none => failedPoll target
  | some status => bedrockResult target status

inductive Answer
  | java (response : JavaStatusResponse)
  | bedrock (status : BedrockStatus)

def Answer.poll (target : PollTarget) : Answer → Checked PollResult
  | .java response => pollJava target (some response)
  | .bedrock status => pure (pollBedrock target (some status))

/-- The version text is reported as it is: it is empty, or the sanitizer leaves it alone. -/
def Answer.PlainVersion : Answer → Prop
  | .java response => trim response.version.name = "" ∨
      sanitizeMinecraftVersion (trim response.version.name).toList = .ok (trim response.version.name).toList
  | .bedrock _ => False

/-- Every field of `extra` is in the other payload's `extra` with the same value. -/
def ExtraKept (payload out : Value) : Prop :=
  ∀ key v, (extraOf payload).get key = some v → (extraOf out).get key = some v

theorem samplePlayer_eq (names : List String) (player : JavaStatusPlayer) :
    samplePlayer names player = collectPlayer names (.string player.name) := by
  by_cases skipped : trim player.name = "" ∨ trim player.name ∈ names
  · rw [samplePlayer, if_pos skipped, collectPlayer, if_neg]
    exact fun fresh => skipped.elim fresh.1 fresh.2
  · rw [samplePlayer, if_neg skipped, collectPlayer, if_pos (not_or.mp skipped)]

theorem extractPlayerNames_clean (sample : Option (List JavaStatusPlayer)) :
    CleanNames (extractPlayerNames sample) :=
  List.foldlRecOn _ _ .nil fun names clean player _ => samplePlayer_eq names player ▸ collectPlayer_clean clean _

theorem get_javaExtra (players : List String) (rawVersion version key : String) :
    (javaExtra players rawVersion version).get key =
      if key = "players" ∧ players ≠ [] then some (.array (players.map .string))
      else if key = serverListVersionNameExtraKey ∧ rawVersion ≠ "" ∧ rawVersion ≠ version then
        some (.string rawVersion)
      else none := by
  rw [javaExtra, Value.get_ofFields]
  by_cases isPlayers : key = "players"
  · subst isPlayers
    by_cases shown : rawVersion ≠ "" ∧ rawVersion ≠ version <;> cases players <;>
      simp [List.lookup_cons, serverListVersionNameExtraKey, shown]
  · have notPlayers : (key == "players") = false := beq_eq_false_iff_ne.mpr isPlayers
    by_cases isVersion : key = serverListVersionNameExtraKey
    · subst isVersion
      by_cases shown : rawVersion ≠ "" ∧ rawVersion ≠ version <;> cases players <;>
        simp [List.lookup_cons, isPlayers, notPlayers, shown]
    · have notVersion : (key == serverListVersionNameExtraKey) = false := beq_eq_false_iff_ne.mpr isVersion
      by_cases shown : rawVersion ≠ "" ∧ rawVersion ≠ version <;> cases players <;>
        simp [List.lookup_cons, isPlayers, notPlayers, isVersion, notVersion, shown]

theorem extraOf_javaResult {target : PollTarget} {response : JavaStatusResponse} {version : String} :
    extraOf (javaResult target response version).payload =
      javaExtra (extractPlayerNames response.players.sample) (trim response.version.name) version := by
  simp [javaResult, extraOf, Value.get_ofFields]

theorem extractPlayers_javaExtra {players : List String} (clean : CleanNames players) (rawVersion version : String) :
    extractPlayers (javaExtra players rawVersion version) = players := by
  have field := get_javaExtra players rawVersion version "players"
  by_cases none_ : players = []
  · subst none_
    have apart : ¬"players" = serverListVersionNameExtraKey := by decide
    rw [if_neg fun h => h.2 rfl, if_neg fun h => apart h.1] at field
    rw [extractPlayers, field]
    rfl
  · rw [if_pos ⟨rfl, none_⟩] at field
    exact extractPlayers_of_clean clean field

theorem extraKept_java {state : ServerState} {target : PollTarget} {response : JavaStatusResponse} {version : String}
    {cur : Observation} {event : EventType} :
    ExtraKept (javaResult target response version).payload
        (outPayload state (javaResult target response version).payload cur
          (extractPlayers (extraOf (javaResult target response version).payload)) event) ↔
      trim response.version.name = "" ∨ trim response.version.name = version := by
  have clean := extractPlayerNames_clean response.players.sample
  rw [ExtraKept, extraOf_outPayload, extraOf_javaResult, extractPlayers_javaExtra clean]
  generalize extractPlayerNames response.players.sample = players
  constructor
  · intro kept
    by_contra shown
    rw [not_or] at shown
    have apart : ¬serverListVersionNameExtraKey = "players" := by decide
    have there := get_javaExtra players (trim response.version.name) version serverListVersionNameExtraKey
    rw [if_neg fun h => apart h.1, if_pos ⟨rfl, shown⟩] at there
    have gone := get_outExtra state cur.up players (show serverListVersionNameExtraKey ≠ _ ∧ _ by decide)
    rw [if_neg fun h => apart h.1] at gone
    exact Option.some_ne_none _ ((kept _ _ there).symm.trans gone)
  · intro plain key v there
    rw [get_javaExtra] at there
    by_cases listed : key = "players" ∧ players ≠ []
    · rw [if_pos listed] at there
      rw [get_outExtra _ _ _ (by rw [listed.1]; decide), if_pos listed]
      exact there
    · rw [if_neg listed, if_neg fun h => plain.elim h.2.1 h.2.2] at there
      exact absurd there.symm (Option.some_ne_none v)

/-- What a Bedrock server says of its edition and its game mode is dropped. -/
theorem not_extraKept_bedrock {state : ServerState} {target : PollTarget} {status : BedrockStatus}
    {cur : Observation} {players : List String} {event : EventType} :
    ¬ExtraKept (bedrockResult target status).payload
      (outPayload state (bedrockResult target status).payload cur players event) := by
  intro kept
  have there : (extraOf (bedrockResult target status).payload).get "edition" = some (.string status.edition) := by
    simp [bedrockResult, extraOf, Value.get_ofFields, List.lookup_cons]
  have gone := kept _ _ there
  rw [extraOf_outPayload, get_outExtra _ _ _ (by decide), if_neg fun h => absurd h.1 (by decide)] at gone
  exact absurd gone.symm (Option.some_ne_none _)

theorem emitted_eq {crates : Crates} {state : ServerState} {payload : Value} {now heartbeatInterval : ℚ} {out : Value}
    (emitted : (buildChangePayload crates state payload true now heartbeatInterval).2 = some out) :
    ∃ event, out = outPayload state payload (measured crates payload) (extractPlayers (extraOf payload)) event := by
  have output : (UpCall.run crates ⟨payload, now, heartbeatInterval⟩ state).2 = _ := UpCall.run_output _
  obtain ⟨event, _, eq⟩ := Option.map_eq_some_iff.mp (output.symm.trans emitted)
  exact ⟨event, eq.symm⟩

/-- Everything that was measured beyond the common fields is emitted exactly when the poll was one of a Java
server with a version text that is reported as it is. -/
theorem extra_kept_iff {crates : Crates} {state : ServerState} {target : PollTarget} {answer : Answer}
    {result : PollResult} (polled : answer.poll target = .ok result) {now heartbeatInterval : ℚ} {out : Value}
    (emitted : (buildChangePayload crates state result.payload result.statusOk now heartbeatInterval).2 = some out) :
    ExtraKept result.payload out ↔ answer.PlainVersion := by
  cases answer with
  | java response =>
      simp only [Answer.poll, pollJava] at polled
      cases sanitized : sanitizeMinecraftVersion (trim response.version.name).toList with
      | error panic =>
          rw [sanitized] at polled
          cases polled
      | ok version =>
          rw [sanitized] at polled
          cases polled
          obtain ⟨event, rfl⟩ := emitted_eq emitted
          have same : trim response.version.name = String.ofList version ↔
              (Except.ok version : Checked _) = .ok (trim response.version.name).toList := by
            rw [Except.ok.injEq]
            constructor
            · intro eq
              rw [eq, String.toList_ofList]
            · intro eq
              rw [eq, String.ofList_toList]
          rw [extraKept_java, Answer.PlainVersion, sanitized, same]
  | bedrock status =>
      cases polled
      obtain ⟨event, rfl⟩ := emitted_eq emitted
      exact ⟨fun kept => not_extraKept_bedrock kept, False.elim⟩

def sampleTarget : PollTarget := ⟨"1", "2026-01-01T00:00:00.000000", "", ""⟩

def survivalStatus : BedrockStatus := ⟨"MCPE", "My Server", "1.19.1", some 5, some 20, "", "Survival"⟩

/-- The edition and the game mode of a Bedrock server. -/
theorem edition_dropped :
    ∃ result out, (Answer.bedrock survivalStatus).poll sampleTarget = .ok result ∧
      (buildChangePayload plainCrates sampleState result.payload result.statusOk 1000 0).2 = some out ∧
      ¬ExtraKept result.payload out := by
  refine ⟨bedrockResult sampleTarget survivalStatus, _, rfl, rfl, fun kept => ?_⟩
  have there : (extraOf (bedrockResult sampleTarget survivalStatus).payload).get "gamemode" =
      some (.string "Survival") := rfl
  exact absurd (kept _ _ there).symm (Option.some_ne_none _)

/-- A Java server without a version text: its players are emitted. -/
theorem extra_kept_iff_players :
    let response : JavaStatusResponse := ⟨⟨""⟩, ⟨20, 1, some [⟨"Alice"⟩]⟩, none, none⟩
    ∃ result out, (Answer.java response).poll sampleTarget = .ok result ∧
      (buildChangePayload plainCrates sampleState result.payload result.statusOk 1000 0).2 = some out ∧
      ExtraKept result.payload out := by
  intro response
  have empty : trim response.version.name = "" := by decide
  have sanitized : sanitizeMinecraftVersion [] = .ok [] := by decide
  have polled : (Answer.java response).poll sampleTarget = .ok (javaResult sampleTarget response "") := by
    simp only [Answer.poll, pollJava, empty]
    rw [String.toList_empty, sanitized]
    rfl
  have emitted : (buildChangePayload plainCrates sampleState (javaResult sampleTarget response "").payload true
      1000 0).2 = some _ := rfl
  exact ⟨_, _, polled, emitted, (extra_kept_iff polled emitted).mpr (.inl empty)⟩

end ServerPoller
