import ServerPoller.JavaFraming
import ServerPoller.Pollers

/-! `poll_java` from the requested host to the result: an SRV record may say where to connect, and every address is
tried with nine protocol versions until one attempt succeeds or the time is over. Servers that read the handshake are
put behind the addresses. -/

namespace ServerPoller

structure JavaConnectTarget where
  connectHost : String
  connectPort : UInt16
  deriving DecidableEq, Repr

structure SrvRecord where
  target : String
  port : UInt16

/-- A socket address, by its text. -/
abbrev SocketAddr := String

/-- The network during one poll. -/
structure JavaNetwork where
  /-- The SRV records of a name, or nothing where there is no resolver, an error or no answer in time. -/
  srvLookup : String → Option (List SrvRecord)
  /-- The addresses of a host, or nothing for an error and where there is no answer in time. -/
  lookupHost : String → UInt16 → Option (List SocketAddr)
  /-- What `started.elapsed()` is before each attempt. -/
  elapsed : Nat → ℚ
  /-- The connection of each attempt, within the time that is left for it. -/
  exchange : Nat → SocketAddr → ℚ → List UInt8 × List UInt8 → Except String (List UInt8 × String)
  fromSlice : List UInt8 → Except String JavaStatusResponse

section Source
variable (net : JavaNetwork)

def resolveJavaConnectTarget (host : String) (port : Option UInt16) : JavaConnectTarget :=
  let fallback : JavaConnectTarget := ⟨host, port.getD javaDefaultPort⟩
  if port.isSome ∨ RustText.isIpAddr host then fallback
  else
    match net.srvLookup ("_minecraft._tcp." ++ host) with
    | some (record :: _) => ⟨String.ofList (record.target.toList.rdropWhile (· = '.')), record.port⟩
    | some [] | none => fallback

def javaStatusProtocolVersions : List Int32 := [769, 767, 763, 761, 759, 754, 340, 47, -1]

/-- The turns of both loops of `ping_java_status_blocking`. -/
def javaAttempts (socketAddrs : List SocketAddr) : List (SocketAddr × Int32) :=
  socketAddrs.flatMap fun socketAddr => javaStatusProtocolVersions.map fun version => (socketAddr, version)

section Ping
variable (host : String) (port : UInt16) (timeout : ℚ)

def javaAttempt (n : Nat) (socketAddr : SocketAddr) (protocolVersion : Int32) : Except String JavaStatusResponse :=
  tryPingJavaStatus (net.exchange n socketAddr (timeout - net.elapsed n)) net.fromSlice host port protocolVersion

/-- The loops, with the number of attempts before and `last_error`. -/
def pingAttempts (n : Nat) (lastError : Option String) :
    List (SocketAddr × Int32) → Except String JavaStatusResponse
  | [] => .error (lastError.getD "java status connect failed")
  | (socketAddr, protocolVersion) :: rest =>
      if timeout < net.elapsed n then .error (lastError.getD "java status timed out")
      else
        match javaAttempt net host port timeout n socketAddr protocolVersion with
        | .ok response => .ok response
        | .error error =>
            pingAttempts (n + 1)
              (some (socketAddr ++ " protocol " ++ toString protocolVersion.toInt ++ ": " ++ error)) rest

def pingJavaStatusBlocking (socketAddrs : List SocketAddr) : Except String JavaStatusResponse :=
  if socketAddrs.isEmpty then .error "no socket addresses resolved"
  else pingAttempts net host port timeout 0 none (javaAttempts socketAddrs)

end Ping

/-- What the lookups and the attempts of `poll_java` come to. -/
def javaPing (host : String) (port : Option UInt16) (timeout : ℚ) : Option JavaStatusResponse :=
  let connectTarget := resolveJavaConnectTarget net host port
  match net.lookupHost connectTarget.connectHost connectTarget.connectPort with
  | some socketAddrs =>
      (pingJavaStatusBlocking net host connectTarget.connectPort timeout socketAddrs).toOption
  | none => none

end Source

section Attempts
variable {net : JavaNetwork} {host : String} {port : UInt16} {timeout : ℚ} {response : JavaStatusResponse}

/-- The attempt succeeds, the ones before it have failed, and there was time for all of them. -/
def FirstSuccess (net : JavaNetwork) (host : String) (port : UInt16) (timeout : ℚ) (n : Nat)
    (tries : List (SocketAddr × Int32)) (response : JavaStatusResponse) : Prop :=
  ∃ k socketAddr version, tries[k]? = some (socketAddr, version) ∧ (∀ j ≤ k, net.elapsed (n + j) ≤ timeout) ∧
    javaAttempt net host port timeout (n + k) socketAddr version = .ok response ∧
      ∀ j < k, ∀ before version', tries[j]? = some (before, version') →
        ∃ error, javaAttempt net host port timeout (n + j) before version' = .error error

theorem pingAttempts_ok_iff (n : Nat) (lastError : Option String) (tries : List (SocketAddr × Int32)) :
    pingAttempts net host port timeout n lastError tries = .ok response ↔
      FirstSuccess net host port timeout n tries response := by
  induction tries generalizing n lastError with
  | nil =>
      refine ⟨nofun, ?_⟩
      rintro ⟨k, _, _, none_, _⟩
      cases none_
  | cons first rest ih =>
      obtain ⟨socketAddr, version⟩ := first
      rw [pingAttempts]
      by_cases late : timeout < net.elapsed n
      · rw [if_pos late]
        refine ⟨nofun, ?_⟩
        rintro ⟨k, _, _, _, begun, _⟩
        exact absurd (begun 0 (Nat.zero_le k)) (not_le.mpr late)
      · rw [if_neg late]
        have begun := not_lt.mp late
        cases here : javaAttempt net host port timeout n socketAddr version with
        | ok first =>
            refine ⟨fun same => ⟨0, socketAddr, version, rfl, fun j le => ?_, here.trans same, nofun⟩, ?_⟩
            · cases Nat.le_zero.mp le
              exact begun
            · rintro ⟨k, addr', version', there, _, success, failed⟩
              cases k with
              | zero =>
                  cases there
                  exact here.symm.trans success
              | succ k =>
                  obtain ⟨error, failed⟩ := failed 0 (Nat.succ_pos k) socketAddr version rfl
                  cases here.symm.trans failed
        | error error =>
            refine (ih _ _).trans ⟨?_, ?_⟩
            · rintro ⟨k, addr', version', there, begun', success, failed⟩
              refine ⟨k + 1, addr', version', there, fun j le => ?_, ?_, fun j less before version'' turn => ?_⟩
              · cases j with
                | zero => exact begun
                | succ j => exact Nat.succ_add_eq_add_succ n j ▸ begun' j (Nat.succ_le_succ_iff.mp le)
              · exact Nat.succ_add_eq_add_succ n k ▸ success
              · cases j with
                | zero =>
                    cases turn
                    exact ⟨error, here⟩
                | succ j => exact Nat.succ_add_eq_add_succ n j ▸ failed j (Nat.succ_lt_succ_iff.mp less) _ _ turn
            · rintro ⟨k, addr', version', there, begun', success, failed⟩
              cases k with
              | zero =>
                  cases there
                  cases here.symm.trans success
              | succ k =>
                  refine ⟨k, addr', version', there, fun j le => ?_, ?_, fun j less before version'' turn => ?_⟩
                  · exact (Nat.succ_add_eq_add_succ n j).symm ▸ begun' (j + 1) (Nat.succ_le_succ le)
                  · exact (Nat.succ_add_eq_add_succ n k).symm ▸ success
                  · exact (Nat.succ_add_eq_add_succ n j).symm ▸
                      failed (j + 1) (Nat.succ_lt_succ less) before version'' turn

end Attempts

def endOfStream : String := "failed to fill whole buffer"

/-- What a server answers that has read the handshake: a body with some bytes after it, or an error of the connection. -/
abbrev Reply := HandshakeSeen → Except String (List UInt8 × List UInt8)

/-- A server that takes the handshake apart and answers the status request after it. -/
def serveStatus (reply : Reply) (requests : List UInt8 × List UInt8) : Except String (List UInt8 × String) := do
  let seen ← serveHandshake endOfStream requests.1
  if requests.2 = [0x01, 0x00] then do
    let (body, trailing) ← reply seen
    pure (statusAnswer body trailing, endOfStream)
  else throw "connection reset"

/-- Behind each address is a server at each attempt, or one that takes no connection. -/
structure JavaNetwork.Serves (net : JavaNetwork) (replies : Nat → SocketAddr → Reply) : Prop where
  exchange : ∀ n socketAddr remaining requests,
    net.exchange n socketAddr remaining requests = serveStatus (replies n socketAddr) requests
  short : ∀ n socketAddr seen body trailing, replies n socketAddr seen = .ok (body, trailing) → body.length < 2 ^ 31

def statusHandshake (host : String) (port : UInt16) (protocolVersion : Int32) : HandshakeSeen where
  packetLength := Int32.ofNat (javaHandshake host port protocolVersion).length
  following := (javaHandshake host port protocolVersion).length
  packetId := 0
  protocolVersion := protocolVersion
  hostLength := Int32.ofNat (Utf8.size host.toList)
  host := Utf8.bytes host.toList
  port := port.toNat
  nextState := 1
  leftOver := []

def Answers (net : JavaNetwork) (reply : Reply) (seen : HandshakeSeen) (response : JavaStatusResponse) : Prop :=
  ∃ body trailing, reply seen = .ok (body, trailing) ∧ net.fromSlice body = .ok response

/-- The first attempt whose server answers, and there was time to come to it. The handshake names the requested host,
whatever host is connected to, and the port of the connection. -/
def FirstAnswer (net : JavaNetwork) (replies : Nat → SocketAddr → Reply) (host : String) (port : Option UInt16)
    (timeout : ℚ) (response : JavaStatusResponse) : Prop :=
  let connectTarget := resolveJavaConnectTarget net host port
  ∃ socketAddrs, net.lookupHost connectTarget.connectHost connectTarget.connectPort = some socketAddrs ∧
    ∃ k socketAddr version, (javaAttempts socketAddrs)[k]? = some (socketAddr, version) ∧
      (∀ j ≤ k, net.elapsed j ≤ timeout) ∧
        Answers net (replies k socketAddr) (statusHandshake host connectTarget.connectPort version) response ∧
          ∀ j < k, ∀ before version', (javaAttempts socketAddrs)[j]? = some (before, version') →
            ∀ other, ¬Answers net (replies j before) (statusHandshake host connectTarget.connectPort version') other

section Served
variable {net : JavaNetwork} {replies : Nat → SocketAddr → Reply} {host : String} {timeout : ℚ}

theorem javaAttempt_ok_iff (serves : net.Serves replies) (short : Utf8.size host.toList + 18 < 2 ^ 31) (port : UInt16)
    (n : Nat) (socketAddr : SocketAddr) (version : Int32) (response : JavaStatusResponse) :
    javaAttempt net host port timeout n socketAddr version = .ok response ↔
      Answers net (replies n socketAddr) (statusHandshake host port version) response := by
  have fits := lt_of_le_of_lt (length_javaHandshake_le host port version) short
  have served : serveHandshake endOfStream (buildJavaStatusRequests host port version).1 =
      .ok (statusHandshake host port version) := serveHandshake_request endOfStream host port version fits
  have status : (buildJavaStatusRequests host port version).2 = [0x01, 0x00] := rfl
  rw [javaAttempt, tryPingJavaStatus, serves.exchange, serveStatus, served, ok_bind, if_pos status]
  cases replied : replies n socketAddr (statusHandshake host port version) with
  | error error =>
      refine ⟨nofun, ?_⟩
      rintro ⟨body, trailing, answered, _⟩
      cases replied.symm.trans answered
  | ok answer =>
      obtain ⟨body, trailing⟩ := answer
      have read := readStatus_answer endOfStream net.fromSlice body trailing (serves.short _ _ _ _ _ replied)
      change readStatus endOfStream net.fromSlice (statusAnswer body trailing) = .ok response ↔ _
      rw [read]
      cases decoded : net.fromSlice body with
      | error error =>
          refine ⟨nofun, ?_⟩
          rintro ⟨body', trailing', answered, decodes⟩
          cases replied.symm.trans answered
          cases decoded.symm.trans decodes
      | ok first =>
          constructor
          · intro same
            cases same
            exact ⟨body, trailing, replied, decoded⟩
          · rintro ⟨body', trailing', answered, decodes⟩
            cases replied.symm.trans answered
            cases decoded.symm.trans decodes
            rfl

theorem error_iff_not_ok {ε β : Type} (x : Except ε β) : (∃ e, x = .error e) ↔ ∀ b, x ≠ .ok b := by
  cases x with
  | error e => exact ⟨fun _ => nofun, fun _ => ⟨e, rfl⟩⟩
  | ok b => exact ⟨nofun, fun never => absurd rfl (never b)⟩

theorem javaPing_eq_some_iff (serves : net.Serves replies) (short : Utf8.size host.toList + 18 < 2 ^ 31)
    (port : Option UInt16) (response : JavaStatusResponse) :
    javaPing net host port timeout = some response ↔ FirstAnswer net replies host port timeout response := by
  have toOption_iff : ∀ x : Except String JavaStatusResponse, x.toOption = some response ↔ x = .ok response := by
    intro x
    cases x with
    | error => exact ⟨nofun, nofun⟩
    | ok first => exact ⟨fun same => congrArg _ (Option.some.inj same), fun same => congrArg _ (Except.ok.inj same)⟩
  unfold javaPing FirstAnswer
  dsimp only
  cases found : net.lookupHost (resolveJavaConnectTarget net host port).connectHost
      (resolveJavaConnectTarget net host port).connectPort with
  | none =>
      refine ⟨nofun, ?_⟩
      rintro ⟨_, none_, _⟩
      cases none_
  | some socketAddrs =>
      have answered : ∀ k socketAddr version other,
          javaAttempt net host (resolveJavaConnectTarget net host port).connectPort timeout k socketAddr version =
            .ok other ↔ Answers net (replies k socketAddr)
              (statusHandshake host (resolveJavaConnectTarget net host port).connectPort version) other :=
        javaAttempt_ok_iff serves short _
      simp only [Option.some.injEq, exists_eq_left', toOption_iff, pingJavaStatusBlocking]
      have loops : pingAttempts net host (resolveJavaConnectTarget net host port).connectPort timeout 0 none
          (javaAttempts socketAddrs) = .ok response ↔ _ := pingAttempts_ok_iff 0 none (javaAttempts socketAddrs)
      simp only [FirstSuccess, Nat.zero_add, answered, error_iff_not_ok, ne_eq] at loops
      cases socketAddrs with
      | nil =>
          refine ⟨nofun, ?_⟩
          rintro ⟨k, _, _, none_, _⟩
          cases none_
      | cons first rest => exact loops

end Served

/-- With servers behind the addresses a poll of a Java server gives the status of the first one that answers: of the
addresses of the connect target in their order, and for each of the nine protocol versions in theirs, which are tried
for as long as there is time. Where no one answers, it gives the failed result. -/
theorem java_poll_first_answer {net : JavaNetwork} {replies : Nat → SocketAddr → Reply} (serves : net.Serves replies)
    {host : String} (short : Utf8.size host.toList + 18 < 2 ^ 31) (port : Option UInt16) (timeout : ℚ)
    (target : PollTarget) :
    (∀ response, FirstAnswer net replies host port timeout response →
      ∃ version, sanitizeMinecraftVersion (RustText.trim response.version.name).toList = .ok version ∧
        pollJava target (javaPing net host port timeout) = .ok (javaResult target response (String.ofList version))) ∧
      ((∀ response, ¬FirstAnswer net replies host port timeout response) →
        pollJava target (javaPing net host port timeout) = .ok (failedPoll target)) := by
  constructor
  · intro response first
    obtain ⟨version, sanitized, _⟩ :=
      sanitizeWithin_sanitized _ (RustText.trim response.version.name).toList (Nat.lt_succ_self _)
    refine ⟨version, sanitized, ?_⟩
    rw [(javaPing_eq_some_iff serves short port response).mpr first, pollJava]
    rw [sanitizeMinecraftVersion, sanitized]
    rfl
  · intro never
    cases pinged : javaPing net host port timeout with
    | none => rfl
    | some response => exact absurd ((javaPing_eq_some_iff serves short port response).mp pinged) (never response)

/-- A server that takes one protocol version only, and only on its own name and port. -/
def luxorReply : Reply := fun seen =>
  if seen.protocolVersion = 763 ∧ seen.host = Utf8.bytes "play.luxorcraft.fun".toList ∧ seen.port = 25570 then
    .ok ([0x7b, 0x7d], [])
  else .error "connection reset"

def luxorResponse : JavaStatusResponse := ⟨⟨"Paper 1.20.1"⟩, ⟨100, 7, none⟩, none, none⟩

/-- Its SRV record names another host, and each attempt takes a second. -/
def luxorNetwork : JavaNetwork where
  srvLookup _ := some [⟨"node1.luxorcraft.fun.", 25570⟩]
  lookupHost host port := if host = "node1.luxorcraft.fun" ∧ port = 25570 then some ["192.0.2.1:25570"] else none
  elapsed n := n
  exchange _ _ _ requests := serveStatus luxorReply requests
  fromSlice _ := .ok luxorResponse

theorem java_poll_first_answer_luxor :
    ∃ version, pollJava sampleTarget (javaPing luxorNetwork "play.luxorcraft.fun" none 5) =
      .ok (javaResult sampleTarget luxorResponse version) := by
  have serves : luxorNetwork.Serves fun _ _ => luxorReply := by
    refine ⟨fun _ _ _ _ => rfl, fun _ _ seen body trailing replied => ?_⟩
    unfold luxorReply at replied
    split at replied
    · cases replied
      decide
    · cases replied
  have size : Utf8.size "play.luxorcraft.fun".toList = 19 := by decide
  have resolved : resolveJavaConnectTarget luxorNetwork "play.luxorcraft.fun" none = ⟨"node1.luxorcraft.fun", 25570⟩ := by
    decide +kernel
  have closed : ∀ version : Int32, version ≠ 763 → ∀ other,
      ¬Answers luxorNetwork luxorReply (statusHandshake "play.luxorcraft.fun" 25570 version) other := by
    rintro version wrong other ⟨body, trailing, replied, _⟩
    rw [luxorReply, if_neg fun right => wrong right.1] at replied
    cases replied
  have first : FirstAnswer luxorNetwork (fun _ _ => luxorReply) "play.luxorcraft.fun" none 5 luxorResponse := by
    rw [FirstAnswer, resolved]
    refine ⟨["192.0.2.1:25570"], rfl, 2, "192.0.2.1:25570", 763, rfl, fun j le => ?_, ⟨[0x7b, 0x7d], [], rfl, rfl⟩, ?_⟩
    · exact Nat.cast_le.mpr (le.trans (by decide : 2 ≤ 5))
    · intro j less before version turn
      interval_cases j
      · cases turn
        exact closed 769 (by decide)
      · cases turn
        exact closed 767 (by decide)
  obtain ⟨version, _, polled⟩ :=
    (java_poll_first_answer serves (by omega) none 5 sampleTarget).1 luxorResponse first
  exact ⟨_, polled⟩

end ServerPoller
