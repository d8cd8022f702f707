import ServerPoller.Lib.KeyedMap
import ServerPoller.Lib.Reachability
import ServerPoller.PollServer

/-! `redis_discovery_probe_loop`: requests that others push are taken from the queue one by one, and the answer to each
is stored under the key of its candidate. A request is polled by `poll_server` like a server of the catalog. -/

namespace ServerPoller
open Json RustText Transition

structure DiscoverySettings where
  probeQueueKey : String
  probeResultKeyPrefix : String
  probeResultTtlSeconds : Nat
  statusTimeoutSeconds : ℚ

structure DiscoveryProbeRequest where
  candidateId : String
  host : String
  port : Option UInt16
  edition : Option String
  deriving DecidableEq, Repr

structure DiscoveryProbe where
  candidateId : String
  host : String
  port : Option UInt16
  edition : Edition
  deriving DecidableEq, Repr

def eqIgnoreAsciiCase (s t : String) : Bool := s.toList.map Char.toLower == t.toList.map Char.toLower

def editionParsed (edition : Option String) : Edition :=
  match edition with
  | some value => if eqIgnoreAsciiCase value "bedrock" then .bedrock else .java
  | none => .java

section Source
/- `serde_json::from_str`. -/
variable (fromStr : String → Option DiscoveryProbeRequest)

/-- What is left of an element of the queue. The id of the candidate is not trimmed where it is used. -/
def acceptProbe (raw : String) : Option DiscoveryProbe :=
  let raw := trim raw
  if raw = "" then none
  else
    match fromStr raw with
    | none => none
    | some request =>
        let host := trim request.host
        if trim request.candidateId = "" ∨ host = "" then none
        else some ⟨request.candidateId, host, request.port, editionParsed request.edition⟩

end Source

def Value.asU64 : Value → Option UInt64
  | .number n => n.asU64
  | _ => none

def probeResponse (probe : DiscoveryProbe) (result : PollResult) (probedAt : String) (elapsedMs : UInt64) : Value :=
  let number := fun field => Value.ofOption (fun n => .number (.posInt n)) ((result.payload.get field).bind Value.asU64)
  let text := fun field => Value.string (((result.payload.get field).bind Value.asStr).getD "")
  .ofFields [
    ("candidate_id", .string probe.candidateId),
    ("status_ok", .bool result.statusOk),
    ("error", if result.statusOk then .null else .string "probe failed"),
    ("probed_at", .string probedAt),
    ("host", .string probe.host),
    ("port", .ofOption (fun port => .number (.posInt port.toUInt64)) probe.port),
    ("edition", .string (match probe.edition with | .bedrock => "bedrock" | .java => "java")),
    ("online", number "online"),
    ("max_players", number "max_players"),
    ("version", text "version"),
    ("motd", text "motd"),
    ("favicon", .string result.favicon),
    ("elapsed_ms", .number (.posInt elapsedMs))]

structure StoredResult where
  body : Value
  expiresAt : ℚ

/-- The queue and the results in Redis, and the request that the loop is about. -/
structure DiscoveryLoop where
  queue : List String
  probing : Option DiscoveryProbe
  results : AList fun _ : String => StoredResult

inductive DiscoveryAct where
  /-- Somebody asks for a probe. -/
  | push (raw : String)
  /-- `BLPOP`. -/
  | pop
  /-- The element is taken from the queue, and the connection breaks before it arrives. -/
  | popLost
  /-- The poll of the candidate ends, and the answer is written at this time or the write fails. -/
  | answer (ctx : PollContext) (probedAt : String) (elapsedMs : UInt64) (now : ℚ) (written : Bool)

namespace DiscoveryLoop

/-- There is no loop without the names of its keys. -/
def start (settings : DiscoverySettings) : Option DiscoveryLoop :=
  if trim settings.probeQueueKey = "" ∨ trim settings.probeResultKeyPrefix = "" then none else some ⟨[], none, ∅⟩

section Source
variable (settings : DiscoverySettings) (fromStr : String → Option DiscoveryProbeRequest)

def resultKey (probe : DiscoveryProbe) : String := trim settings.probeResultKeyPrefix ++ probe.candidateId

def step (s : DiscoveryLoop) : DiscoveryAct → Option DiscoveryLoop
  | .push raw => some { s with queue := s.queue ++ [raw] }
  | .pop =>
      match s.probing, s.queue with
      | none, raw :: rest => some { s with queue := rest, probing := acceptProbe fromStr raw }
      | _, _ => none
  | .popLost =>
      match s.probing, s.queue with
      | none, _ :: rest => some { s with queue := rest }
      | _, _ => none
  | .answer ctx probedAt elapsedMs now written =>
      match s.probing with
      | some probe =>
          match pollServer ctx probe.candidateId probe.host probe.port probe.edition settings.statusTimeoutSeconds with
          | .ok result =>
              some { s with
                probing := none
                results :=
                  if written then
                    s.results.insert (resultKey settings probe)
                      ⟨probeResponse probe result probedAt elapsedMs, now + max settings.probeResultTtlSeconds 60⟩
                  else s.results }
          | .error _ => none
      | none => none

end Source

section Moved
variable (settings : DiscoverySettings) (fromStr : String → Option DiscoveryProbeRequest) (s : DiscoveryLoop)

inductive Moved : DiscoveryAct → DiscoveryLoop → Prop
  | push {raw} : Moved (.push raw) { s with queue := s.queue ++ [raw] }
  | pop {raw rest} : s.probing = none → s.queue = raw :: rest →
      Moved .pop { s with queue := rest, probing := acceptProbe fromStr raw }
  | popLost {raw rest} : s.probing = none → s.queue = raw :: rest → Moved .popLost { s with queue := rest }
  | written {ctx probedAt elapsedMs now probe result} : s.probing = some probe →
      pollServer ctx probe.candidateId probe.host probe.port probe.edition settings.statusTimeoutSeconds = .ok result →
      Moved (.answer ctx probedAt elapsedMs now true) { s with
        probing := none
        results := s.results.insert (resultKey settings probe)
          ⟨probeResponse probe result probedAt elapsedMs, now + max settings.probeResultTtlSeconds 60⟩ }
  | unwritten {ctx probedAt elapsedMs now probe} : s.probing = some probe →
      Moved (.answer ctx probedAt elapsedMs now false) { s with probing := none }

end Moved

variable {settings : DiscoverySettings} {fromStr : String → Option DiscoveryProbeRequest} {s t : DiscoveryLoop}
  {a : DiscoveryAct} {acts : List DiscoveryAct}

theorem step_moved (h : s.step settings fromStr a = some t) : s.Moved settings fromStr a t := by
  cases a with
  | push raw =>
      cases h
      exact .push
  | pop =>
      simp only [step] at h
      split at h
      · rename_i idle queue
        cases h
        exact .pop idle queue
      · cases h
  | popLost =>
      simp only [step] at h
      split at h
      · rename_i idle queue
        cases h
        exact .popLost idle queue
      · cases h
  | answer ctx probedAt elapsedMs now written =>
      simp only [step] at h
      split at h
      · rename_i probe probing
        split at h
        · rename_i result polled
          cases h
          cases written with
          | true => exact .written probing polled
          | false => exact .unwritten probing
        · cases h
      · cases h

def pushedBy (acts : List DiscoveryAct) : List String :=
  acts.filterMap fun
    | .push raw => some raw
    | .pop | .popLost | .answer .. => none

/-- Nothing is lost on the way from Redis, or on the way to it. -/
def kept : DiscoveryAct → Bool
  | .push _ | .pop => true
  | .popLost => false
  | .answer _ _ _ _ written => written

structure Answer where
  probe : DiscoveryProbe
  ctx : PollContext
  probedAt : String
  elapsedMs : UInt64
  now : ℚ

/-- The request that a step answers, if the answer is written. -/
def answered (s : DiscoveryLoop) : DiscoveryAct → List Answer
  | .answer ctx probedAt elapsedMs now true =>
      match s.probing with
      | some probe => [⟨probe, ctx, probedAt, elapsedMs, now⟩]
      | none => []
  | .answer _ _ _ _ false | .push _ | .pop | .popLost => []

def lastFor (settings : DiscoverySettings) (key : String) (done : List Answer) : Option Answer :=
  done.reverse.find? fun answer => resultKey settings answer.probe = key

/-- What is stored for an answer: the result of that poll of its host, to be kept for a minute at least. -/
def IsAnswer (settings : DiscoverySettings) (entry : StoredResult) (answer : Answer) : Prop :=
  let probe := answer.probe
  ∃ result, pollServer answer.ctx probe.candidateId probe.host probe.port probe.edition
      settings.statusTimeoutSeconds = .ok result ∧
    entry.body = probeResponse probe result answer.probedAt answer.elapsedMs ∧
      entry.expiresAt = answer.now + max settings.probeResultTtlSeconds 60

/-- What was answered, and then what is probed and what waits. -/
def accounted (fromStr : String → Option DiscoveryProbeRequest) (done : List Answer) (s : DiscoveryLoop) :
    List DiscoveryProbe := done.map Answer.probe ++ s.probing.toList ++ s.queue.filterMap (acceptProbe fromStr)

structure Serves (settings : DiscoverySettings) (fromStr : String → Option DiscoveryProbeRequest)
    (acts : List DiscoveryAct) (done : List Answer) (s : DiscoveryLoop) : Prop where
  inOrder : (accounted fromStr done s).Sublist ((pushedBy acts).filterMap (acceptProbe fromStr))
  everyOne : acts.all kept = true → accounted fromStr done s = (pushedBy acts).filterMap (acceptProbe fromStr)
  results : ∀ key, Option.Rel (IsAnswer settings) (s.results.lookup key) (lastFor settings key done)

theorem lastFor_append (key : String) (done : List Answer) (answer : Answer) :
    lastFor settings key (done ++ [answer]) =
      if resultKey settings answer.probe = key then some answer else lastFor settings key done := by
  rw [lastFor, List.reverse_append, List.reverse_singleton, List.singleton_append, List.find?_cons]
  by_cases same : resultKey settings answer.probe = key
  · rw [if_pos same, decide_eq_true same]
  · rw [if_neg same, decide_eq_false same]
    rfl

theorem pushedBy_append (acts : List DiscoveryAct) (a : DiscoveryAct) :
    pushedBy (acts ++ [a]) = pushedBy acts ++ pushedBy [a] := List.filterMap_append

theorem Serves.quiet {done done' : List Answer} (h : s.Serves settings fromStr acts done)
    (silent : pushedBy [a] = []) (fewer : (accounted fromStr done' t).Sublist (accounted fromStr done s))
    (same : kept a = true → accounted fromStr done' t = accounted fromStr done s)
    (results : ∀ key, Option.Rel (IsAnswer settings) (t.results.lookup key) (lastFor settings key done')) :
    t.Serves settings fromStr (acts ++ [a]) done' := by
  have pushed : pushedBy (acts ++ [a]) = pushedBy acts := by rw [pushedBy_append, silent, List.append_nil]
  refine ⟨pushed ▸ fewer.trans h.inOrder, fun all => ?_, results⟩
  rw [List.all_append, Bool.and_eq_true] at all
  rw [pushed, ← h.everyOne all.1]
  exact same (by simpa using all.2)

theorem Serves.step {done : List Answer} (h : s.Serves settings fromStr acts done)
    (moved : s.Moved settings fromStr a t) : t.Serves settings fromStr (acts ++ [a]) (done ++ s.answered a) := by
  have silent : s.answered a = [] → done ++ s.answered a = done := fun none_ => by rw [none_, List.append_nil]
  cases moved with
  | @push raw =>
      have one : pushedBy [.push raw] = [raw] := rfl
      have more : accounted fromStr done { s with queue := s.queue ++ [raw] } =
          accounted fromStr done s ++ [raw].filterMap (acceptProbe fromStr) := by
        rw [accounted, accounted, List.filterMap_append, List.append_assoc, List.append_assoc, List.append_assoc]
      rw [silent rfl]
      refine ⟨?_, fun all => ?_, h.results⟩
      · rw [pushedBy_append, one, List.filterMap_append, more]
        exact h.inOrder.append (List.Sublist.refl _)
      · rw [List.all_append, Bool.and_eq_true] at all
        rw [pushedBy_append, one, List.filterMap_append, more, h.everyOne all.1]
  | @pop raw rest idle queue =>
      have same : accounted fromStr done { s with queue := rest, probing := acceptProbe fromStr raw } =
          accounted fromStr done s := by
        rw [accounted, accounted, idle, queue, List.filterMap_cons, Option.toList_none, List.append_nil]
        cases acceptProbe fromStr raw with
        | none => rw [Option.toList_none, List.append_nil]
        | some probe => rw [Option.toList_some, List.append_assoc, List.singleton_append]
      rw [silent rfl]
      exact h.quiet rfl (same ▸ List.Sublist.refl _) (fun _ => same) h.results
  | @popLost raw rest idle queue =>
      rw [silent rfl]
      refine h.quiet rfl ?_ nofun h.results
      rw [accounted, accounted, queue]
      exact (List.Sublist.refl _).append ((List.sublist_cons_self raw rest).filterMap _)
  | @written ctx probedAt elapsedMs now probe result probing polled =>
      have one : s.answered (.answer ctx probedAt elapsedMs now true) =
          [⟨probe, ctx, probedAt, elapsedMs, now⟩] := by
        rw [answered, probing]
      have same : ∀ results, accounted fromStr (done ++ [⟨probe, ctx, probedAt, elapsedMs, now⟩])
          { s with probing := none, results } = accounted fromStr done s := by
        intro results
        rw [accounted, accounted, probing, Option.toList_none, List.append_nil, Option.toList_some, List.map_append]
        rfl
      rw [one]
      refine h.quiet rfl (same _ ▸ List.Sublist.refl _) (fun _ => same _) fun key => ?_
      · rw [lastFor_append]
        by_cases same : resultKey settings probe = key
        · subst same
          rw [if_pos rfl, AList.lookup_insert]
          exact .some ⟨result, polled, rfl, rfl⟩
        · rw [if_neg same, AList.lookup_insert_ne (Ne.symm same)]
          exact h.results key
  | @unwritten ctx probedAt elapsedMs now probe probing =>
      rw [silent rfl]
      refine h.quiet rfl ?_ nofun h.results
      rw [accounted, accounted, probing, Option.toList_none, List.append_nil]
      exact (List.sublist_append_left _ _).append (List.Sublist.refl _)

def answers (settings : DiscoverySettings) (fromStr : String → Option DiscoveryProbeRequest) (s : DiscoveryLoop)
    (acts : List DiscoveryAct) : List Answer := gather (DiscoveryLoop.step settings fromStr) answered s acts

theorem Serves.run (started : start settings = some s)
    (run : Run (ofFn (DiscoveryLoop.step settings fromStr)) s acts t) :
    t.Serves settings fromStr acts (answers settings fromStr s acts) := by
  have fresh : s.Serves settings fromStr [] [] := by
    unfold start at started
    split at started
    · cases started
    · cases started
      exact ⟨List.Sublist.refl _, fun _ => rfl, fun _ => .none⟩
  refine run.keeps_along (P := fun acts u => u.Serves settings fromStr acts (answers settings fromStr s acts)) ?_ fresh
  intro past u b v before serves moved
  rw [answers, gather_append _ before moved]
  exact serves.step (step_moved moved)

end DiscoveryLoop

def sampleDiscovery : DiscoverySettings :=
  ⟨"leavepulse:discovery:probe-request", "leavepulse:discovery:probe-result:", 86400, 8⟩

def sampleFromStr (raw : String) : Option DiscoveryProbeRequest :=
  if raw = "\x7b\"candidate_id\":\"9\",\"host\":\"a.example.com\"\x7d" then some ⟨"9", "a.example.com", none, none⟩
  else if raw = "\x7b\"candidate_id\":\"9\",\"host\":\" b.example.com\",\"edition\":\"BEDROCK\"\x7d" then
    some ⟨"9", " b.example.com", none, some "BEDROCK"⟩
  else none

def twoRequests : List DiscoveryAct := [
  .push "\x7b\"candidate_id\":\"9\",\"host\":\"a.example.com\"\x7d", .push "not json", .pop,
  .push "\x7b\"candidate_id\":\"9\",\"host\":\" b.example.com\",\"edition\":\"BEDROCK\"\x7d ",
  .answer offline "2026-01-01T00:00:08+00:00" 8000 8 true, .pop, .pop,
  .answer offline "2026-01-01T00:00:16+00:00" 8000 16 true]

end ServerPoller
