import ServerPoller.CatalogFields
import ServerPoller.Dispatch
import ServerPoller.Lib.Reachability

/-! The way of a payload from the update that makes it through a worker and the result queue to `ingest_loop`, where
polls of all servers run side by side. -/

namespace ServerPoller
open Json RustText Transition Slots

/-- The payload before `try_send`. -/
def Worker.payload? : Worker → Option Value
  | .sending _ payload => some payload
  | .idle | .received _ | .internal _ | .polling _ _ => none

section Outputs
variable (crates : Crates) (settings : Settings) (c : Collector)

/-- The payloads that workers have yet to send. -/
def Collector.unsent : List Value := contents settings.collector.maxConcurrency Worker.payload? c.workers

/-- What `build_change_payload` makes in a step. -/
def Collector.produced : Action → List Value
  | .finishPoll i result ctx =>
      match c.workers i with
      | .polling key snap =>
          ((c.states.lookup key).bind fun s => (updateState crates settings snap result ctx s).2).toList
      | _ => []
  | _ => []

def Collector.queued : Action → List Value
  | .trySend i =>
      if c.results.length < settings.collector.resultQueueMaxsize then (c.workers i).payload?.toList else []
  | _ => []

/-- What is dropped in a step because the queue is full. -/
def Collector.refused : Action → List Value
  | .trySend i =>
      if c.results.length < settings.collector.resultQueueMaxsize then [] else (c.workers i).payload?.toList
  | _ => []

def Collector.taken : Action → List Value
  | .ingestReceive => c.results.take 1
  | _ => []

end Outputs

section Steps
variable {crates : Crates} {settings : Settings} {b c d : Collector} {a : Action} {i : Nat}

theorem unsent_setWorker (same : b.workers = c.workers) (running : i < settings.collector.maxConcurrency) (w : Worker) :
    ∃ rest, (c.unsent settings).Perm ((c.workers i).payload?.toList ++ rest) ∧
      ((b.setWorker i w).unsent settings).Perm (w.payload?.toList ++ rest) := by
  obtain ⟨rest, before, after⟩ := contents_update Worker.payload? c.workers running
  refine ⟨rest, before, ?_⟩
  rw [Collector.unsent, Collector.setWorker, same]
  exact after w

/-- What a step sends was unsent before it, and what it makes is unsent after it; all else stays. -/
theorem step_unsent (spawned : c.Spawned settings) (hs : step crates settings c a = some d) :
    ∃ rest, (c.unsent settings).Perm (c.queued settings a ++ c.refused settings a ++ rest) ∧
      (d.unsent settings).Perm (c.produced crates settings a ++ rest) := by
  have other : ∀ {b : Collector} {i : Nat} {w : Worker}, b.workers = c.workers →
      i < settings.collector.maxConcurrency → (c.workers i).payload? = none → w.payload? = none →
        ∃ rest, (c.unsent settings).Perm rest ∧ ((b.setWorker i w).unsent settings).Perm rest := by
    intro b i w same running before after
    have moved := unsent_setWorker same running w
    rwa [before, after] at moved
  cases step_moved hs with
  | refresh | trigger | popNothing | popKnown | popUnknown | fetchedNothing | fetched | runTask | nextDue
  | accept | discard | send | ingestReceive => exact ⟨c.unsent settings, .refl _, .refl _⟩
  | receive idle _ running => exact other rfl running (by rw [idle]; rfl) rfl
  | @snapshot i key received =>
      refine other rfl (spawned.running (by rw [received]; rfl)) (by rw [received]; rfl) ?_
      cases c.states.lookup key with
      | none => rfl
      | some s =>
          rw [afterSnapshot]
          split
          · rfl
          · rfl
  | internalGone internal _ | rescheduleInternal internal _ =>
      exact other rfl (spawned.running (by rw [internal]; rfl)) (by rw [internal]; rfl) rfl
  | pollGone polling gone =>
      simp only [Collector.queued, Collector.refused, Collector.produced, polling, gone, Option.bind_none]
      exact other rfl (spawned.running (by rw [polling]; rfl)) (by rw [polling]; rfl) rfl
  | @finishPoll i key snap s result ctx polling found =>
      obtain ⟨rest, before, after⟩ := unsent_setWorker (b := c) rfl (spawned.running (by rw [polling]; rfl))
        (afterUpdate key (updateState crates settings snap result ctx s).2)
      refine ⟨rest, ?_, ?_⟩
      · rwa [polling] at before
      · simp only [Collector.produced, polling, found, Option.bind_some]
        cases made : (updateState crates settings snap result ctx s).2 with
        | none =>
            rw [made] at after
            exact after
        | some payload =>
            rw [made] at after
            exact after
  | @trySent i key payload sending room =>
      obtain ⟨rest, before, after⟩ := unsent_setWorker (b := c) rfl (spawned.running (by rw [sending]; rfl)) .idle
      refine ⟨rest, ?_, after⟩
      simp only [Collector.queued, Collector.refused, room, if_true, List.append_nil]
      exact before
  | @dropped i key payload sending full =>
      obtain ⟨rest, before, after⟩ := unsent_setWorker (b := c) rfl (spawned.running (by rw [sending]; rfl)) .idle
      refine ⟨rest, ?_, after⟩
      simp only [Collector.queued, Collector.refused, not_lt.mpr full, if_false, List.nil_append]
      exact before

/-- The result queue is first in, first out. -/
theorem step_results (hs : step crates settings c a = some d) :
    c.results ++ c.queued settings a = c.taken a ++ d.results := by
  cases step_moved hs with
  | refresh | trigger | popNothing | popKnown | popUnknown | fetchedNothing | fetched | runTask | nextDue
  | accept | discard | send | receive | snapshot | internalGone | rescheduleInternal | pollGone | finishPoll =>
      exact List.append_nil c.results
  | trySent sending room => simp [Collector.queued, Collector.taken, sending, room, Worker.payload?]
  | dropped sending full => simp [Collector.queued, Collector.taken, not_lt.mpr full, Collector.setWorker]
  | ingestReceive queue => simp [Collector.queued, Collector.taken, queue]

end Steps

section Conservation
variable {crates : Crates} {settings : Settings} {c d : Collector} {a : Action} {es : List Action}

/-- Where the payloads of the updates so far are. -/
structure Collector.Conserves (crates : Crates) (settings : Settings) (es : List Action) (c : Collector) : Prop where
  spawned : c.Spawned settings
  conserved : (gather (step crates settings) (Collector.produced crates settings) .start es).Perm
    (gather (step crates settings) Collector.taken .start es ++ c.results ++
      gather (step crates settings) (Collector.refused settings) .start es ++ c.unsent settings)
  fifo : gather (step crates settings) (Collector.queued settings) .start es =
    gather (step crates settings) Collector.taken .start es ++ c.results

theorem start_unsent : Collector.start.unsent settings = [] := by
  simp [Collector.unsent, contents, Collector.start, Worker.payload?]

theorem start_conserves : Collector.start.Conserves crates settings [] where
  spawned _ _ := rfl
  conserved := by
    rw [start_unsent]
    exact .refl _
  fifo := rfl

theorem step_conserves (h : c.Conserves crates settings es)
    (run : Run (ofFn (step crates settings)) .start es c) (hs : step crates settings c a = some d) :
    d.Conserves crates settings (es ++ [a]) := by
  classical
  obtain ⟨spawned, conserved, fifo⟩ := h
  obtain ⟨rest, sent, left⟩ := step_unsent spawned hs
  have results := step_results hs
  refine ⟨step_spawned spawned hs, ?_, ?_⟩
  · simp only [gather_append _ run hs]
    rw [List.perm_iff_count] at conserved sent left ⊢
    intro p
    replace results := congrArg (List.count p) results
    replace conserved := conserved p
    replace sent := sent p
    replace left := left p
    simp only [List.count_append] at results conserved sent left ⊢
    omega
  · simp only [gather_append _ run hs]
    rw [fifo, List.append_assoc, results, List.append_assoc]

/-- In every run each payload that an update has made is in one place: taken by `ingest_loop`, in the result queue,
dropped because the queue was full, or with the worker that is about to send it. -/
theorem run_conserves (run : Run (ofFn (step crates settings)) .start es c) : c.Conserves crates settings es :=
  run.keeps_along (fun _ _ _ _ before h hs => step_conserves h before hs) start_conserves

end Conservation

def payloadsOf (k : String) (payloads : List Value) : List Value :=
  payloads.filter fun payload => strField payload "server_id" == some k

/-- A forced fetch brings the server that was asked for. -/
def Collector.bringsTarget (c : Collector) : Action → Bool
  | .fetched getServer _ =>
      match c.forceLoop with
      | .fetching target _ => (fetchServerById getServer target).all fun server => itemKey server == target
      | .waiting => true
  | _ => true

/-- An update makes a payload of the server only when the one before it is sent, and there is room for it when it is
sent itself. A forced fetch of any server brings the one that was asked for. -/
def InTurn (crates : Crates) (settings : Settings) (k : String) (c : Collector) (a : Action) : Prop :=
  (payloadsOf k (c.produced crates settings a) = [] ∨ payloadsOf k (c.unsent settings) = []) ∧
    payloadsOf k (c.refused settings a) = [] ∧ c.bringsTarget a = true

instance (crates : Crates) (settings : Settings) (k : String) (c : Collector) (a : Action) :
    Decidable (InTurn crates settings k c a) := inferInstanceAs (Decidable (_ ∧ _ ∧ _))

/-- The payloads of a server that have been made and not been dropped, from the oldest to the newest. -/
def Collector.onTheWay (crates : Crates) (settings : Settings) (es : List Action) (c : Collector) (k : String) :
    List Value :=
  payloadsOf k (gather (step crates settings) Collector.taken .start es ++ c.results ++ c.unsent settings)

section Named
variable {crates : Crates} {settings : Settings} {before : States} {now : ℚ} {k : String} {s : ServerState}

/-- A state has the key for its id, and nothing was emitted from it since it was under its key but what was before. -/
def EmittedKept (before after : States) : Prop :=
  ∀ k t, after.lookup k = some t → t.serverId = k ∧
    (t.toEmitted = nothingEmitted ∨ ∃ s, before.lookup k = some s ∧ s.toEmitted = t.toEmitted)

theorem EmittedKept.insert {mid : States} (h : EmittedKept before mid) (id : s.serverId = k)
    (emitted : s.toEmitted = nothingEmitted ∨ ∃ t, before.lookup k = some t ∧ t.toEmitted = s.toEmitted) :
    EmittedKept before (mid.insert k s) := by
  intro k' t found
  rcases AList.lookup_insert_eq_some.mp found with ⟨rfl, rfl⟩ | ⟨_, there⟩
  · exact ⟨id, emitted⟩
  · exact h k' t there

theorem updateExisting_serverId {entry : Value × ItemContext} :
    (updateExisting crates settings now entry s).serverId = s.serverId := by
  unfold updateExisting updateAddress
  split <;> rfl

theorem updateExisting_emitted_or (crates : Crates) (settings : Settings) (now : ℚ) (entry : Value × ItemContext)
    (s : ServerState) : (updateExisting crates settings now entry s).toEmitted = nothingEmitted ∨
      (updateExisting crates settings now entry s).toEmitted = s.toEmitted := by
  unfold updateExisting updateAddress
  split
  · exact .inr rfl
  · exact .inl rfl

theorem refreshServersOnce_emittedKept (entries : List (Value × ItemContext)) (same : EmittedKept before before) :
    EmittedKept before (refreshServersOnce crates settings now entries before).2.states := by
  have related : ∀ k t, (refreshServersOnce crates settings now entries before).2.states.lookup k = some t →
      t.serverId = k ∧ (t.toEmitted = nothingEmitted ∨ ∃ s ∈ before.lookup k, s.toEmitted = t.toEmitted) := by
    intro k t found
    refine refreshServersOnce_relates (R := fun k o t => t.serverId = k ∧
      (t.toEmitted = nothingEmitted ∨ ∃ s ∈ o, s.toEmitted = t.toEmitted)) ?_ ?_ ?_ entries found
    · intro k s there
      exact ⟨(same k s there).1, .inr ⟨s, rfl, rfl⟩⟩
    · rintro k o entry s ⟨id, emitted⟩
      refine ⟨updateExisting_serverId.trans id, ?_⟩
      rcases updateExisting_emitted_or crates settings now entry s with reset | stays
      · exact .inl reset
      · rwa [stays]
    · intro entry
      exact ⟨rfl, .inl rfl⟩
  exact related

theorem trigger_emittedKept (targets : Option (List String)) (same : EmittedKept before before) :
    EmittedKept before (trigger targets now before).states := by
  intro k t found
  obtain ⟨s, there, rfl | rfl⟩ := lookup_trigger found
  · exact same k t there
  · exact same k s there

end Named

section Emission
variable {crates : Crates} {settings : Settings} {snap : Snapshot} {result : PollResult} {ctx : UpdateContext}
  {c d : Collector} {a : Action} {k : String} {s t : ServerState}

theorem outPayload_server_id (state : ServerState) (payload : Value) (cur : Observation) (players : List String)
    (event : EventType) : strField (outPayload state payload cur players event) "server_id" = some state.serverId := by
  simp [strField, outPayload, Value.get_ofFields, List.lookup_cons, Value.asStr]

theorem updateState_emits (crates : Crates) (settings : Settings) (snap : Snapshot) (result : PollResult)
    (ctx : UpdateContext) (s : ServerState) :
    ((updateState crates settings snap result ctx s).2 = none ∧
        (updateState crates settings snap result ctx s).1.toEmitted = s.toEmitted) ∨
      ∃ out, (updateState crates settings snap result ctx s).2 = some out ∧
        strField out "server_id" = some s.serverId ∧
          (updateState crates settings snap result ctx s).1.toEmitted.Holds (some (payloadRecord crates out)) := by
  have kept := undisturbed_recordPoll crates settings snap result ctx s
  unfold updateState
  dsimp only
  split
  · exact .inl ⟨rfl, kept.emitted⟩
  · have made := buildChangePayload_output crates (recordPoll crates settings snap result ctx s) result.payload
      result.statusOk ctx.emitNow settings.collector.heartbeatIntervalSeconds
    rcases buildChangePayload_cases crates (recordPoll crates settings snap result ctx s) result.payload
        result.statusOk ctx.emitNow settings.collector.heartbeatIntervalSeconds with ⟨_, eq⟩ | ⟨out, eq, record⟩
    · rw [eq]
      exact .inl ⟨rfl, kept.emitted⟩
    · rw [eq] at made ⊢
      obtain ⟨event, _, shape⟩ := Option.map_eq_some_iff.mp made.symm
      refine .inr ⟨out, rfl, ?_, ?_⟩
      · rw [← shape, outPayload_server_id, kept.serverId]
      · rw [record]
        exact ⟨_, rfl⟩

theorem updateState_serverId : (updateState crates settings snap result ctx s).1.serverId = s.serverId := by
  obtain ⟨e, eq⟩ := updateState_frame crates settings snap result ctx s
  rw [eq]
  exact (undisturbed_recordPoll crates settings snap result ctx s).serverId

theorem payloadsOf_self {payload : Value} (id : strField payload "server_id" = some k) :
    payloadsOf k [payload] = [payload] := List.filter_cons_of_pos (by simp [id])

theorem payloadsOf_other {payload : Value} {key : String} (id : strField payload "server_id" = some key)
    (other : key ≠ k) : payloadsOf k [payload] = [] := List.filter_cons_of_neg (by simp [id, other])

/-- After a step a state has emitted nothing yet, or the same as before it and the step makes no payload of it, or what
the one payload says that the step makes of it. -/
def EmittedBy (crates : Crates) (settings : Settings) (c : Collector) (a : Action) (k : String) (t : ServerState) :
    Prop :=
  t.toEmitted = nothingEmitted ∨
    (payloadsOf k (c.produced crates settings a) = [] ∧
      ∃ s, c.states.lookup k = some s ∧ s.toEmitted = t.toEmitted) ∨
    ∃ payload, payloadsOf k (c.produced crates settings a) = [payload] ∧
      t.toEmitted.Holds (some (payloadRecord crates payload))

theorem step_emitted (named : EmittedKept c.states c.states) (hs : step crates settings c a = some d)
    (brings : c.bringsTarget a = true) (found : d.states.lookup k = some t) :
    t.serverId = k ∧ EmittedBy crates settings c a k t := by
  have silent : c.produced crates settings a = [] → EmittedKept c.states d.states →
      t.serverId = k ∧ EmittedBy crates settings c a k t := by
    intro nothing kept
    obtain ⟨id, emitted⟩ := kept k t found
    rw [EmittedBy, nothing]
    exact ⟨id, emitted.imp_right fun same => .inl ⟨rfl, same⟩⟩
  cases step_moved hs with
  | refresh => exact silent rfl (refreshServersOnce_emittedKept _ named)
  | trigger => exact silent rfl (trigger_emittedKept _ named)
  | popKnown _ _ _ there => exact silent rfl (named.insert (named _ _ there).1 (named _ _ there).2)
  | @fetched target now getServer server ctx fetching answer =>
      have id : itemKey server = target := by simpa [Collector.bringsTarget, fetching, answer] using brings
      exact silent rfl (named.insert id (.inl rfl))
  | popNothing | popUnknown | fetchedNothing | runTask | nextDue | accept | discard | send | receive | snapshot
  | internalGone | trySent | dropped | ingestReceive => exact silent rfl named
  | rescheduleInternal _ there => exact silent rfl (named.insert (named _ _ there).1 (named _ _ there).2)
  | pollGone polling gone =>
      refine silent ?_ named
      simp only [Collector.produced, polling, gone, Option.bind_none, Option.toList_none]
  | @finishPoll i key snap s result ctx polling there =>
      have id := (named _ _ there).1
      have update := updateState_emits crates settings snap result ctx s
      rcases AList.lookup_insert_eq_some.mp found with ⟨rfl, rfl⟩ | ⟨other, before⟩
      · refine ⟨updateState_serverId.trans id, .inr ?_⟩
        simp only [Collector.produced, polling, there, Option.bind_some]
        rcases update with ⟨nothing, stays⟩ | ⟨out, made, named', holds⟩
        · rw [nothing]
          exact .inl ⟨rfl, s, rfl, stays.symm⟩
        · rw [made]
          exact .inr ⟨out, payloadsOf_self (named'.trans (congrArg some id)), holds⟩
      · refine ⟨(named _ _ before).1, .inr (.inl ⟨?_, t, before, rfl⟩)⟩
        simp only [Collector.produced, polling, there, Option.bind_some]
        rcases update with ⟨nothing, _⟩ | ⟨out, made, named', _⟩
        · rw [nothing]
          rfl
        · rw [made]
          exact payloadsOf_other (named'.trans (congrArg some id)) (Ne.symm other)

end Emission

section Follows
variable {crates : Crates} {settings : Settings} {c d : Collector} {a : Action} {k : String} {es : List Action}
  {s : ServerState}

theorem payloadsOf_append (k : String) (l m : List Value) : payloadsOf k (l ++ m) = payloadsOf k l ++ payloadsOf k m :=
  List.filter_append ..

/-- The last payload of a server that is on its way is the one that its state remembers. -/
structure Collector.Follows (crates : Crates) (settings : Settings) (k : String) (es : List Action) (c : Collector) :
    Prop where
  spawned : c.Spawned settings
  named : EmittedKept c.states c.states
  single : (payloadsOf k (c.unsent settings)).length ≤ 1
  follows : ∀ s, c.states.lookup k = some s → s.toEmitted = nothingEmitted ∨
    s.toEmitted.Holds (latest crates (c.onTheWay crates settings es k))

theorem produced_length (crates : Crates) (settings : Settings) (c : Collector) (a : Action) :
    (c.produced crates settings a).length ≤ 1 := by
  cases a with
  | finishPoll =>
      simp only [Collector.produced]
      split
      · exact Option.length_toList_le
      · exact Nat.zero_le _
  | _ => exact Nat.zero_le _

theorem step_onTheWay (h : c.Follows crates settings k es)
    (run : Run (ofFn (step crates settings)) .start es c) (hs : step crates settings c a = some d)
    (turn : InTurn crates settings k c a) : (payloadsOf k (d.unsent settings)).length ≤ 1 ∧
      d.onTheWay crates settings (es ++ [a]) k =
        c.onTheWay crates settings es k ++ payloadsOf k (c.produced crates settings a) := by
  obtain ⟨alone, room, _⟩ := turn
  obtain ⟨rest, sent, left⟩ := step_unsent h.spawned hs
  have moved : (payloadsOf k (c.queued settings a) ++ payloadsOf k (d.unsent settings)).Perm
      (payloadsOf k (c.unsent settings) ++ payloadsOf k (c.produced crates settings a)) := by
    have before := sent.filter fun payload => strField payload "server_id" == some k
    have after := left.filter fun payload => strField payload "server_id" == some k
    simp only [List.filter_append] at before after
    simp only [payloadsOf] at room ⊢
    rw [room, List.append_nil] at before
    refine (after.append_left _).trans (.trans ?_ (before.symm.append_right _))
    rw [List.append_assoc]
    exact List.perm_append_comm.append_left _
  have short : (payloadsOf k (c.unsent settings) ++ payloadsOf k (c.produced crates settings a)).length ≤ 1 := by
    have made : (payloadsOf k (c.produced crates settings a)).length ≤ 1 :=
      (List.length_filter_le _ _).trans (produced_length crates settings c a)
    rcases alone with none | none
    · rw [none, List.append_nil]
      exact h.single
    · rw [none, List.nil_append]
      exact made
  have same := perm_eq_of_length_le_one moved short
  constructor
  · have total := moved.length_eq
    rw [List.length_append] at total
    omega
  · unfold Collector.onTheWay
    rw [gather_append _ run hs]
    simp only [payloadsOf_append, List.append_assoc]
    rw [← same]
    have results := congrArg (payloadsOf k) (step_results hs)
    simp only [payloadsOf_append] at results
    simp only [← List.append_assoc, ← results]

theorem step_follows (h : c.Follows crates settings k es)
    (run : Run (ofFn (step crates settings)) .start es c) (hs : step crates settings c a = some d)
    (turn : InTurn crates settings k c a) : d.Follows crates settings k (es ++ [a]) := by
  obtain ⟨single, moved⟩ := step_onTheWay h run hs turn
  refine ⟨step_spawned h.spawned hs, ?_, single, ?_⟩
  · intro key t found
    exact ⟨(step_emitted h.named hs turn.2.2 found).1, .inr ⟨t, found, rfl⟩⟩
  · intro t found
    rw [moved]
    rcases (step_emitted h.named hs turn.2.2 found).2 with fresh | ⟨nothing, s, before, same⟩ | ⟨payload, made, holds⟩
    · exact .inl fresh
    · rw [nothing, List.append_nil, ← same]
      exact h.follows s before
    · rw [made, latest, List.getLast?_concat]
      exact .inr holds

theorem start_follows : Collector.start.Follows crates settings k [] where
  spawned _ _ := rfl
  named _ _ found := by cases found
  single := by
    rw [start_unsent]
    exact Nat.zero_le 1
  follows _ found := by cases found

theorem run_follows (run : Run (Only (ofFn (step crates settings)) (InTurn crates settings k)) .start es c) :
    c.Follows crates settings k es :=
  run.keeps_along (fun _ _ _ _ before h hs => step_follows h before.unrestricted hs.1 hs.2) start_follows

end Follows

end ServerPoller
