import ServerPoller.CatalogFields

/-! For a plugin-managed server a poll is only a comparison probe. A failed one is not reported, but
what decides is the snapshot that the worker took before the poll, and what marks the payload is the
state after it. -/

namespace ServerPoller
open Json RustText Transition

/-- The plugin reports for this server, so a poll only compares. -/
def ServerState.compares (s : ServerState) : Bool := s.pluginManaged && !s.pluginFallbackMode

def Snapshot.compares (snap : Snapshot) : Bool := snap.pluginManaged && !snap.pluginFallbackMode

def ReportsFailedProbe (payload : Value) : Prop :=
  strField (extraOf payload) "poll_status" = some "failed" ∧
    ((extraOf payload).get "compare_probe").bind Value.asBool = some true

instance (payload : Value) : Decidable (ReportsFailedProbe payload) := inferInstanceAs (Decidable (_ ∧ _))

/-- No worker is about to send such a payload, and none is in the result queue. -/
def Collector.NoFailedProbe (c : Collector) : Prop :=
  (∀ i key payload, c.workers i = .sending key payload → ¬ReportsFailedProbe payload) ∧
    ∀ payload ∈ c.results, ¬ReportsFailedProbe payload

/-- A failed poll that ends on a comparing server was begun on one. -/
def SameMode (c : Collector) (a : Action) : Prop :=
  match a with
  | .finishPoll i result _ =>
      result.statusOk = false → ∀ poll ∈ (c.workers i).poll?, ∀ s ∈ c.states.lookup poll.1,
        s.compares = true → poll.2.compares = true
  | _ => True

instance (c : Collector) : ∀ a, Decidable (SameMode c a)
  | .finishPoll .. => inferInstanceAs (Decidable (_ → ∀ _ ∈ _, ∀ _ ∈ _, _ → _))
  | .refresh .. | .trigger .. | .popTarget .. | .fetched .. | .runTask _ | .nextDue _ | .check | .send
  | .receive _ | .snapshot _ | .rescheduleInternal .. | .trySend _ | .ingestReceive =>
      inferInstanceAs (Decidable True)

section Payload
variable {crates : Crates} {settings : Settings} {state : ServerState} {payload out : Value} {statusOk : Bool}

theorem outExtra_compare_probe (up : Bool) (players : List String) :
    ((outExtra state up players).get "compare_probe").bind Value.asBool =
      if state.compares then some true else none := by
  have mode : (state.pluginManaged && !state.pluginFallbackMode) = state.compares := rfl
  simp only [outExtra, mode, Value.get_ofFields]
  cases players.isEmpty <;> cases state.pluginFallbackMode <;> cases state.compares <;>
    simp [List.lookup_cons, Value.asBool]

theorem outPayload_reports_iff (cur : Observation) (players : List String) (event : EventType) :
    ReportsFailedProbe (outPayload state payload cur players event) ↔
      cur.up = false ∧ state.compares = true := by
  rw [ReportsFailedProbe, extraOf_outPayload, outExtra_poll_status, outExtra_compare_probe]
  cases cur.up <;> cases state.compares <;> simp

theorem buildChangePayload_reports_iff {now heartbeatInterval : ℚ}
    (produced : (buildChangePayload crates state payload statusOk now heartbeatInterval).2 = some out) :
    ReportsFailedProbe out ↔ statusOk = false ∧ state.compares = true := by
  have up : (currentValues crates state.toEmitted payload statusOk).up = statusOk := by
    cases statusOk <;> rfl
  rw [buildChangePayload_output] at produced
  obtain ⟨event, _, rfl⟩ := Option.map_eq_some_iff.mp produced
  rw [outPayload_reports_iff, up]

/-- The payload of an update reports a failed probe exactly when the server compares now but did not
when the snapshot was taken. -/
theorem updateState_reports_iff {snap : Snapshot} {result : PollResult} {ctx : UpdateContext}
    (produced : (updateState crates settings snap result ctx state).2 = some out) :
    ReportsFailedProbe out ↔
      result.statusOk = false ∧ state.compares = true ∧ snap.compares = false := by
  have kept := undisturbed_recordPoll crates settings snap result ctx state
  have mode : (recordPoll crates settings snap result ctx state).compares = state.compares := by
    rw [ServerState.compares, kept.pluginManaged, kept.pluginFallbackMode, ServerState.compares]
  have early : (snap.pluginManaged && !snap.pluginFallbackMode && !result.statusOk) =
      (snap.compares && !result.statusOk) := rfl
  unfold updateState at produced
  rw [early] at produced
  dsimp only at produced
  split at produced
  · cases produced
  · rename_i reported
    rw [buildChangePayload_reports_iff produced, mode]
    constructor
    · rintro ⟨failed, comparing⟩
      exact ⟨failed, comparing, by simpa [failed] using reported⟩
    · rintro ⟨failed, comparing, _⟩
      exact ⟨failed, comparing⟩

end Payload

section Runs
variable {crates : Crates} {settings : Settings} {c d : Collector} {a : Action}

theorem Collector.NoFailedProbe.setWorker (h : c.NoFailedProbe) {i : Nat} {w : Worker}
    (clean : ∀ key payload, w = .sending key payload → ¬ReportsFailedProbe payload) :
    (c.setWorker i w).NoFailedProbe := by
  refine ⟨?_, h.2⟩
  intro j key payload sending
  by_cases same : j = i
  · subst same
    rw [setWorker_self] at sending
    exact clean key payload sending
  · rw [setWorker_ne same] at sending
    exact h.1 j key payload sending

theorem step_noFailedProbe (h : c.NoFailedProbe) (hs : step crates settings c a = some d)
    (same : SameMode c a) : d.NoFailedProbe := by
  cases step_moved hs with
  | refresh | trigger | popNothing | popKnown | popUnknown | fetchedNothing | fetched | runTask | nextDue
  | accept | discard | send => exact h
  | receive => exact Collector.NoFailedProbe.setWorker h (by nofun)
  | internalGone | rescheduleInternal | pollGone | dropped => exact h.setWorker (by nofun)
  | @snapshot i key =>
      apply h.setWorker
      intro key' payload sending
      cases found : c.states.lookup key with
      | none => simp [found, afterSnapshot] at sending
      | some s =>
          simp only [found, afterSnapshot] at sending
          split at sending <;> cases sending
  | @finishPoll i key snap s result ctx polling found =>
      apply h.setWorker
      intro key' payload sending
      cases produced : (updateState crates settings snap result ctx s).2 with
      | none => simp [produced, afterUpdate] at sending
      | some out =>
          rw [produced] at sending
          cases sending
          rw [updateState_reports_iff produced]
          rintro ⟨failed, comparing, unmanaged⟩
          have poll : (c.workers i).poll? = some (key, snap) := by rw [polling]; rfl
          have began := same failed _ poll s found comparing
          rw [unmanaged] at began
          cases began
  | @trySent i key payload sending room =>
      refine ⟨(h.setWorker (by nofun)).1, ?_⟩
      intro p queued
      rcases List.mem_append.mp queued with old | new
      · exact h.2 p old
      · rw [List.mem_singleton.mp new]
        exact h.1 i key payload sending
  | @ingestReceive payload rest queued =>
      refine ⟨h.1, ?_⟩
      intro p later
      exact h.2 p (by rw [queued]; exact List.mem_cons_of_mem _ later)

/-- In every run in which a failed poll ends on a comparing server only if it was begun on one, no
failed comparison probe gets to the result queue. -/
theorem failed_probe_unreported {es : List Action}
    (run : Run (Only (ofFn (step crates settings)) SameMode) .start es c) : c.NoFailedProbe := by
  have start : Collector.start.NoFailedProbe := ⟨nofun, nofun⟩
  apply run.keeps (P := Collector.NoFailedProbe) _ start
  intro c a d h hs
  exact step_noFailedProbe h hs.1 hs.2

def modeField (crates : Crates) (settings : Settings) : CatalogField crates settings Bool where
  read := ServerState.compares
  ofEntry := fun entry => isPluginManaged entry.1 && !fallbackMode crates settings entry
  updated := by
    intro now entry s
    unfold updateExisting updateAddress
    split <;> rfl
  built := fun _ _ => rfl
  rescheduled := fun _ _ => rfl
  polled := by
    intro snap result ctx s
    obtain ⟨e, eq⟩ := updateState_frame crates settings snap result ctx s
    have kept := undisturbed_recordPoll crates settings snap result ctx s
    rw [eq, ServerState.compares, kept.pluginManaged, kept.pluginFallbackMode, ServerState.compares]

/-- No server that is being polled for itself is turned into one that is only compared. -/
def ModeStable (crates : Crates) (settings : Settings) (c : Collector) (a : Action) : Prop :=
  ∀ i < settings.collector.maxConcurrency, ∀ poll ∈ (c.workers i).poll?,
    ∀ mode ∈ (modeField crates settings).written c a poll.1, mode = true → poll.2.compares = true

/-- It is refreshes and forced fetches during a poll that bring the two modes apart. -/
theorem sameMode_of_modeStable {es : List Action}
    (run : Run (Only (ofFn (step crates settings)) (ModeStable crates settings)) .start es c) :
    Run (Only (ofFn (step crates settings)) SameMode) .start es c := by
  have start : Collector.start.Spawned settings ∧ (modeField crates settings).Agrees
      (fun snap mode => mode = true → snap.compares = true) .start :=
    ⟨fun _ _ => rfl, fun _ _ _ _ polling => by cases polling⟩
  refine run.only_weaken (P := fun c => c.Spawned settings ∧ (modeField crates settings).Agrees
    (fun snap mode => mode = true → snap.compares = true) c) ?_ ?_ start
  · rintro c a d ⟨spawned, agrees⟩ ⟨hs, stable⟩
    refine ⟨step_spawned spawned hs, ?_⟩
    exact (modeField crates settings).step_agrees (fun _ h => h) spawned agrees hs stable
  · rintro c a ⟨_, agrees⟩ _
    cases a with
    | finishPoll i result ctx =>
        rintro _ ⟨key, snap⟩ polling s found comparing
        exact agrees i key snap s polling found comparing
    | _ => trivial

end Runs

def probedItem (managed : Bool) : ServerCatalogItem :=
  { sampleItem "1" "mc.example.com" with
    isVerified := managed
    verificationSource := if managed then some "plugin" else none
    verifiedPluginLastSeenAt := if managed then some "2026-01-01T00:00:00Z" else none }

def datedCrates : Crates :=
  { plainCrates with
    parseFromRfc3339 := fun text =>
      if text = "2026-01-01T00:00:00Z" then some 1767225600000000000 else none }

def datedContext : ItemContext := { sampleContext with utcNow := 1767225660000000000 }

def probedPoll (before during : Bool) : List Action := [
  .refresh 0 [(catalogItemToValue (probedItem before), datedContext)],
  .runTask 0, .nextDue 0, .check, .send, .receive 0, .snapshot 0,
  .refresh 3 [(catalogItemToValue (probedItem during), datedContext)],
  .finishPoll 0 ⟨.object [], false, ""⟩ (quietContext 5), .trySend 0]

/-- A server whose plugin is first seen during a failing poll is reported as a failed probe. -/
theorem failed_probe_reported :
    ∃ c, (probedPoll false true).foldlM (step datedCrates (defaultSettings false)) .start = some c ∧
      ∃ payload ∈ c.results, ReportsFailedProbe payload := by
  have runs : ((probedPoll false true).foldlM (step datedCrates (defaultSettings false)) .start).any
      (fun c => decide (∃ payload ∈ c.results, ReportsFailedProbe payload)) = true := by decide +kernel
  obtain ⟨c, run, reported⟩ := (Option.any_eq_true _ _).mp runs
  exact ⟨c, run, of_decide_eq_true reported⟩

/-- When the plugin is seen before the poll as well, nothing is sent. -/
theorem failed_probe_unreported_managed :
    ∃ c, (probedPoll true true).dropLast.foldlM (step datedCrates (defaultSettings false)) .start = some c ∧
      c.NoFailedProbe := by
  have runs : ((probedPoll true true).dropLast.foldlM
      (restrict (step datedCrates (defaultSettings false)) SameMode) .start).isSome = true := by
    decide +kernel
  obtain ⟨c, run⟩ := Option.isSome_iff_exists.mp runs
  have only := run_restrict_iff.mpr run
  exact ⟨c, run_ofFn_iff.mp only.unrestricted, failed_probe_unreported only⟩

end ServerPoller
