import ServerPoller.Tracking

/-! A forced poll sets the due time of a server and schedules it. The entry is lost when a poll that
was already in flight ends before the entry is checked, since both write the same due time. -/

namespace ServerPoller
open Json RustText Transition

section Requests
variable (crates : Crates) (settings : Settings)

/-- This item switches the state of the key into the fallback mode. -/
def switches (k : String) (acc : Rescheduled) (entry : Value × ItemContext) : Bool :=
  decide (itemKey entry.1 = k ∧ k ≠ "") && fallbackMode crates settings entry &&
    (acc.states.lookup k).any fun s => !s.pluginFallbackMode

def switched (now : ℚ) (k : String) (acc : Rescheduled) : List (Value × ItemContext) → Bool
  | [] => false
  | entry :: rest =>
      switches crates settings k acc entry || switched now k (refreshItem crates settings now acc entry) rest

/-- The due time that a trigger, a forced poll of a known key, or a switch into the fallback mode gives
to this key. -/
def forcedDue (c : Collector) (a : Action) (k : String) : Option ℚ :=
  match a with
  | .trigger targets now => if targets.all (fun ids => decide (k ∈ ids)) ∧ k ∈ c.states then some now else none
  | .popTarget target now => if trim target = k ∧ k ≠ "" ∧ k ∈ c.states then some now else none
  | .refresh now entries => if switched crates settings now k ⟨c.states, []⟩ entries then some now else none
  | _ => none

def takesSnapshot (c : Collector) (a : Action) (k : String) : Bool :=
  match a with
  | .snapshot i =>
      match c.workers i with
      | .received key => decide (key = k)
      | _ => false
  | _ => false

def removes (c : Collector) (a : Action) (k : String) : Bool :=
  (step crates settings c a).any fun d => decide (k ∉ d.states)

/-- After the step a forced poll of this key may be dropped: the key was polled, forced again, or
removed. -/
def Supersedes (k : String) (c : Collector) (a : Action) : Prop :=
  takesSnapshot c a k = true ∨ forcedDue crates settings c a k ≠ none ∨ removes crates settings c a k = true

instance (k : String) (c : Collector) (a : Action) : Decidable (Supersedes crates settings k c a) :=
  inferInstanceAs (Decidable (_ ∨ _ ∨ _))

/-- The step gives another due time to a key that is in the map: it ends a poll of this key that was in
flight at the request, or stores a state that was fetched while the key was unknown. -/
def overtakes (request : Collector) (k : String) (c : Collector) (a : Action) : Bool :=
  decide (k ∈ c.states) &&
    match a with
    | .rescheduleInternal i _ _ | .finishPoll i _ _ =>
        decide ((request.workers i).snapped? = some k ∧ (c.workers i).snapped? = some k)
    | .fetched getServer _ =>
        match c.forceLoop with
        | .fetching target _ => decide (target = k) && (fetchServerById getServer target).isSome
        | .waiting => false
    | _ => false

end Requests

section Due
variable {crates : Crates} {settings : Settings} {now : ℚ} {k : String}

theorem refreshItem_due (crates : Crates) (settings : Settings) (now : ℚ) {acc : Rescheduled}
    {s : ServerState} (entry : Value × ItemContext)
    (found : acc.states.lookup k = some s) :
    ∃ t, (refreshItem crates settings now acc entry).states.lookup k = some t ∧
      t.nextDue = if switches crates settings k acc entry then now else s.nextDue := by
  by_cases same : itemKey entry.1 = k
  · subst same
    by_cases empty : itemKey entry.1 = ""
    · refine ⟨s, ?_, by simp [switches, empty]⟩
      rwa [show refreshItem crates settings now acc entry = acc by simp [refreshItem, empty]]
    · refine ⟨_, lookup_refreshItem empty found, ?_⟩
      rw [updateExisting_nextDue]
      simp [switches, found, empty]
  · exact ⟨s, (lookup_refreshItem_ne same).trans found, by simp [switches, same]⟩

theorem foldl_refreshItem_due (crates : Crates) (settings : Settings) (now : ℚ)
    (entries : List (Value × ItemContext)) (acc : Rescheduled) {s : ServerState}
    (found : acc.states.lookup k = some s) :
    ∃ t, (entries.foldl (refreshItem crates settings now) acc).states.lookup k = some t ∧
      t.nextDue = if switched crates settings now k acc entries then now else s.nextDue := by
  induction entries generalizing acc s with
  | nil => exact ⟨s, found, rfl⟩
  | cons entry rest ih =>
      obtain ⟨t, there, due⟩ := refreshItem_due crates settings now entry found
      obtain ⟨u, after, due'⟩ := ih _ there
      refine ⟨u, after, due'.trans ?_⟩
      rw [due, switched]
      cases switches crates settings k acc entry <;>
        cases switched crates settings now k (refreshItem crates settings now acc entry) rest <;> rfl

/-- A switch leaves the state due now, also when the loop itself has added it. -/
theorem switched_due {entries : List (Value × ItemContext)} {acc : Rescheduled}
    (h : switched crates settings now k acc entries = true) :
    Listed k entries ∧
      ∃ t, (entries.foldl (refreshItem crates settings now) acc).states.lookup k = some t ∧ t.nextDue = now := by
  induction entries generalizing acc with
  | nil => cases h
  | cons entry rest ih =>
      rw [switched, Bool.or_eq_true] at h
      by_cases here : switches crates settings k acc entry = true
      · have parts := here
        simp only [switches, Bool.and_eq_true, decide_eq_true_eq, Option.any_eq_true] at parts
        obtain ⟨⟨⟨same, nonempty⟩, _⟩, s, found, _⟩ := parts
        refine ⟨⟨nonempty, entry, List.mem_cons_self, same⟩, ?_⟩
        obtain ⟨t, after, due⟩ := foldl_refreshItem_due crates settings now (entry :: rest) acc found
        refine ⟨t, after, due.trans ?_⟩
        rw [switched, here, Bool.true_or, if_pos rfl]
      · obtain ⟨⟨nonempty, item, listed, same⟩, after⟩ := ih (h.resolve_left here)
        exact ⟨⟨nonempty, item, List.mem_cons_of_mem _ listed, same⟩, after⟩

theorem refreshServersOnce_due (crates : Crates) (settings : Settings) (now : ℚ)
    (entries : List (Value × ItemContext)) {states : States} {s : ServerState}
    (found : states.lookup k = some s) :
    (refreshServersOnce crates settings now entries states).2.states.lookup k = none ∨
      ∃ t, (refreshServersOnce crates settings now entries states).2.states.lookup k = some t ∧
        t.nextDue = if switched crates settings now k ⟨states, []⟩ entries then now else s.nextDue := by
  by_cases empty : entries = []
  · subst empty
    exact .inr ⟨s, found, rfl⟩
  · by_cases listed : Listed k entries
    · obtain ⟨t, after, due⟩ := foldl_refreshItem_due crates settings now entries ⟨states, []⟩ found
      exact .inr ⟨t, ((lookup_refreshServersOnce empty).1 listed).trans after, due⟩
    · exact .inl ((lookup_refreshServersOnce empty).2 listed)

theorem triggerOne_due (now : ℚ) (id : String) {acc : Rescheduled} {s : ServerState}
    (found : acc.states.lookup k = some s) :
    ∃ t, (triggerOne now acc id).states.lookup k = some t ∧
      t.nextDue = if k = id then now else s.nextDue := by
  by_cases same : k = id
  · subst same
    simp only [triggerOne, found, if_true]
    exact ⟨_, AList.lookup_insert _, rfl⟩
  · rw [if_neg same]
    refine ⟨s, ?_, rfl⟩
    unfold triggerOne
    split
    · exact (AList.lookup_insert_ne same).trans found
    · exact found

theorem foldl_triggerOne_due (now : ℚ) (ids : List String) (acc : Rescheduled) {s : ServerState}
    (found : acc.states.lookup k = some s) :
    ∃ t, (ids.foldl (triggerOne now) acc).states.lookup k = some t ∧
      t.nextDue = if k ∈ ids then now else s.nextDue := by
  induction ids generalizing acc s with
  | nil => exact ⟨s, found, by simp⟩
  | cons id rest ih =>
      obtain ⟨t, there, due⟩ := triggerOne_due now id found
      obtain ⟨u, after, due'⟩ := ih _ there
      refine ⟨u, after, due'.trans ?_⟩
      rw [due]
      by_cases same : k = id <;> by_cases later : k ∈ rest <;> simp [same, later]

theorem trigger_due (targets : Option (List String)) (now : ℚ) {states : States} {s : ServerState}
    (found : states.lookup k = some s) :
    ∃ t, (trigger targets now states).states.lookup k = some t ∧
      t.nextDue = if targets.all (fun ids => decide (k ∈ ids)) then now else s.nextDue := by
  cases targets with
  | none => exact ⟨{ s with nextDue := now }, by simp [trigger, found], rfl⟩
  | some ids =>
      obtain ⟨t, after, due⟩ := foldl_triggerOne_due now ids ⟨states, []⟩ found
      exact ⟨t, after, by simpa using due⟩

end Due

/-- The request still stands: the server has its due time, and every worker past a snapshot of the
key was so when the request was made. -/
structure Standing (request : Collector) (k : String) (t : ℚ) (c : Collector) : Prop where
  due : ∃ s, c.states.lookup k = some s ∧ s.nextDue = t
  snapped : ∀ i, (c.workers i).snapped? = some k → (request.workers i).snapped? = some k

section Runs
variable {crates : Crates} {settings : Settings} {b c d : Collector} {a : Action} {k : String} {t : ℚ}

theorem forcedDue_cases (forced : forcedDue crates settings b a k = some t) :
    (∃ targets, a = .trigger targets t ∧ targets.all (fun ids => decide (k ∈ ids)) = true ∧ k ∈ b.states) ∨
      (∃ target, a = .popTarget target t ∧ trim target = k ∧ k ≠ "" ∧ k ∈ b.states) ∨
        ∃ entries, a = .refresh t entries ∧ switched crates settings t k ⟨b.states, []⟩ entries = true := by
  cases a with
  | trigger targets now =>
      simp only [forcedDue, Option.ite_none_right_eq_some, Option.some.injEq] at forced
      obtain ⟨⟨targeted, there⟩, rfl⟩ := forced
      exact .inl ⟨targets, rfl, targeted, there⟩
  | popTarget target now =>
      simp only [forcedDue, Option.ite_none_right_eq_some, Option.some.injEq] at forced
      obtain ⟨⟨same, nonempty, there⟩, rfl⟩ := forced
      exact .inr (.inl ⟨target, rfl, same, nonempty, there⟩)
  | refresh now entries =>
      simp only [forcedDue, Option.ite_none_right_eq_some, Option.some.injEq] at forced
      obtain ⟨switch, rfl⟩ := forced
      exact .inr (.inr ⟨entries, rfl, switch⟩)
  | _ => cases forced

theorem entries_ne_nil_of_switched {now : ℚ} {acc : Rescheduled} {entries : List (Value × ItemContext)}
    (switch : switched crates settings now k acc entries = true) : entries ≠ [] := by
  rintro rfl
  cases switch

theorem forcedDue_sets (forced : forcedDue crates settings b a k = some t)
    (request : step crates settings b a = some c) : ∃ s, c.states.lookup k = some s ∧ s.nextDue = t := by
  obtain ⟨targets, rfl, targeted, there⟩ | ⟨target, rfl, rfl, nonempty, there⟩ | ⟨entries, rfl, switch⟩ :=
    forcedDue_cases forced
  · obtain ⟨s, found⟩ := AList.exists_lookup_iff_mem.mpr there
    obtain ⟨s', after, due⟩ := trigger_due targets t found
    cases request
    exact ⟨s', after, by rw [due, if_pos targeted]⟩
  · obtain ⟨s, found⟩ := AList.exists_lookup_iff_mem.mpr there
    cases step_moved request with
    | popNothing _ _ empty => exact absurd empty nonempty
    | popKnown => exact ⟨_, AList.lookup_insert _, rfl⟩
    | popUnknown _ _ _ missing => cases found.symm.trans missing
  · obtain ⟨listed, s, after, due⟩ := switched_due switch
    cases request
    exact ⟨s, ((lookup_refreshServersOnce (entries_ne_nil_of_switched switch)).1 listed).trans after, due⟩

theorem snapped_afterSnapshot {key : String} {found : Option ServerState}
    (h : (afterSnapshot key found).snapped? = some k) : key = k := by
  cases found with
  | none => cases h
  | some s =>
      simp only [afterSnapshot] at h
      split at h
      · exact Option.some.inj h
      · exact Option.some.inj h

/-- A step keeps the due time of a key unless it removes the key, forces another poll of it, or
overtakes. -/
theorem step_due (standing : Standing b k t c) (hs : step crates settings c a = some d)
    (behind : overtakes b k c a = false) :
    (∃ s, d.states.lookup k = some s ∧ s.nextDue = t) ∨ Supersedes crates settings k c a := by
  obtain ⟨⟨s, found, due⟩, snapped⟩ := standing
  have there : k ∈ c.states := AList.exists_lookup_iff_mem.mp ⟨s, found⟩
  have insert_other : ∀ {key : String} {s' : ServerState}, k ≠ key →
      ∃ s, (c.states.insert key s').lookup k = some s ∧ s.nextDue = t :=
    fun other => ⟨s, (AList.lookup_insert_ne other).trans found, due⟩
  -- a worker that ends the poll of a key has been past its snapshot since the request
  have ends : ∀ {i : Nat} {key : String}, (c.workers i).snapped? = some key →
      (decide ((b.workers i).snapped? = some k ∧ (c.workers i).snapped? = some k)) = false → k ≠ key := by
    rintro i key held other rfl
    exact absurd ⟨snapped i held, held⟩ (of_decide_eq_false other)
  cases step_moved hs with
  | @refresh now entries =>
      rcases refreshServersOnce_due crates settings now entries found with gone | ⟨s', after, due'⟩
      · refine .inr (.inr (.inr ?_))
        rw [removes, hs, Option.any_some, decide_eq_true_iff]
        exact AList.lookup_eq_none.mp gone
      · cases switch : switched crates settings now k ⟨c.states, []⟩ entries with
        | true => exact .inr (.inr (.inl (by simp [forcedDue, switch])))
        | false =>
            rw [switch] at due'
            exact .inl ⟨s', after, due'.trans due⟩
  | @trigger targets now =>
      obtain ⟨s', after, due'⟩ := trigger_due targets now found
      cases targeted : targets.all (fun ids => decide (k ∈ ids)) with
      | true => exact .inr (.inr (.inl (by simp [forcedDue, targeted, there])))
      | false =>
          rw [targeted] at due'
          exact .inl ⟨s', after, due'.trans due⟩
  | @popKnown target now s' _ _ nonempty known =>
      by_cases same : k = trim target
      · exact .inr (.inr (.inl (by simp [forcedDue, ← same, there, same ▸ nonempty])))
      · exact .inl (insert_other same)
  | @fetched target now getServer server ctx fetching answer =>
      apply Or.inl
      apply insert_other
      rintro rfl
      simp [overtakes, there, fetching, answer] at behind
  | @rescheduleInternal i key s' now jitter internal known =>
      simp only [overtakes, there, decide_true, Bool.true_and] at behind
      exact .inl (insert_other (ends (by rw [internal]; rfl) behind))
  | @finishPoll i key snap s' result ctx polling known =>
      simp only [overtakes, there, decide_true, Bool.true_and] at behind
      exact .inl (insert_other (ends (by rw [polling]; rfl) behind))
  | popNothing | popUnknown | fetchedNothing | runTask | nextDue | accept | discard | send | receive
  | snapshot | internalGone | pollGone | trySent | dropped | ingestReceive => exact .inl ⟨s, found, due⟩

theorem step_standing (standing : Standing b k t c) (hs : step crates settings c a = some d)
    (behind : overtakes b k c a = false) : Standing b k t d ∨ Supersedes crates settings k c a := by
  by_cases taken : takesSnapshot c a k = true
  · exact .inr (.inl taken)
  · refine (step_due standing hs behind).imp_left (fun due => ⟨due, ?_⟩)
    intro i held
    rcases step_snapped hs i with same | left | ⟨key, rfl, received, snapped, _⟩
    · exact standing.snapped i (by rw [← same, held])
    · cases left.symm.trans held
    · rw [snapped] at held
      cases snapped_afterSnapshot held
      exact absurd (by simp [takesSnapshot, received]) taken

/-- Take any run from a forced poll in which no poll of the key that was in flight at the request is
completed, and no older fetch stored over the key. If the entry is discarded, then since the request
the key was polled, forced again, or removed. -/
theorem forced_poll_discarded (forced : forcedDue crates settings b a k = some t)
    (request : step crates settings b a = some c) {es : List Action}
    (run : Run (Only (ofFn (step crates settings)) (fun c' a' => overtakes c k c' a' = false)) c es d)
    (popped : d.loop = .popped k t) {e : Collector} (check : step crates settings d .check = some e)
    (discarded : e.loop = .waiting) :
    Passes (ofFn (step crates settings)) (Supersedes crates settings k) c es d := by
  have start : Standing c k t c := ⟨forcedDue_sets forced request, fun _ held => held⟩
  have keep : ∀ u a v, Standing c k t u →
      Only (ofFn (step crates settings)) (fun c' a' => overtakes c k c' a' = false) u a v →
        Standing c k t v ∨ Supersedes crates settings k u a :=
    fun _ _ _ standing hs => step_standing standing hs.1 hs.2
  rcases run.keeps_unless keep start with ⟨⟨s, found, due⟩, _⟩ | superseded
  · cases step_moved check with
    | accept => cases discarded
    | discard popped' mismatched =>
        cases popped.symm.trans popped'
        simp [matchesDue, found, due] at mismatched
  · exact superseded.mono (fun _ _ _ hs => hs.1)

end Runs

def firstReceive : List Action := [
  .refresh 0 [(catalogItemToValue (sampleItem "1" "mc.example.com"), sampleContext)],
  .runTask 0, .nextDue 0, .check, .send, .receive 0]

def endPoll : List Action := [.finishPoll 0 upResult (quietContext 101), .runTask 0, .nextDue 102]

/-- Some steps, a trigger at 100 that makes the server "1" due, and steps that meet a condition until
the entry of the trigger is popped and discarded. -/
def triggerDiscarded (before after : List Action) (ok : Collector → Collector → Action → Prop)
    [∀ c c' a, Decidable (ok c c' a)] : Bool :=
  (before.foldlM (step plainCrates (defaultSettings false)) .start).any fun b =>
    decide (forcedDue plainCrates (defaultSettings false) b (.trigger none 100) "1" = some 100) &&
    (step plainCrates (defaultSettings false) b (.trigger none 100)).any fun c =>
      (after.foldlM (restrict (step plainCrates (defaultSettings false)) (ok c)) c).any fun d =>
        decide (d.loop = .popped "1" 100) &&
        (step plainCrates (defaultSettings false) d .check).any fun e => decide (e.loop = .waiting)

theorem triggerDiscarded_run {before after : List Action} {ok : Collector → Collector → Action → Prop}
    [∀ c c' a, Decidable (ok c c' a)] (h : triggerDiscarded before after ok = true) :
    ∃ b c d e, before.foldlM (step plainCrates (defaultSettings false)) .start = some b ∧
      forcedDue plainCrates (defaultSettings false) b (.trigger none 100) "1" = some 100 ∧
      step plainCrates (defaultSettings false) b (.trigger none 100) = some c ∧
      Run (Only (ofFn (step plainCrates (defaultSettings false))) (ok c)) c after d ∧
      d.loop = .popped "1" 100 ∧ step plainCrates (defaultSettings false) d .check = some e ∧
      e.loop = .waiting := by
  obtain ⟨b, reached, inner⟩ := (Option.any_eq_true _ _).mp h
  obtain ⟨forced, inner⟩ := Bool.and_eq_true_iff.mp inner
  obtain ⟨c, request, inner⟩ := (Option.any_eq_true _ _).mp inner
  obtain ⟨d, run, inner⟩ := (Option.any_eq_true _ _).mp inner
  obtain ⟨popped, inner⟩ := Bool.and_eq_true_iff.mp inner
  obtain ⟨e, check, waiting⟩ := (Option.any_eq_true _ _).mp inner
  exact ⟨b, c, d, e, reached, of_decide_eq_true forced, request, run_restrict_iff.mpr run,
    of_decide_eq_true popped, check, of_decide_eq_true waiting⟩

/-- A trigger during a poll has no effect: the poll ends, and the entry of the trigger is discarded
although the server was neither polled nor forced again nor removed. -/
theorem forced_poll_swallowed :
    ∃ b c d e, (firstReceive ++ [Action.snapshot 0]).foldlM (step plainCrates (defaultSettings false))
        .start = some b ∧
      forcedDue plainCrates (defaultSettings false) b (.trigger none 100) "1" = some 100 ∧
      step plainCrates (defaultSettings false) b (.trigger none 100) = some c ∧
      Run (Only (ofFn (step plainCrates (defaultSettings false)))
        (fun c' a => ¬Supersedes plainCrates (defaultSettings false) "1" c' a)) c endPoll d ∧
      d.loop = .popped "1" 100 ∧ step plainCrates (defaultSettings false) d .check = some e ∧
      e.loop = .waiting := by
  have scenario : triggerDiscarded (firstReceive ++ [Action.snapshot 0]) endPoll
      (fun _ c' a => ¬Supersedes plainCrates (defaultSettings false) "1" c' a) = true := by decide +kernel
  exact triggerDiscarded_run scenario

/-- A trigger just before the snapshot is answered by the poll itself. -/
theorem forced_poll_discarded_polled :
    ∃ b c d, firstReceive.foldlM (step plainCrates (defaultSettings false)) .start = some b ∧
      step plainCrates (defaultSettings false) b (.trigger none 100) = some c ∧
      Passes (ofFn (step plainCrates (defaultSettings false)))
        (Supersedes plainCrates (defaultSettings false) "1") c (Action.snapshot 0 :: endPoll) d := by
  have scenario : triggerDiscarded firstReceive (Action.snapshot 0 :: endPoll)
      (fun c c' a => overtakes c "1" c' a = false) = true := by decide +kernel
  obtain ⟨b, c, d, e, reached, forced, request, run, popped, check, waiting⟩ := triggerDiscarded_run scenario
  exact ⟨b, c, d, reached, request, forced_poll_discarded forced request run popped check waiting⟩

end ServerPoller
