import ServerPoller.Tracking

/-! A forced poll of a server that is not in the map. The new state gets a due time of its own, so
the entry that is scheduled for it fails the check unless the startup jitter happens to be zero. -/

namespace ServerPoller
open Json RustText Transition

/-- A spawned task or a heap entry has this due time. -/
def Collector.HasEntry (c : Collector) (k : String) (due : ℚ) : Prop :=
  (k, due) ∈ c.tasks ∨ c.scheduler.Holds k due

/-- Every state is under its own key and has an entry for its due time. -/
structure Collector.Scheduled (c : Collector) : Prop where
  keyed : Keyed c.states
  hasEntry : ∀ k s, c.states.lookup k = some s → c.HasEntry k s.nextDue

section Unknown
variable {crates : Crates} {settings : Settings} {c d e : Collector} {target : String} {now : ℚ}
  {getServer : Int64 → Option ServerCatalogItem} {ctx : ItemContext} {item : ServerCatalogItem}

theorem buildState_key {server : Value} :
    (buildState crates settings server now ctx).key = itemKey server := rfl

/-- The due time of a new state is that of the request exactly when the startup jitter is zero. -/
theorem buildState_nextDue_iff {server : Value} :
    (buildState crates settings server now ctx).nextDue = now ↔ ctx.spread.val = 0 := by
  have wide : max (settings.collector.startupSpreadSeconds : ℚ) 1 ≠ 0 := by positivity
  change now + ctx.spread.val * max (settings.collector.startupSpreadSeconds : ℚ) 1 = now ↔ _
  rw [add_eq_left, mul_eq_zero, or_iff_left wide]

/-- What the two steps of `redis_force_ping_loop` for a target that is not in the map leave behind. -/
theorem force_ping_unknown (nonempty : trim target ≠ "") (unknown : c.states.lookup (trim target) = none)
    (popped : step crates settings c (.popTarget target now) = some d)
    (answer : fetchServerById getServer (trim target) = some (catalogItemToValue item))
    (fetched : step crates settings d (.fetched getServer ctx) = some e) :
    ∃ s, e.states = c.states.insert (trim target) s ∧ e.tasks = c.tasks ++ [(s.key, now)] ∧
      e.scheduler = c.scheduler ∧ s.key = item.id ∧ (s.nextDue = now ↔ ctx.spread.val = 0) := by
  cases step_moved popped with
  | popNothing _ _ empty => exact absurd empty nonempty
  | popKnown _ _ _ found => cases unknown.symm.trans found
  | popUnknown =>
      cases step_moved fetched with
      | fetchedNothing fetching nothing =>
          cases fetching
          cases answer.symm.trans nothing
      | @fetched _ _ _ server _ fetching answer' =>
          cases fetching
          have same : catalogItemToValue item = server := Option.some.inj (answer.symm.trans answer')
          refine ⟨buildState crates settings server now ctx, rfl, rfl, rfl, ?_, buildState_nextDue_iff⟩
          rw [buildState_key, ← same, itemKey_catalogItemToValue]

/-- A forced poll of an unknown server leaves the map scheduled, with an entry for the new state that
passes the check, exactly when the item has the target for its id and the startup jitter is zero. -/
theorem force_ping_schedules_iff (scheduled : c.Scheduled) (nonempty : trim target ≠ "")
    (unknown : c.states.lookup (trim target) = none)
    (popped : step crates settings c (.popTarget target now) = some d)
    (answer : fetchServerById getServer (trim target) = some (catalogItemToValue item))
    (fetched : step crates settings d (.fetched getServer ctx) = some e) :
    (e.Scheduled ∧ ∃ key due, e.tasks = c.tasks ++ [(key, due)] ∧ matchesDue e.states key due = true) ↔
      item.id = trim target ∧ ctx.spread.val = 0 := by
  obtain ⟨s, states, tasks, heap, key, due⟩ := force_ping_unknown nonempty unknown popped answer fetched
  have stored : e.states.lookup (trim target) = some s := by
    rw [states]
    exact AList.lookup_insert _
  constructor
  · rintro ⟨after, key', due', added, passes⟩
    have same : item.id = trim target := key.symm.trans (after.keyed _ _ stored)
    refine ⟨same, due.mp ?_⟩
    rw [tasks, List.append_cancel_left_eq] at added
    cases added
    rw [key, same, matchesDue, stored, Option.any_some, decide_eq_true_iff] at passes
    exact passes
  · rintro ⟨same, zero⟩
    have own : s.key = trim target := key.trans same
    refine ⟨⟨?_, ?_⟩, s.key, now, tasks, ?_⟩
    · intro k t found
      rw [states] at found
      rcases AList.lookup_insert_eq_some.mp found with ⟨rfl, rfl⟩ | ⟨_, before⟩
      · exact own
      · exact scheduled.keyed k t before
    · intro k t found
      rw [states] at found
      rcases AList.lookup_insert_eq_some.mp found with ⟨rfl, rfl⟩ | ⟨_, before⟩
      · apply Or.inl
        rw [tasks, due.mpr zero, own]
        exact List.mem_append_right _ (List.mem_singleton.mpr rfl)
      · rcases scheduled.hasEntry k t before with task | held
        · exact .inl (tasks ▸ List.mem_append_left _ task)
        · exact .inr (heap ▸ held)
    · rw [own, matchesDue, stored, Option.any_some, decide_eq_true_iff]
      exact due.mpr zero

end Unknown

theorem start_scheduled : Collector.start.Scheduled := by
  constructor
  · intro k s found
    cases found
  · intro k s found
    cases found

def onlyServer (numericId : Int64) : Option ServerCatalogItem :=
  if numericId = 7 then some (sampleItem "7" "mc.example.com") else none

theorem fetch_onlyServer (target : String) (parsed : parseI64 (trim target) = some 7) :
    fetchServerById onlyServer target = some (catalogItemToValue (sampleItem "7" "mc.example.com")) := by
  have nonempty : trim target ≠ "" := by
    intro empty
    rw [empty] at parsed
    exact absurd parsed (by decide)
  simp [fetchServerById, parsed, nonempty, onlyServer]

/-- With a startup jitter of half the spread the only entry of the new server is discarded. -/
theorem force_ping_discarded :
    Collector.start.Scheduled ∧ ∃ d e,
      step plainCrates (defaultSettings true) .start (.popTarget "7" 100) = some d ∧
      step plainCrates (defaultSettings true) d
        (.fetched onlyServer { sampleContext with spread := ⟨1 / 2, by norm_num⟩ }) = some e ∧
      e.tasks = [("7", 100)] ∧ e.scheduler.heap = [] ∧ "7" ∈ e.states ∧
      matchesDue e.states "7" 100 = false := by
  have runs : ((step plainCrates (defaultSettings true) .start (.popTarget "7" 100)).any fun d =>
      (step plainCrates (defaultSettings true) d
        (.fetched onlyServer { sampleContext with spread := ⟨1 / 2, by norm_num⟩ })).any fun e =>
          decide (e.tasks = [("7", 100)] ∧ e.scheduler.heap = [] ∧ "7" ∈ e.states ∧
            matchesDue e.states "7" 100 = false)) = true := by decide +kernel
  obtain ⟨d, popped, inner⟩ := (Option.any_eq_true _ _).mp runs
  obtain ⟨e, fetched, discarded⟩ := (Option.any_eq_true _ _).mp inner
  exact ⟨start_scheduled, d, e, popped, fetched, of_decide_eq_true discarded⟩

/-- Without jitter the new server is polled. -/
theorem force_ping_schedules_iff_noJitter :
    ∃ d e, step plainCrates (defaultSettings true) .start (.popTarget "7" 100) = some d ∧
      step plainCrates (defaultSettings true) d (.fetched onlyServer sampleContext) = some e ∧
      e.Scheduled ∧ ∃ key due, e.tasks = [] ++ [(key, due)] ∧ matchesDue e.states key due = true := by
  have runs : ((step plainCrates (defaultSettings true) .start (.popTarget "7" 100)).any fun d =>
      (step plainCrates (defaultSettings true) d (.fetched onlyServer sampleContext)).isSome) = true := by
    decide +kernel
  obtain ⟨d, popped, inner⟩ := (Option.any_eq_true _ _).mp runs
  obtain ⟨e, fetched⟩ := Option.isSome_iff_exists.mp inner
  have answer := fetch_onlyServer (trim "7") (by decide)
  refine ⟨d, e, popped, fetched, ?_⟩
  exact (force_ping_schedules_iff start_scheduled (by decide) rfl popped answer fetched).mpr
    ⟨by decide, rfl⟩

end ServerPoller
