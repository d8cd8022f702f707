import ServerPoller.CatalogRefresh
import ServerPoller.Collector

/-! What the catalog says about a server gets into its state in two ways only, by a refresh and by a
forced fetch. All other steps leave it as it is. -/

namespace ServerPoller
open Json RustText Transition

/-- Something to read off a state that depends on nothing but the catalog object it was last given. -/
structure CatalogField (crates : Crates) (settings : Settings) (α : Type) where
  read : ServerState → α
  ofEntry : Value × ItemContext → α
  updated : ∀ now entry s, read (updateExisting crates settings now entry s) = ofEntry entry
  built : ∀ now entry, read (buildState crates settings entry.1 now entry.2) = ofEntry entry
  rescheduled : ∀ s due, read { s with nextDue := due } = read s
  polled : ∀ snap result ctx s, read (updateState crates settings snap result ctx s).1 = read s

section Fields
variable {crates : Crates} {settings : Settings} {α : Type}

/-- What a step writes to the state of this key. -/
def CatalogField.written (f : CatalogField crates settings α) (c : Collector) (a : Action) (k : String) :
    Option α :=
  match a with
  | .refresh _ entries => (lastEntry k entries).map f.ofEntry
  | .fetched getServer ctx =>
      match c.forceLoop with
      | .fetching target _ =>
          if target = k then (fetchServerById getServer target).map fun server => f.ofEntry (server, ctx)
          else none
      | .waiting => none
  | _ => none

variable (f : CatalogField crates settings α) {now : ℚ} {c d : Collector} {a : Action} {k : String}
  {states : States} {t : ServerState}

theorem CatalogField.refreshServersOnce {entries : List (Value × ItemContext)}
    (after : (refreshServersOnce crates settings now entries states).2.states.lookup k = some t) :
    (∃ entry, lastEntry k entries = some entry ∧ f.read t = f.ofEntry entry) ∨
      ∃ s, states.lookup k = some s ∧ f.read t = f.read s := by
  by_cases none : entries = []
  · subst none
    exact .inr ⟨t, after, rfl⟩
  · by_cases listed : Listed k entries
    · rw [(lookup_refreshServersOnce none).1 listed] at after
      have last := refreshItems_last (Q := fun entry t => f.read t = f.ofEntry entry)
        (f.updated now) (f.built now) listed.1 entries after
      refine last.imp_right ?_
      rintro ⟨_, before⟩
      exact ⟨t, before, rfl⟩
    · rw [(lookup_refreshServersOnce none).2 listed] at after
      cases after

theorem CatalogField.insert {key : String} {s s' : ServerState} (found : states.lookup key = some s)
    (same : f.read s' = f.read s) (after : (states.insert key s').lookup k = some t) :
    ∃ s, states.lookup k = some s ∧ f.read t = f.read s := by
  rcases AList.lookup_insert_eq_some.mp after with ⟨rfl, rfl⟩ | ⟨_, before⟩
  · exact ⟨s, found, same⟩
  · exact ⟨t, before, rfl⟩

theorem lookup_trigger {targets : Option (List String)}
    (after : (trigger targets now states).states.lookup k = some t) :
    ∃ s, states.lookup k = some s ∧ (t = s ∨ t = { s with nextDue := now }) := by
  cases targets with
  | none =>
      simp only [trigger, AList.lookup_mapVals, Option.map_eq_some_iff] at after
      obtain ⟨s, found, rfl⟩ := after
      exact ⟨s, found, .inr rfl⟩
  | some ids =>
      have run := run_ofTotal_iff.mpr (Eq.refl (trigger (some ids) now states))
      refine run.keeps (P := fun r => ∀ t, r.states.lookup k = some t →
        ∃ s, states.lookup k = some s ∧ (t = s ∨ t = { s with nextDue := now })) ?_
        (fun t found => ⟨t, found, .inl rfl⟩) t after
      rintro r id _ h rfl t after
      unfold triggerOne at after
      split at after
      · rename_i s found
        rcases AList.lookup_insert_eq_some.mp after with ⟨rfl, rfl⟩ | ⟨_, before⟩
        · obtain ⟨u, there, rfl | rfl⟩ := h s found
          · exact ⟨s, there, .inr rfl⟩
          · exact ⟨u, there, .inr rfl⟩
        · exact h t before
      · exact h t after

theorem CatalogField.trigger {targets : Option (List String)}
    (after : (trigger targets now states).states.lookup k = some t) :
    ∃ s, states.lookup k = some s ∧ f.read t = f.read s := by
  obtain ⟨s, found, rfl | rfl⟩ := lookup_trigger after
  · exact ⟨t, found, rfl⟩
  · exact ⟨s, found, f.rescheduled s now⟩

theorem CatalogField.step (hs : step crates settings c a = some d) (after : d.states.lookup k = some t) :
    f.written c a k = some (f.read t) ∨ ∃ s, c.states.lookup k = some s ∧ f.read t = f.read s := by
  cases step_moved hs with
  | refresh =>
      apply (f.refreshServersOnce after).imp_left
      rintro ⟨entry, last, eq⟩
      rw [written, last, Option.map_some, eq]
  | trigger => exact .inr (f.trigger after)
  | popNothing | popUnknown | fetchedNothing | runTask | nextDue | accept | discard | send | receive
  | snapshot | internalGone | pollGone | trySent | dropped | ingestReceive => exact .inr ⟨t, after, rfl⟩
  | popKnown _ _ _ found => exact .inr (f.insert found (f.rescheduled _ _) after)
  | @fetched target at_ getServer server ctx fetching answer =>
      change (c.states.insert target _).lookup k = some t at after
      rcases AList.lookup_insert_eq_some.mp after with ⟨rfl, rfl⟩ | ⟨_, before⟩
      · refine .inl ?_
        simp only [written, fetching, answer, if_true, Option.map_some]
        rw [← f.built at_ (server, ctx)]
      · exact .inr ⟨t, before, rfl⟩
  | rescheduleInternal _ found => exact .inr (f.insert found (f.rescheduled _ _) after)
  | finishPoll _ found => exact .inr (f.insert found (f.polled _ _ _ _) after)

/-- Every poll in progress has a snapshot that fits what its server says now. -/
def CatalogField.Agrees (fits : Snapshot → α → Prop) (c : Collector) : Prop :=
  ∀ i k snap s, (c.workers i).poll? = some (k, snap) → c.states.lookup k = some s → fits snap (f.read s)

theorem poll_afterSnapshot {key : String} {found : Option ServerState} {snap : Snapshot}
    (h : (afterSnapshot key found).poll? = some (k, snap)) :
    key = k ∧ ∃ s, found = some s ∧ snap = s.snapshot := by
  cases found with
  | none => cases h
  | some s =>
      simp only [afterSnapshot] at h
      split at h
      · cases h
      · cases h
        exact ⟨rfl, s, rfl, rfl⟩

theorem CatalogField.step_agrees {fits : Snapshot → α → Prop} (own : ∀ s, fits s.snapshot (f.read s))
    (spawned : c.Spawned settings) (h : f.Agrees fits c) (hs : ServerPoller.step crates settings c a = some d)
    (stable : ∀ i < settings.collector.maxConcurrency, ∀ poll ∈ (c.workers i).poll?,
      ∀ value ∈ f.written c a poll.1, fits poll.2 value) : f.Agrees fits d := by
  intro i k snap t polling after
  rcases step_snapped hs i with same | left | ⟨key, _, _, taken, states⟩
  · rw [same] at polling
    have running : i < settings.collector.maxConcurrency := by
      by_contra beyond
      rw [spawned i (not_lt.mp beyond)] at polling
      cases polling
    rcases f.step hs after with written | ⟨s, before, eq⟩
    · exact stable i running _ polling _ written
    · rw [eq]
      exact h i k snap s polling before
  · rw [Worker.snapped_of_poll polling] at left
    cases left
  · rw [taken] at polling
    obtain ⟨rfl, s, found, rfl⟩ := poll_afterSnapshot polling
    rw [states, found] at after
    cases after
    exact own _

end Fields

end ServerPoller
