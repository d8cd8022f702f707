import ServerPoller.CatalogFields
import ServerPoller.ForcedPolls
import Mathlib.Logic.Relation

/-! The state of a tracked server is changed in place. Only a forced fetch, which checks for the key
before it fetches and does not look again, may put a new state over it. -/

namespace ServerPoller
open Json RustText Transition

section Records
variable (crates : Crates) (settings : Settings)

inductive Changed : ServerState → ServerState → Prop
  | due (s : ServerState) (due : ℚ) : Changed s { s with nextDue := due }
  | refreshed (s : ServerState) (now : ℚ) (entry : Value × ItemContext) :
      Changed s (updateExisting crates settings now entry s)
  | polled (s : ServerState) (snap : Snapshot) (result : PollResult) (ctx : UpdateContext) :
      Changed s (updateState crates settings snap result ctx s).1

/-- The second state is the first one after some such changes. -/
abbrev Continues : ServerState → ServerState → Prop := Relation.ReflTransGen (Changed crates settings)

/-- Every state continues the one that was under its key, or a new one for a key that was absent. -/
def RecordsKept (before after : States) : Prop :=
  ∀ k t, after.lookup k = some t →
    (∃ s, before.lookup k = some s ∧ Continues crates settings s t) ∨
      (k ∉ before ∧ ∃ (entry : Value × ItemContext) (now : ℚ),
        Continues crates settings (buildState crates settings entry.1 now entry.2) t)

end Records

/-- A fetched state is stored although its key is in the map by now. -/
def storesOver (c : Collector) (a : Action) : Bool :=
  match a with
  | .fetched getServer _ =>
      match c.forceLoop with
      | .fetching target _ => decide (target ∈ c.states) && (fetchServerById getServer target).isSome
      | .waiting => false
  | _ => false

section Changes
variable {crates : Crates} {settings : Settings} {snap : Snapshot} {result : PollResult} {ctx : UpdateContext}
  {s t : ServerState}

/-- What was learned about a server over time. -/
structure Remembers (s t : ServerState) : Prop where
  hasSucceeded : s.hasSucceeded = true → t.hasSucceeded = true
  initialFailures : s.initialFailures ≤ t.initialFailures
  lastFaviconHash : s.lastFaviconHash ≠ none → t.lastFaviconHash ≠ none

theorem Remembers.refl (s : ServerState) : Remembers s s := ⟨id, le_rfl, id⟩

theorem Remembers.trans {u : ServerState} (h : Remembers s t) (k : Remembers t u) : Remembers s u where
  hasSucceeded := k.hasSucceeded ∘ h.hasSucceeded
  initialFailures := h.initialFailures.trans k.initialFailures
  lastFaviconHash := k.lastFaviconHash ∘ h.lastFaviconHash

theorem recordStatus_remembers (statusOk : Bool) (s : ServerState) :
    Remembers s (recordStatus statusOk s) := by
  cases statusOk with
  | true => exact ⟨fun _ => rfl, le_rfl, id⟩
  | false =>
      refine ⟨id, ?_, id⟩
      simp only [recordStatus, Bool.false_eq_true, if_false]
      split
      · exact le_rfl
      · exact Nat.le_succ _

theorem maybeProbeBedrock_remembers (settings : Settings) (ctx : UpdateContext) (s : ServerState) :
    Remembers s (maybeProbeBedrock settings ctx s) := by
  unfold maybeProbeBedrock
  split
  · exact .refl s
  · exact ⟨id, le_rfl, id⟩

theorem maybeUpdateFavicon_remembers (crates : Crates) (ctx : UpdateContext) (favicon : String) :
    Remembers s (maybeUpdateFavicon crates ctx favicon s) := by
  unfold maybeUpdateFavicon
  split
  · exact .refl s
  · split
    · exact .refl s
    · exact ⟨id, le_rfl, fun _ => Option.some_ne_none _⟩

theorem updateState_remembers : Remembers s (updateState crates settings snap result ctx s).1 := by
  have probed := (recordStatus_remembers result.statusOk s).trans (maybeProbeBedrock_remembers settings ctx _)
  have recorded : Remembers s (recordPoll crates settings snap result ctx s) := by
    by_cases none : result.favicon = ""
    · simp only [recordPoll, none, if_true]
      exact ⟨probed.hasSucceeded, probed.initialFailures, probed.lastFaviconHash⟩
    · have favicon := probed.trans (maybeUpdateFavicon_remembers crates ctx result.favicon)
      simp only [recordPoll, none, if_false]
      exact ⟨favicon.hasSucceeded, favicon.initialFailures, favicon.lastFaviconHash⟩
  obtain ⟨e, eq⟩ := updateState_frame crates settings snap result ctx s
  rw [eq]
  exact ⟨recorded.hasSucceeded, recorded.initialFailures, recorded.lastFaviconHash⟩

theorem Continues.remembers (h : Continues crates settings s t) : Remembers s t := by
  induction h with
  | refl => exact .refl s
  | tail _ changed ih =>
      apply ih.trans
      cases changed with
      | due => exact ⟨id, le_rfl, id⟩
      | refreshed now entry =>
          unfold updateExisting updateAddress
          split
          · exact ⟨id, le_rfl, id⟩
          · exact ⟨id, le_rfl, id⟩
      | polled => exact updateState_remembers

end Changes

section Maps
variable {crates : Crates} {settings : Settings} {now : ℚ} {before mid : States} {k : String}
  {s s' : ServerState}

theorem RecordsKept.refl (crates : Crates) (settings : Settings) (before : States) :
    RecordsKept crates settings before before :=
  fun _ t found => .inl ⟨t, found, .refl⟩

theorem RecordsKept.change (h : RecordsKept crates settings before mid) (found : mid.lookup k = some s)
    (changed : Changed crates settings s s') : RecordsKept crates settings before (mid.insert k s') := by
  intro k' t after
  rcases AList.lookup_insert_eq_some.mp after with ⟨rfl, rfl⟩ | ⟨_, there⟩
  · rcases h _ s found with ⟨old, was, continued⟩ | ⟨absent, entry, at_, continued⟩
    · exact .inl ⟨old, was, continued.tail changed⟩
    · exact .inr ⟨absent, entry, at_, continued.tail changed⟩
  · exact h k' t there

theorem RecordsKept.add (h : RecordsKept crates settings before mid) (absent : k ∉ before)
    (entry : Value × ItemContext) :
    RecordsKept crates settings before (mid.insert k (buildState crates settings entry.1 now entry.2)) := by
  intro k' t after
  rcases AList.lookup_insert_eq_some.mp after with ⟨rfl, rfl⟩ | ⟨_, there⟩
  · exact .inr ⟨absent, entry, now, .refl⟩
  · exact h k' t there

theorem RecordsKept.filterKeys (h : RecordsKept crates settings before mid) (p : String → Bool) :
    RecordsKept crates settings before (mid.filterKeys p) := by
  intro k t found
  rw [AList.lookup_filterKeys] at found
  split at found
  · exact h k t found
  · cases found

/-- The loop removes nothing, so what is absent at its turn was absent from the start. -/
theorem refreshItems_recordsKept (entries : List (Value × ItemContext)) :
    RecordsKept crates settings before (refreshItems crates settings now entries before).states := by
  have run := refreshItems_run crates settings now before entries
  refine (run.keeps
    (P := fun acc => RecordsKept crates settings before acc.states ∧ before.keys ⊆ acc.states.keys) ?_
    ⟨.refl crates settings before, List.Subset.refl _⟩).1
  rintro acc entry _ ⟨kept, subset⟩ rfl
  have grown : ∀ t, before.keys ⊆ (acc.states.insert (itemKey entry.1) t).keys := by
    intro t k there
    exact (AList.mem_insert _).mpr (.inr (subset there))
  rcases refreshItem_cases crates settings now acc entry with ⟨_, eq⟩ | ⟨s, _, found, eq⟩ | ⟨_, absent, eq⟩
  · rw [eq]
    exact ⟨kept, subset⟩
  · rw [eq]
    exact ⟨kept.change found (.refreshed s now entry), grown _⟩
  · rw [eq]
    have new : itemKey entry.1 ∉ before := fun there => AList.lookup_eq_none.mp absent (subset there)
    exact ⟨kept.add new entry, grown _⟩

theorem refreshServersOnce_recordsKept (entries : List (Value × ItemContext)) :
    RecordsKept crates settings before (refreshServersOnce crates settings now entries before).2.states := by
  unfold refreshServersOnce
  split
  · exact .refl crates settings before
  · exact (refreshItems_recordsKept entries).filterKeys _

theorem trigger_recordsKept (targets : Option (List String)) :
    RecordsKept crates settings before (trigger targets now before).states := by
  intro k t found
  obtain ⟨s, there, rfl | rfl⟩ := lookup_trigger found
  · exact .inl ⟨t, there, .refl⟩
  · exact .inl ⟨s, there, .single (.due s now)⟩

end Maps

section Runs
variable {crates : Crates} {settings : Settings} {c d : Collector} {a : Action}

theorem step_recordsKept (hs : step crates settings c a = some d) (absent : storesOver c a = false) :
    RecordsKept crates settings c.states d.states := by
  have same := RecordsKept.refl crates settings c.states
  cases step_moved hs with
  | refresh => exact refreshServersOnce_recordsKept _
  | trigger => exact trigger_recordsKept _
  | popKnown _ _ _ found => exact same.change found (.due _ _)
  | @fetched target now getServer server ctx fetching answer =>
      have new : target ∉ c.states := by simpa [storesOver, fetching, answer] using absent
      exact same.add new (server, ctx)
  | rescheduleInternal _ found => exact same.change found (.due _ _)
  | finishPoll _ found => exact same.change found (.polled _ _ _ _)
  | popNothing | popUnknown | fetchedNothing | runTask | nextDue | accept | discard | send | receive
  | snapshot | internalGone | pollGone | trySent | dropped | ingestReceive => exact same

/-- In every run in which no forced fetch finds its target in the map when it stores, a new state is
only put under an absent key, and the state of a server is continued until the server is removed. -/
theorem records_never_replaced {es : List Action}
    (run : Run (Only (ofFn (step crates settings)) (fun c a => storesOver c a = false)) c es d) :
    Run (fun c a d => step crates settings c a = some d ∧ RecordsKept crates settings c.states d.states)
        c es d ∧
      ∀ k s, c.states.lookup k = some s →
        (∃ t, d.states.lookup k = some t ∧ Continues crates settings s t ∧ Remembers s t) ∨
          Passes (ofFn (step crates settings)) (fun c a => removes crates settings c a k = true) c es d := by
  have kept : Run (fun c a d => step crates settings c a = some d ∧
      RecordsKept crates settings c.states d.states) c es d :=
    run.mono (fun _ _ _ hs => ⟨hs.1, step_recordsKept hs.1 hs.2⟩)
  refine ⟨kept, ?_⟩
  intro k s found
  have tracked : (∃ t, d.states.lookup k = some t ∧ Continues crates settings s t) ∨
      Passes (fun c a d => step crates settings c a = some d ∧ RecordsKept crates settings c.states d.states)
        (fun c a => removes crates settings c a k = true) c es d := by
    refine kept.keeps_unless (P := fun c => ∃ t, c.states.lookup k = some t ∧ Continues crates settings s t)
      ?_ ⟨s, found, .refl⟩
    rintro c a d ⟨t, there, continued⟩ ⟨hs, records⟩
    cases after : d.states.lookup k with
    | none =>
        right
        rw [removes, hs, Option.any_some, decide_eq_true_iff]
        exact AList.lookup_eq_none.mp after
    | some u =>
        left
        rcases records k u after with ⟨old, was, more⟩ | ⟨absent, _⟩
        · cases there.symm.trans was
          exact ⟨u, rfl, continued.trans more⟩
        · exact absurd (AList.exists_lookup_iff_mem.mp ⟨t, there⟩) absent
  refine tracked.imp ?_ (Passes.mono (fun _ _ _ hs => hs.1))
  rintro ⟨t, there, continued⟩
  exact ⟨t, there, continued, continued.remembers⟩

def presence (crates : Crates) (settings : Settings) : CatalogField crates settings Unit where
  read := fun _ => ()
  ofEntry := fun _ => ()
  updated := fun _ _ _ => rfl
  built := fun _ _ => rfl
  rescheduled := fun _ _ => rfl
  polled := fun _ _ _ _ => rfl

def listsTarget (c : Collector) (a : Action) : Bool :=
  match a with
  | .refresh _ entries =>
      match c.forceLoop with
      | .fetching target _ => (lastEntry target entries).isSome
      | .waiting => false
  | _ => false

def Collector.TargetAbsent (c : Collector) : Prop :=
  ∀ target now, c.forceLoop = .fetching target now → target ∉ c.states

theorem step_targetAbsent (h : c.TargetAbsent) (hs : step crates settings c a = some d)
    (unlisted : listsTarget c a = false) : d.TargetAbsent := by
  intro target now fetching there
  obtain ⟨t, found⟩ := AList.exists_lookup_iff_mem.mpr there
  have was : ∀ s, c.states.lookup target = some s → c.forceLoop = .fetching target now → False :=
    fun s found same => h target now same (AList.exists_lookup_iff_mem.mp ⟨s, found⟩)
  cases step_moved hs with
  | fetched | fetchedNothing => cases fetching
  | popUnknown _ _ _ missing =>
      cases fetching
      exact AList.lookup_eq_none.mp missing there
  | refresh =>
      rcases (presence crates settings).step hs found with written | ⟨s, before, _⟩
      · replace fetching : c.forceLoop = .fetching target now := fetching
        simp only [listsTarget, fetching] at unlisted
        obtain ⟨_, listed, _⟩ := Option.map_eq_some_iff.mp written
        rw [listed] at unlisted
        cases unlisted
      · exact was s before fetching
  | trigger | popNothing | popKnown | runTask | nextDue | accept | discard | send | receive | snapshot
  | internalGone | rescheduleInternal | pollGone | finishPoll | trySent | dropped | ingestReceive =>
      rcases (presence crates settings).step hs found with written | ⟨s, before, _⟩
      · cases written
      · exact was s before fetching

/-- It is a refresh during the fetch that brings the key in. -/
theorem storesOver_of_listsTarget {es : List Action}
    (run : Run (Only (ofFn (step crates settings)) (fun c a => listsTarget c a = false)) .start es c) :
    Run (Only (ofFn (step crates settings)) (fun c a => storesOver c a = false)) .start es c := by
  refine run.only_weaken (P := Collector.TargetAbsent) ?_ ?_ (fun _ _ fetching => by cases fetching)
  · intro c a d absent hs
    exact step_targetAbsent absent hs.1 hs.2
  · intro c a absent _
    cases a with
    | fetched getServer ctx =>
        simp only [storesOver]
        split
        · rename_i target now fetching
          simp [absent target now fetching]
        · rfl
    | _ => rfl

end Runs

def sampleServer (_ : Int64) : Option ServerCatalogItem := some (sampleItem "1" "mc.example.com")

def addedPoll : List Action := [
  .refresh 1 [(catalogItemToValue (sampleItem "1" "mc.example.com"), sampleContext)],
  .runTask 0, .nextDue 1, .check, .send, .receive 0, .snapshot 0, .finishPoll 0 upResult (quietContext 5)]

/-- The answer to a forced poll of an unknown server comes after that server was added and polled. -/
theorem record_replaced :
    ∃ c d, (.popTarget "1" 0 :: addedPoll).foldlM (step plainCrates (defaultSettings true)) .start = some c ∧
      step plainCrates (defaultSettings true) c (.fetched sampleServer sampleContext) = some d ∧
      ∃ s t, c.states.lookup "1" = some s ∧ d.states.lookup "1" = some t ∧
        (s.hasSucceeded = true ∧ s.hasEmittedState = true) ∧
        (t.hasSucceeded = false ∧ t.hasEmittedState = false) ∧
        ¬Continues plainCrates (defaultSettings true) s t := by
  have runs : ((.popTarget "1" 0 :: addedPoll).foldlM (step plainCrates (defaultSettings true)) .start).any
      (fun c => (step plainCrates (defaultSettings true) c (.fetched sampleServer sampleContext)).any fun d =>
        (c.states.lookup "1").any fun s => (d.states.lookup "1").any fun t =>
          decide ((s.hasSucceeded = true ∧ s.hasEmittedState = true) ∧
            (t.hasSucceeded = false ∧ t.hasEmittedState = false))) = true := by decide +kernel
  obtain ⟨c, run, inner⟩ := (Option.any_eq_true _ _).mp runs
  obtain ⟨d, stored, inner⟩ := (Option.any_eq_true _ _).mp inner
  obtain ⟨s, before, inner⟩ := (Option.any_eq_true _ _).mp inner
  obtain ⟨t, after, inner⟩ := (Option.any_eq_true _ _).mp inner
  obtain ⟨learned, forgotten⟩ := of_decide_eq_true inner
  refine ⟨c, d, run, stored, s, t, before, after, learned, forgotten, ?_⟩
  intro continued
  have kept := continued.remembers.hasSucceeded learned.1
  rw [forgotten.1] at kept
  cases kept

/-- When the answer comes first, the refresh and the poll continue the fetched state. -/
theorem records_never_replaced_answeredFirst :
    ∃ c s d, [Action.popTarget "1" 0, .fetched sampleServer sampleContext].foldlM
        (step plainCrates (defaultSettings true)) .start = some c ∧ c.states.lookup "1" = some s ∧
      addedPoll.foldlM (step plainCrates (defaultSettings true)) c = some d ∧
      ((∃ t, d.states.lookup "1" = some t ∧ Continues plainCrates (defaultSettings true) s t ∧ Remembers s t) ∨
        Passes (ofFn (step plainCrates (defaultSettings true)))
          (fun c a => removes plainCrates (defaultSettings true) c a "1" = true) c addedPoll d) := by
  have runs : ([Action.popTarget "1" 0, .fetched sampleServer sampleContext].foldlM
      (step plainCrates (defaultSettings true)) .start).any (fun c => (c.states.lookup "1").any fun _ =>
        (addedPoll.foldlM (restrict (step plainCrates (defaultSettings true))
          (fun c a => storesOver c a = false)) c).isSome) = true := by decide +kernel
  obtain ⟨c, reached, inner⟩ := (Option.any_eq_true _ _).mp runs
  obtain ⟨s, found, inner⟩ := (Option.any_eq_true _ _).mp inner
  obtain ⟨d, run⟩ := Option.isSome_iff_exists.mp inner
  have only := run_restrict_iff.mpr run
  exact ⟨c, s, d, reached, found, run_ofFn_iff.mp only.unrestricted,
    (records_never_replaced only).2 "1" s found⟩

end ServerPoller
