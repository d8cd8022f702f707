import ServerPoller.Sync
import ServerPoller.PollWorker

/-! What a refresh of the catalog does to the state under one key. A listing that was cut short by
an error is treated like a complete one, so servers on the missing pages are removed. -/

namespace ServerPoller
open Json Transition

def lastEntry (k : String) (entries : List (Value × ItemContext)) : Option (Value × ItemContext) :=
  (entries.filter fun entry => itemKey entry.1 == k).getLast?

section Items
variable {crates : Crates} {settings : Settings} {now : ℚ} {acc : Rescheduled}
  {entry : Value × ItemContext} {k : String} {s : ServerState}

theorem lastEntry_append {past : List (Value × ItemContext)} :
    lastEntry k (past ++ [entry]) = if itemKey entry.1 = k then some entry else lastEntry k past := by
  by_cases same : itemKey entry.1 = k
  · simp [lastEntry, List.filter_append, same]
  · simp [lastEntry, List.filter_append, same]

theorem refreshItems_append (past : List (Value × ItemContext)) (entry : Value × ItemContext)
    {states : States} : refreshItems crates settings now (past ++ [entry]) states =
      refreshItem crates settings now (refreshItems crates settings now past states) entry := by
  simp only [refreshItems, List.foldl_append, List.foldl_cons, List.foldl_nil]

theorem refreshItems_run (crates : Crates) (settings : Settings) (now : ℚ) (states : States)
    (entries : List (Value × ItemContext)) : Run (ofTotal (refreshItem crates settings now)) ⟨states, []⟩ entries
      (refreshItems crates settings now entries states) := run_ofTotal_iff.mpr rfl

/-- What holds of a state that an object has just updated or built holds of what the last object with
this key leaves; without one the state is as it was. -/
theorem refreshItems_last {Q : Value × ItemContext → ServerState → Prop}
    (updated : ∀ entry s, Q entry (updateExisting crates settings now entry s))
    (built : ∀ entry, Q entry (buildState crates settings entry.1 now entry.2)) {states : States}
    {t : ServerState} (nonempty : k ≠ "") (entries : List (Value × ItemContext))
    (after : (refreshItems crates settings now entries states).states.lookup k = some t) :
    (∃ entry, lastEntry k entries = some entry ∧ Q entry t) ∨
      (lastEntry k entries = none ∧ states.lookup k = some t) := by
  induction entries using List.reverseRecOn generalizing t with
  | nil => exact .inr ⟨rfl, after⟩
  | append_singleton past entry ih =>
      rw [refreshItems_append] at after
      rw [lastEntry_append]
      by_cases same : itemKey entry.1 = k
      · rw [if_pos same]
        refine .inl ⟨entry, rfl, ?_⟩
        subst same
        rcases refreshItem_cases crates settings now (refreshItems crates settings now past states) entry with
          ⟨empty, _⟩ | ⟨s, _, _, eq⟩ | ⟨_, _, eq⟩
        · exact absurd empty nonempty
        · rw [eq, AList.lookup_insert] at after
          cases after
          exact updated entry s
        · rw [eq, AList.lookup_insert] at after
          cases after
          exact built entry
      · rw [if_neg same]
        rw [lookup_refreshItem_ne same] at after
        exact ih after

/-- What holds between a state and the one that was under its key, if one was, and is not broken by the update of an
existing state, holds after a refresh. -/
theorem refreshServersOnce_relates {R : String → Option ServerState → ServerState → Prop} {before : States}
    (same : ∀ k s, before.lookup k = some s → R k (some s) s)
    (updated : ∀ k o entry s, R k o s → R k o (updateExisting crates settings now entry s))
    (built : ∀ entry : Value × ItemContext, R (itemKey entry.1) none (buildState crates settings entry.1 now entry.2))
    (entries : List (Value × ItemContext)) {t : ServerState}
    (after : (refreshServersOnce crates settings now entries before).2.states.lookup k = some t) :
    R k (before.lookup k) t := by
  have start : ∀ k s, before.lookup k = some s → R k (before.lookup k) s := by
    intro k s found
    rw [found]
    exact same k s found
  -- the loop removes nothing, so what is absent at its turn was absent before
  have items : ∀ k t, (refreshItems crates settings now entries before).states.lookup k = some t →
      R k (before.lookup k) t := by
    refine ((refreshItems_run crates settings now before entries).keeps
      (P := fun acc => before.keys ⊆ acc.states.keys ∧ ∀ k t, acc.states.lookup k = some t → R k (before.lookup k) t) ?_
      ⟨List.Subset.refl _, start⟩).2
    rintro acc entry _ ⟨subset, holds⟩ rfl
    have grown : ∀ t, before.keys ⊆ (acc.states.insert (itemKey entry.1) t).keys :=
      fun t k there => (AList.mem_insert _).mpr (.inr (subset there))
    rcases refreshItem_cases crates settings now acc entry with ⟨_, eq⟩ | ⟨s, _, found, eq⟩ | ⟨_, absent, eq⟩
    · rw [eq]
      exact ⟨subset, holds⟩
    · rw [eq]
      refine ⟨grown _, ?_⟩
      intro k t after
      rcases AList.lookup_insert_eq_some.mp after with ⟨rfl, rfl⟩ | ⟨_, there⟩
      · exact updated _ _ entry s (holds _ s found)
      · exact holds k t there
    · rw [eq]
      refine ⟨grown _, ?_⟩
      intro k t after
      rcases AList.lookup_insert_eq_some.mp after with ⟨rfl, rfl⟩ | ⟨_, there⟩
      · rw [AList.lookup_eq_none.mpr fun there => AList.lookup_eq_none.mp absent (subset there)]
        exact built entry
      · exact holds k t there
  unfold refreshServersOnce at after
  split at after
  · exact start k t after
  · rw [AList.lookup_filterKeys] at after
    split at after
    · exact items k t after
    · cases after

/-- The counters of a listed server stay, and so does its emitted history unless one of its items
names another address. -/
structure Intact (k : String) (entries : List (Value × ItemContext)) (s t : ServerState) : Prop where
  failures : t.toFailures = s.toFailures
  emitted : (t.toAddress = s.toAddress ∧ t.toEmitted = s.toEmitted) ∨
    ∃ entry ∈ entries, itemKey entry.1 = k ∧ itemAddress entry.1 ≠ s.toAddress

theorem Intact.update {t : ServerState} {past : List (Value × ItemContext)} (h : Intact k past s t)
    (same : itemKey entry.1 = k) :
    Intact k (past ++ [entry]) s (updateExisting crates settings now entry t) where
  failures := updateExisting_failures.trans h.failures
  emitted := by
    rcases h.emitted with ⟨address, emitted⟩ | ⟨other, listed, moved⟩
    · by_cases stays : itemAddress entry.1 = s.toAddress
      · refine .inl ⟨updateExisting_address.trans stays, ?_⟩
        exact (updateExisting_emitted (address.trans stays.symm)).trans emitted
      · exact .inr ⟨entry, by simp, same, stays⟩
    · exact .inr ⟨other, List.mem_append_left _ listed, moved⟩

theorem refreshItems_intact (crates : Crates) (settings : Settings) (now : ℚ) {states : States}
    (nonempty : k ≠ "") (found : states.lookup k = some s) (entries : List (Value × ItemContext)) :
    ∃ t, (refreshItems crates settings now entries states).states.lookup k = some t ∧
      Intact k entries s t := by
  have run := refreshItems_run crates settings now states entries
  refine run.keeps_history (P := fun past acc => ∃ t, acc.states.lookup k = some t ∧ Intact k past s t) ?_
    ⟨s, found, rfl, .inl ⟨rfl, rfl⟩⟩
  rintro past acc entry _ ⟨t, there, intact⟩ rfl
  by_cases same : itemKey entry.1 = k
  · refine ⟨updateExisting crates settings now entry t, ?_, intact.update same⟩
    subst same
    exact lookup_refreshItem nonempty there
  · refine ⟨t, (lookup_refreshItem_ne same).trans there, intact.failures, ?_⟩
    rcases intact.emitted with kept | ⟨other, listed, moved⟩
    · exact .inl kept
    · exact .inr ⟨other, List.mem_append_left _ listed, moved⟩

end Items

section Refresh
variable {crates : Crates} {settings : Settings} {now : ℚ} {entries : List (Value × ItemContext)}
  {states : States} {k : String}

def Listed (k : String) (entries : List (Value × ItemContext)) : Prop :=
  k ≠ "" ∧ ∃ entry ∈ entries, itemKey entry.1 = k

theorem lookup_refreshServersOnce (fetched : entries ≠ []) :
    (Listed k entries → (refreshServersOnce crates settings now entries states).2.states.lookup k =
        (refreshItems crates settings now entries states).states.lookup k) ∧
      (¬Listed k entries →
        (refreshServersOnce crates settings now entries states).2.states.lookup k = none) := by
  have incoming : (k ≠ "" && entries.any fun entry => itemKey entry.1 == k) = true ↔ Listed k entries := by
    simp [Listed]
  have some_ : entries.isEmpty = false := by simpa using fetched
  simp only [refreshServersOnce, some_, Bool.false_eq_true, if_false, AList.lookup_filterKeys]
  constructor
  · intro h
    rw [if_pos (incoming.mpr h)]
  · intro h
    rw [if_neg (fun yes => h (incoming.mp yes))]

/-- A refresh keeps every server, with its counters and, at the same address, its emitted history,
exactly when nothing was listed at all or every server was listed before the listings ended. -/
theorem refresh_keeps_servers_iff {outcomes : List ListOutcome} {fetched : List Value}
    (fetch : fetchServers outcomes = some (fetched, [])) (drawn : entries.map Prod.fst = fetched) :
    (∀ k s, states.lookup k = some s → ∃ t,
        (refreshServersOnce crates settings now entries states).2.states.lookup k = some t ∧
          t.toFailures = s.toFailures ∧
          (t.toEmitted = s.toEmitted ∨ ∃ server ∈ fetched, itemKey server = k ∧ itemAddress server ≠ s.toAddress)) ↔
      listed outcomes = [] ∨ ∀ k ∈ states, k ≠ "" ∧ ∃ server ∈ listed outcomes, itemKey server = k := by
  have all := fetchServers_listed fetch
  subst drawn
  rw [← all]
  have member : ∀ k, Listed k entries ↔ k ≠ "" ∧ ∃ server ∈ entries.map Prod.fst, itemKey server = k := by
    intro k
    simp [Listed]
  by_cases none : entries = []
  · subst none
    simp only [List.map_nil, true_or, iff_true]
    intro k s found
    exact ⟨s, found, rfl, .inl rfl⟩
  · have mapped : entries.map Prod.fst ≠ [] := by simpa using none
    constructor
    · intro keeps
      apply Or.inr
      intro k there
      apply (member k).mp
      by_contra missing
      obtain ⟨s, found⟩ := AList.exists_lookup_iff_mem.mpr there
      obtain ⟨t, still, _⟩ := keeps k s found
      rw [(lookup_refreshServersOnce none).2 missing] at still
      cases still
    · rintro (empty | complete)
      · exact absurd empty mapped
      · intro k s found
        have there := complete k (AList.exists_lookup_iff_mem.mp ⟨s, found⟩)
        obtain ⟨t, after, intact⟩ := refreshItems_intact crates settings now there.1 found entries
        refine ⟨t, ((lookup_refreshServersOnce none).1 ((member k).mpr there)).trans after,
          intact.failures, ?_⟩
        rcases intact.emitted with ⟨_, emitted⟩ | ⟨entry, listed_, same, moved⟩
        · exact .inl emitted
        · exact .inr ⟨entry.1, List.mem_map_of_mem listed_, same, moved⟩

end Refresh

def sampleItem (id host : String) : ServerCatalogItem :=
  ⟨id, none, none, host, "root", none, none, none, none, none, some "java", false, none, none⟩

def sampleContext : ItemContext := ⟨⟨0, by norm_num⟩, ⟨0, by norm_num⟩, 0⟩

/-- Of two servers only the first is listed before the second page of the listing fails. -/
theorem refresh_drops_unlisted_server :
    let outcomes : List ListOutcome := [some ⟨[sampleItem "1" "mc.example.com"], 2⟩, none, none]
    let fetched := [catalogItemToValue (sampleItem "1" "mc.example.com")]
    let states : States := (AList.singleton "1" sampleState).insert "2" { sampleState with key := "2" }
    let after := refreshServersOnce plainCrates (defaultSettings false) 500
      (fetched.map fun server => (server, sampleContext)) states
    fetchServers outcomes = some (fetched, []) ∧ none ∈ outcomes ∧ "2" ∈ states ∧
      "2" ∉ after.2.states :=
  ⟨rfl, by simp, by decide +kernel, by decide +kernel⟩

/-- The "subserver" listing fails, but the listing before it was complete. -/
theorem refresh_keeps_servers_iff_subserversFail :
    let server := catalogItemToValue (sampleItem "1" "mc.example.com")
    ∃ t, (refreshServersOnce plainCrates (defaultSettings false) 500 [(server, sampleContext)]
        (AList.singleton "1" sampleState)).2.states.lookup "1" = some t ∧
      t.toFailures = sampleState.toFailures ∧ (t.toEmitted = sampleState.toEmitted ∨
        ∃ item ∈ [server], itemKey item = "1" ∧ itemAddress item ≠ sampleState.toAddress) := by
  have fetch : fetchServers [some ⟨[sampleItem "1" "mc.example.com"], 1⟩, none] =
      some ([catalogItemToValue (sampleItem "1" "mc.example.com")], []) := rfl
  have drawn : [(catalogItemToValue (sampleItem "1" "mc.example.com"), sampleContext)].map Prod.fst =
      [catalogItemToValue (sampleItem "1" "mc.example.com")] := rfl
  refine (refresh_keeps_servers_iff fetch drawn).mpr (.inr ?_) "1" sampleState rfl
  intro k there
  have key : k = "1" := by simpa [AList.mem_keys] using there
  subst key
  exact ⟨by decide, _, List.mem_cons_self, itemKey_catalogItemToValue _⟩

end ServerPoller
