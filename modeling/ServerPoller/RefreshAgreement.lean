import ServerPoller.Tracking
import Mathlib.Data.List.Chain

/-! The update of a known server and the state built for a new one agree: after a refresh every state
is the one that its last listed object calls for, whatever was there before. -/

namespace ServerPoller
open Json RustText Transition

section Agreement
variable (crates : Crates) (settings : Settings)

def occurrences (k : String) (entries : List (Value × ItemContext)) : List Value :=
  (entries.filter fun entry => itemKey entry.1 == k).map Prod.fst

/-- What the object says about its server is what `build_state` makes of it. -/
structure Mirrors (server : Value) (utcNow : Int) (t : ServerState) : Prop where
  derived : ∀ now ctx, ctx.utcNow = utcNow →
    t.server = (buildState crates settings server now ctx).server ∧
      t.toAddress = (buildState crates settings server now ctx).toAddress ∧
      t.pluginManaged = (buildState crates settings server now ctx).pluginManaged ∧
      t.pluginFallbackMode = (buildState crates settings server now ctx).pluginFallbackMode
  probe : t.nextBedrockProbe.isSome = wantsBedrockProbe server settings.collector.bedrockProbeIntervalSeconds

/-- What a state keeps through objects with these addresses, one after the other. -/
structure KeptThrough (addresses : List Address) (s t : ServerState) : Prop where
  failures : t.toFailures = s.toFailures
  favicon : t.lastFaviconHash = s.lastFaviconHash
  unmoved : (s.toAddress :: addresses).IsChain (· = ·) → t.toEmitted = s.toEmitted
  moved : ¬(s.toAddress :: addresses).IsChain (· = ·) → t.toEmitted = nothingEmitted

end Agreement

section Items
variable {crates : Crates} {settings : Settings} {now : ℚ} {entry : Value × ItemContext} {k : String}
  {s t : ServerState}

theorem occurrences_append {past : List (Value × ItemContext)} : occurrences k (past ++ [entry]) =
    if itemKey entry.1 = k then occurrences k past ++ [entry.1] else occurrences k past := by
  by_cases same : itemKey entry.1 = k
  · simp [occurrences, List.filter_append, same]
  · simp [occurrences, List.filter_append, same]

theorem occurrences_ne_nil {entries : List (Value × ItemContext)} :
    occurrences k entries ≠ [] ↔ ∃ entry ∈ entries, itemKey entry.1 = k := by
  simp [occurrences]

theorem mirrors_updateExisting (crates : Crates) (settings : Settings) (now : ℚ) (entry : Value × ItemContext)
    (s : ServerState) : Mirrors crates settings entry.1 entry.2.utcNow
      (updateExisting crates settings now entry s) where
  derived := by
    intro now' ctx clock
    refine ⟨?_, updateExisting_address, ?_, ?_⟩
    · unfold updateExisting
      rfl
    · unfold updateExisting
      rfl
    · simp only [updateExisting, fallbackMode, buildState, clock]
  probe := by
    simp only [updateExisting, seedBedrockProbe]
    cases wantsBedrockProbe entry.1 settings.collector.bedrockProbeIntervalSeconds with
    | true => simp
    | false => rfl

theorem mirrors_buildState (crates : Crates) (settings : Settings) (now : ℚ) (entry : Value × ItemContext) :
    Mirrors crates settings entry.1 entry.2.utcNow (buildState crates settings entry.1 now entry.2) where
  derived := by
    intro now' ctx clock
    refine ⟨rfl, rfl, rfl, ?_⟩
    simp only [buildState, clock]
  probe := by
    simp only [buildState, seedBedrockProbe]
    cases wantsBedrockProbe entry.1 settings.collector.bedrockProbeIntervalSeconds <;> rfl

theorem KeptThrough.refl (s : ServerState) : KeptThrough [] s s :=
  ⟨rfl, rfl, fun _ => rfl, fun moved => absurd (.singleton _) moved⟩

theorem updateExisting_favicon :
    (updateExisting crates settings now entry s).lastFaviconHash = s.lastFaviconHash := by
  unfold updateExisting updateAddress
  split <;> rfl

theorem updateExisting_reset (moved : s.toAddress ≠ itemAddress entry.1) :
    (updateExisting crates settings now entry s).toEmitted = nothingEmitted := by
  simp only [updateExisting, updateAddress, moved, if_false]
  rfl

theorem KeptThrough.update {addresses : List Address} (h : KeptThrough addresses s t)
    (last : (s.toAddress :: addresses).getLast (List.cons_ne_nil _ _) = t.toAddress) :
    KeptThrough (addresses ++ [itemAddress entry.1]) s (updateExisting crates settings now entry t) := by
  have chain : (s.toAddress :: (addresses ++ [itemAddress entry.1])).IsChain (· = ·) ↔
      (s.toAddress :: addresses).IsChain (· = ·) ∧ t.toAddress = itemAddress entry.1 := by
    rw [← List.cons_append, List.isChain_append]
    simp [List.getLast?_eq_some_getLast, last]
  refine ⟨updateExisting_failures.trans h.failures, updateExisting_favicon.trans h.favicon, ?_, ?_⟩
  · intro all
    obtain ⟨before, same⟩ := chain.mp all
    exact (updateExisting_emitted same).trans (h.unmoved before)
  · intro broken
    by_cases same : t.toAddress = itemAddress entry.1
    · have before : ¬(s.toAddress :: addresses).IsChain (· = ·) := fun all => broken (chain.mpr ⟨all, same⟩)
      exact (updateExisting_emitted same).trans (h.moved before)
    · exact updateExisting_reset same

theorem refreshItem_schedules (acc : Rescheduled)
    (after : (refreshItem crates settings now acc entry).states.lookup k = some t) :
    (∃ s, acc.states.lookup k = some s ∧ s.nextDue = t.nextDue) ∨
      (refreshItem crates settings now acc entry).scheduled = acc.scheduled ++ [(k, t.nextDue)] := by
  by_cases same : itemKey entry.1 = k
  · subst same
    rcases refreshItem_cases crates settings now acc entry with ⟨_, eq⟩ | ⟨s, _, found, eq⟩ | ⟨_, _, eq⟩
    · rw [eq] at after
      exact .inl ⟨t, after, rfl⟩
    · rw [eq, AList.lookup_insert] at after
      cases after
      rw [eq, updateExisting_nextDue]
      cases fallbackMode crates settings entry && !s.pluginFallbackMode with
      | true => exact .inr rfl
      | false => exact .inl ⟨s, found, rfl⟩
    · rw [eq, AList.lookup_insert] at after
      cases after
      rw [eq]
      exact .inr rfl
  · rw [lookup_refreshItem_ne same] at after
    exact .inl ⟨t, after, rfl⟩

end Items

section Lists
variable {crates : Crates} {settings : Settings} {now : ℚ} {states : States} {k : String} {s t : ServerState}

/-- A state mirrors the last object with its key, or nothing has touched it. -/
theorem refreshItems_mirrors (nonempty : k ≠ "") {utcNow : Int} (entries : List (Value × ItemContext))
    (clock : ∀ entry ∈ entries, entry.2.utcNow = utcNow)
    (after : (refreshItems crates settings now entries states).states.lookup k = some t) :
    (∃ server, (occurrences k entries).getLast? = some server ∧ Mirrors crates settings server utcNow t) ∨
      (occurrences k entries = [] ∧ states.lookup k = some t) := by
  have last := refreshItems_last (Q := fun entry t => Mirrors crates settings entry.1 entry.2.utcNow t)
    (mirrors_updateExisting crates settings now) (mirrors_buildState crates settings now) nonempty entries after
  have found : (occurrences k entries).getLast? = (lastEntry k entries).map Prod.fst := List.getLast?_map
  rcases last with ⟨entry, last, mirrors⟩ | ⟨none, before⟩
  · have listed : entry ∈ entries := (List.mem_filter.mp (List.mem_of_getLast? last)).1
    rw [clock entry listed] at mirrors
    exact .inl ⟨entry.1, by rw [found, last, Option.map_some], mirrors⟩
  · rw [none, Option.map_none, List.getLast?_eq_none_iff] at found
    exact .inr ⟨found, before⟩

/-- A state that was there keeps its counters through all objects, and its emitted history unless one
has another address than the state at that time. -/
theorem refreshItems_keeps (nonempty : k ≠ "") (found : states.lookup k = some s)
    (entries : List (Value × ItemContext)) :
    ∃ t, (refreshItems crates settings now entries states).states.lookup k = some t ∧
      KeptThrough ((occurrences k entries).map itemAddress) s t ∧
      (s.toAddress :: (occurrences k entries).map itemAddress).getLast (List.cons_ne_nil _ _) = t.toAddress := by
  induction entries using List.reverseRecOn with
  | nil => exact ⟨s, found, KeptThrough.refl s, rfl⟩
  | append_singleton past entry ih =>
      obtain ⟨t, there, kept, last⟩ := ih
      rw [refreshItems_append]
      simp only [occurrences_append]
      by_cases same : itemKey entry.1 = k
      · subst same
        refine ⟨updateExisting crates settings now entry t, lookup_refreshItem nonempty there, ?_, ?_⟩
        · rw [if_pos rfl, List.map_append]
          exact kept.update last
        · simp only [if_true, List.map_append, List.map_cons, List.map_nil]
          rw [List.getLast_cons (by simp), List.getLast_append_singleton]
          exact updateExisting_address.symm
      · simp only [if_neg same]
        exact ⟨t, (lookup_refreshItem_ne same).trans there, kept, last⟩

theorem refreshItems_listed (crates : Crates) (settings : Settings) (now : ℚ) (states : States)
    (entries : List (Value × ItemContext)) (listed : Listed k entries) :
    k ∈ (refreshItems crates settings now entries states).states := by
  obtain ⟨nonempty, some_⟩ := listed
  rw [← occurrences_ne_nil] at some_
  induction entries using List.reverseRecOn with
  | nil => exact absurd rfl some_
  | append_singleton past entry ih =>
      rw [refreshItems_append]
      by_cases same : itemKey entry.1 = k
      · subst same
        rcases refreshItem_cases crates settings now (refreshItems crates settings now past states) entry with
          ⟨empty, _⟩ | ⟨s, _, _, eq⟩ | ⟨_, _, eq⟩
        · exact absurd empty nonempty
        · rw [eq]
          exact (AList.mem_insert _).mpr (.inl rfl)
        · rw [eq]
          exact (AList.mem_insert _).mpr (.inl rfl)
      · rw [occurrences_append, if_neg same] at some_
        obtain ⟨t, found⟩ := AList.exists_lookup_iff_mem.mpr (ih some_)
        exact AList.exists_lookup_iff_mem.mp ⟨t, (lookup_refreshItem_ne same).trans found⟩

/-- After a refresh at one reading of the wall clock the map holds exactly the listed servers, each as
`build_state` makes it from the last object with its id; servers that were there keep their counters,
and their emitted history unless they moved; and every new due time is scheduled. -/
theorem refresh_agrees_with_build (crates : Crates) (settings : Settings) (now : ℚ) (keyed : Keyed states)
    {entries : List (Value × ItemContext)} (fetched : entries ≠ []) {utcNow : Int}
    (clock : ∀ entry ∈ entries, entry.2.utcNow = utcNow) :
    let after := (refreshServersOnce crates settings now entries states).2
    (∀ k, k ∈ after.states ↔ k ≠ "" ∧ ∃ entry ∈ entries, itemKey entry.1 = k) ∧
    (∀ k t, after.states.lookup k = some t → ∃ server, (occurrences k entries).getLast? = some server ∧
      Mirrors crates settings server utcNow t) ∧
    (∀ k s t, states.lookup k = some s → after.states.lookup k = some t →
      KeptThrough ((occurrences k entries).map itemAddress) s t) ∧
    (∀ k t, after.states.lookup k = some t →
      (k, t.nextDue) ∈ after.scheduled ∨ ∃ s, states.lookup k = some s ∧ s.nextDue = t.nextDue) ∧
    ∀ past entry rest, entries = past ++ entry :: rest →
      let before := refreshItems crates settings now past states
      let turned := refreshItems crates settings now (past ++ [entry]) states
      ∀ k t, turned.states.lookup k = some t →
        (∃ s, before.states.lookup k = some s ∧ s.nextDue = t.nextDue) ∨
          turned.scheduled = before.scheduled ++ [(k, t.nextDue)] := by
  intro after
  have listed : ∀ {k t}, after.states.lookup k = some t → Listed k entries ∧
      (refreshItems crates settings now entries states).states.lookup k = some t := by
    intro k t found
    by_cases there : Listed k entries
    · rw [(lookup_refreshServersOnce fetched).1 there] at found
      exact ⟨there, found⟩
    · rw [(lookup_refreshServersOnce fetched).2 there] at found
      cases found
  refine ⟨?_, ?_, ?_, ?_, ?_⟩
  · intro k
    constructor
    · intro there
      obtain ⟨t, found⟩ := AList.exists_lookup_iff_mem.mpr there
      exact (listed found).1
    · intro there
      obtain ⟨t, found⟩ := AList.exists_lookup_iff_mem.mpr
        (refreshItems_listed crates settings now states entries there)
      exact AList.exists_lookup_iff_mem.mp ⟨t, ((lookup_refreshServersOnce fetched).1 there).trans found⟩
  · intro k t found
    obtain ⟨⟨nonempty, some_⟩, loop⟩ := listed found
    rcases refreshItems_mirrors nonempty entries clock loop with last | ⟨nothing, _⟩
    · exact last
    · exact absurd nothing (occurrences_ne_nil.mpr some_)
  · intro k s t before found
    obtain ⟨⟨nonempty, _⟩, loop⟩ := listed found
    obtain ⟨t', loop', kept, _⟩ := refreshItems_keeps nonempty before entries
    cases loop.symm.trans loop'
    exact kept
  · intro k t found
    exact (refreshServersOnce_honours crates settings now entries keyed k t found).2
  · intro past entry rest _ before turned k t found
    simp only [turned, refreshItems_append] at found ⊢
    exact refreshItem_schedules before found

end Lists

/-- The catalog lists a server twice, first at another host; its emitted history is cleared. -/
theorem refresh_agrees_with_build_listedTwice :
    let states : States := (∅ : States).insert "1" sampleState
    let entries := ["new.example.com", "mc.example.com"].map fun host =>
      (catalogItemToValue (sampleItem "1" host), sampleContext)
    let after := (refreshServersOnce plainCrates (defaultSettings false) 5 entries states).2
    "1" ∈ after.states ∧ ∀ t, after.states.lookup "1" = some t →
      t.toFailures = sampleState.toFailures ∧ t.toEmitted = nothingEmitted := by
  intro states entries after
  have keyed : Keyed states := by
    intro k s found
    rcases AList.lookup_insert_eq_some.mp found with ⟨rfl, rfl⟩ | ⟨_, nothing⟩
    · rfl
    · cases nothing
  have fetched : entries ≠ [] := by decide
  have clock : ∀ entry ∈ entries, entry.2.utcNow = 0 := by decide
  obtain ⟨keys, _, kept, _⟩ := refresh_agrees_with_build plainCrates (defaultSettings false) 5 keyed
    fetched clock
  refine ⟨(keys "1").mpr (by decide +kernel), ?_⟩
  intro t found
  have through := kept "1" sampleState t (AList.lookup_insert _) found
  exact ⟨through.failures, through.moved (by decide +kernel)⟩

end ServerPoller
