import Mathlib.Data.List.AList

/-! Operations on finite keyed maps that `AList` does not offer: a pass over all values,
an update in place, passes that keep some of the entries, and the number of entries. -/

namespace AList
universe u v w
variable {α : Type u} {β : α → Type v} {γ : α → Type w}

/-- The same keys, in the same order, with every value mapped. -/
def mapVals (f : ∀ a, β a → γ a) (m : AList β) : AList γ where
  entries := m.entries.map (Sigma.map id f)
  nodupKeys := by
    have h : (m.entries.map (Sigma.map id f)).keys = m.entries.keys := by
      simp only [List.keys, List.map_map]
      rfl
    simpa only [List.NodupKeys, h] using m.nodupKeys

@[simp] theorem keys_mapVals (f : ∀ a, β a → γ a) (m : AList β) : (m.mapVals f).keys = m.keys := by
  simp only [mapVals, keys, List.keys, List.map_map]
  rfl

@[simp] theorem mem_mapVals {f : ∀ a, β a → γ a} {m : AList β} {a : α} : a ∈ m.mapVals f ↔ a ∈ m := by
  simp only [mem_keys, keys_mapVals]

def filterKeys (p : α → Bool) (m : AList β) : AList β where
  entries := m.entries.filter (fun e => p e.1)
  nodupKeys := m.nodupKeys.sublist List.filter_sublist

def retain (p : ∀ a, β a → Bool) (m : AList β) : AList β where
  entries := m.entries.filter (fun e => p e.1 e.2)
  nodupKeys := m.nodupKeys.sublist List.filter_sublist

def len (m : AList β) : Nat := m.entries.length

theorem len_retain_lt_iff {p : ∀ a, β a → Bool} {m : AList β} :
    (m.retain p).len < m.len ↔ ∃ e ∈ m.entries, p e.1 e.2 = false := by
  rw [len, len, retain, List.length_filter_lt_length_iff_exists]
  simp only [Bool.not_eq_true]

theorem retain_eq_self {p : ∀ a, β a → Bool} {m : AList β} (all : ∀ e ∈ m.entries, p e.1 e.2 = true) :
    m.retain p = m := AList.ext (List.filter_eq_self.mpr all)

theorem mem_iff_entries {m : AList β} {a : α} : a ∈ m ↔ ∃ e ∈ m.entries, e.1 = a := List.mem_map

variable [DecidableEq α]

theorem len_insert_of_notMem {m : AList β} {a : α} (fresh : a ∉ m) (b : β a) : (m.insert a b).len = m.len + 1 := by
  rw [len, entries_insert_of_notMem fresh, List.length_cons, len]

theorem len_insert_of_mem {m : AList β} {a : α} (there : a ∈ m) (b : β a) : (m.insert a b).len = m.len := by
  have positive : 0 < m.keys.length := List.length_pos_of_mem (mem_keys.mp there)
  have keys : ∀ n : AList β, n.len = n.keys.length := fun n => (List.length_map _).symm
  rw [keys, keys, keys_insert, List.length_cons, List.length_erase_of_mem (mem_keys.mp there)]
  omega

theorem len_insert_le (m : AList β) (a : α) (b : β a) : (m.insert a b).len ≤ m.len + 1 := by
  by_cases there : a ∈ m
  · rw [len_insert_of_mem there]
    exact Nat.le_succ _
  · rw [len_insert_of_notMem there]

@[simp] theorem lookup_mapVals (f : ∀ a, β a → γ a) (m : AList β) (a : α) :
    (m.mapVals f).lookup a = (m.lookup a).map (f a) := by
  rcases m with ⟨l, hl⟩
  exact List.dlookup_map₂ a

@[simp] theorem lookup_filterKeys (p : α → Bool) (m : AList β) (a : α) :
    (m.filterKeys p).lookup a = if p a then m.lookup a else none := by
  rcases m with ⟨l, hl⟩
  change List.dlookup a (l.filter fun e => p e.1) = if p a then List.dlookup a l else none
  clear hl
  induction l with
  | nil => simp
  | cons e l ih =>
      rcases e with ⟨b, x⟩
      by_cases hb : a = b
      · subst hb
        by_cases hp : p a = true
        · simp [hp]
        · simp only [List.filter_cons, hp, Bool.false_eq_true, if_false, ih]
      · by_cases hp : p b = true
        · simp only [List.filter_cons, hp, if_true]
          rw [List.dlookup_cons_ne _ ⟨b, x⟩ hb, List.dlookup_cons_ne _ ⟨b, x⟩ hb, ih]
        · simp only [List.filter_cons, hp, Bool.false_eq_true, if_false, ih]
          rw [List.dlookup_cons_ne _ ⟨b, x⟩ hb]

theorem lookup_retain_eq_some {p : ∀ a, β a → Bool} {m : AList β} {a : α} {b : β a} :
    (m.retain p).lookup a = some b ↔ m.lookup a = some b ∧ p a b = true := by
  have found := fun (n : AList β) => mem_lookup_iff (s := n) (a := a) (b := b)
  simp only [Option.mem_def] at found
  rw [found, found]
  exact List.mem_filter

theorem exists_lookup_iff_mem {m : AList β} {a : α} : (∃ b, m.lookup a = some b) ↔ a ∈ m := by
  rw [← lookup_isSome, Option.isSome_iff_exists]

theorem lookup_insert_eq_some {δ : Type v} {m : AList fun _ : α => δ} {a b : α} {x y : δ} :
    (m.insert a x).lookup b = some y ↔ (b = a ∧ x = y) ∨ (b ≠ a ∧ m.lookup b = some y) := by
  by_cases same : b = a
  · subst same
    rw [lookup_insert, Option.some.injEq]
    simp
  · rw [lookup_insert_ne same]
    simp [same]

private theorem kerase_map (f : ∀ a, β a → γ a) (a : α) (l : List (Sigma β)) :
    List.kerase a (l.map (Sigma.map id f)) = (List.kerase a l).map (Sigma.map id f) :=
  List.eraseP_map

theorem mapVals_erase (f : ∀ a, β a → γ a) (m : AList β) (a : α) :
    (m.erase a).mapVals f = (m.mapVals f).erase a :=
  AList.ext (kerase_map f a m.entries).symm

theorem mapVals_insert (f : ∀ a, β a → γ a) (m : AList β) (a : α) (b : β a) :
    (m.insert a b).mapVals f = (m.mapVals f).insert a (f a b) :=
  AList.ext (congrArg (List.cons _) (kerase_map f a m.entries).symm)

section InPlace
variable {δ : Type v} {ζ : Type w}

/-- Update the value under a key, if there is one, and leave every entry in its place. -/
def modify (a : α) (f : δ → δ) (m : AList fun _ : α => δ) : AList fun _ : α => δ :=
  m.mapVals fun b x => if b = a then f x else x

@[simp] theorem keys_modify (a : α) (f : δ → δ) (m : AList fun _ : α => δ) :
    (m.modify a f).keys = m.keys := keys_mapVals _ m

@[simp] theorem lookup_modify (m : AList fun _ : α => δ) (a : α) (f : δ → δ) :
    (m.modify a f).lookup a = (m.lookup a).map f := by
  simp only [modify, lookup_mapVals, if_true]

@[simp] theorem lookup_modify_ne {m : AList fun _ : α => δ} {a b : α} {f : δ → δ} (h : b ≠ a) :
    (m.modify a f).lookup b = m.lookup b := by
  simp only [modify, lookup_mapVals, if_neg h, Option.map_id']

theorem mapVals_modify {g : δ → ζ} {f : δ → δ} {f' : ζ → ζ} (h : ∀ x, g (f x) = f' (g x))
    (m : AList fun _ : α => δ) (a : α) :
    (m.modify a f).mapVals (fun _ => g) = (m.mapVals fun _ => g).modify a f' := by
  apply AList.ext
  simp only [modify, mapVals, List.map_map]
  apply List.map_congr_left
  intro e _
  by_cases he : e.1 = a <;> simp [Sigma.map, he, h]

theorem modify_modify (m : AList fun _ : α => δ) (a : α) (f g : δ → δ) :
    (m.modify a f).modify a g = m.modify a (g ∘ f) := by
  apply AList.ext
  simp only [modify, mapVals, List.map_map]
  apply List.map_congr_left
  intro e _
  by_cases he : e.1 = a <;> simp [Sigma.map, he]

theorem modify_id {m : AList fun _ : α => δ} {a : α} : m.modify a id = m := by
  apply AList.ext
  simp only [modify, mapVals, id_eq, ite_self]
  exact List.map_id _

end InPlace

end AList
