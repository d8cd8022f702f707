import ServerPoller.Lib.KeyedMap
import Mathlib.Algebra.Order.BigOperators.Group.List

/-! Adding up a quantity over the entries of a finite keyed map, and what each operation does to
the sum. -/

namespace AList
universe u v w
variable {α : Type u} {δ : Type v} {M : Type w} [AddCommMonoid M]

/-- The sum over all entries. -/
def sum (f : α → δ → M) (m : AList fun _ : α => δ) : M := (m.entries.map fun e => f e.1 e.2).sum

variable [DecidableEq α] {f : α → δ → M} {m : AList fun _ : α => δ} {a : α} {b : δ}

theorem sum_erase (h : m.lookup a = some b) : m.sum f = f a b + (m.erase a).sum f := by
  have there : a ∈ m.entries.keys := mem_keys.mp (exists_lookup_iff_mem.mp ⟨b, h⟩)
  obtain ⟨b', before, after, _, split, erased⟩ := List.exists_of_kerase there
  have entry : (⟨a, b'⟩ : Sigma fun _ : α => δ) ∈ m.entries := by simp [split]
  have same : b' = b := Option.some.inj ((mem_lookup_iff.mpr entry).symm.trans h)
  have rest : (m.erase a).entries = before ++ after := erased
  rw [sum, sum, split, rest, same]
  simp only [List.map_append, List.map_cons, List.sum_append, List.sum_cons]
  exact add_left_comm _ _ _

theorem sum_insert (h : a ∉ m) : (m.insert a b).sum f = f a b + m.sum f := by
  rw [sum, entries_insert_of_notMem h, List.map_cons, List.sum_cons, sum]

theorem modify_of_notMem {g : δ → δ} (h : a ∉ m) : m.modify a g = m := by
  apply AList.ext
  have other : ∀ e ∈ m.entries, Sigma.map id (fun b x => if b = a then g x else x) e = e := by
    intro e member
    have ne : e.1 ≠ a := by
      rintro rfl
      exact h (mem_keys.mpr (List.mem_map_of_mem member))
    simp only [Sigma.map, if_neg ne, id]
  exact (List.map_congr_left other).trans (List.map_id _)

theorem erase_modify {g : δ → δ} : (m.modify a g).erase a = m.erase a :=
  (mapVals_erase _ m a).symm.trans (modify_of_notMem fun h => (mem_erase.mp h).1 rfl)

/-- What an update in place adds to the entry, it adds to the sum. -/
theorem sum_modify {g : δ → δ} {d : M} (h : m.lookup a = some b) (grown : f a (g b) = f a b + d) :
    (m.modify a g).sum f = m.sum f + d := by
  have found : (m.modify a g).lookup a = some (g b) := by rw [lookup_modify, h, Option.map_some]
  rw [sum_erase found, erase_modify, grown, sum_erase h]
  exact add_right_comm _ _ _

theorem sum_eq_zero (h : ∀ a b, m.lookup a = some b → f a b = 0) : m.sum f = 0 := by
  apply List.sum_eq_zero
  intro x listed
  obtain ⟨e, member, rfl⟩ := List.mem_map.mp listed
  exact h e.1 e.2 (mem_lookup_iff.mpr member)

theorem sum_le_sum [Preorder M] [AddLeftMono M] [AddRightMono M] {g : α → δ → M}
    (h : ∀ a b, m.lookup a = some b → f a b ≤ g a b) : m.sum f ≤ m.sum g :=
  List.sum_le_sum fun e member => h e.1 e.2 (mem_lookup_iff.mpr member)

end AList
