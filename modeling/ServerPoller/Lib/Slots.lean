import Mathlib.Algebra.Order.Ring.Nat
import Mathlib.Data.List.Nodup
import Mathlib.Data.List.Perm.Basic
import Mathlib.Data.List.Range
import Mathlib.Logic.Function.Basic

/-! A row of slots, each of which holds at most one thing at a time. -/

namespace Slots
universe u v
variable {β : Type u} {γ : Type v} {n i : Nat} {f : β → Option γ} {slots : Nat → β}

/-- What the first `n` slots hold, where `f` says what a slot holds. -/
def contents (n : Nat) (f : β → Option γ) (slots : Nat → β) : List γ :=
  (List.range n).filterMap fun i => f (slots i)

theorem filterMap_cons_append (g : Nat → Option γ) (i : Nat) (rest : List Nat) :
    (i :: rest).filterMap g = (g i).toList ++ rest.filterMap g := by
  rw [List.filterMap_cons]
  cases g i <;> rfl

theorem contents_update (f : β → Option γ) (slots : Nat → β) (there : i < n) : ∃ rest,
    (contents n f slots).Perm ((f (slots i)).toList ++ rest) ∧
      ∀ b, (contents n f (Function.update slots i b)).Perm ((f b).toList ++ rest) := by
  have first : ∀ g : Nat → Option γ, ((List.range n).filterMap g).Perm
      ((g i).toList ++ ((List.range n).erase i).filterMap g) := by
    intro g
    rw [← filterMap_cons_append]
    exact (List.perm_cons_erase (List.mem_range.mpr there)).filterMap g
  refine ⟨_, first fun j => f (slots j), ?_⟩
  intro b
  have others : ((List.range n).erase i).filterMap (fun j => f (Function.update slots i b j)) =
      ((List.range n).erase i).filterMap fun j => f (slots j) := by
    apply List.filterMap_congr
    intro j member
    rw [Function.update_of_ne (List.nodup_range.mem_erase_iff.mp member).1]
  have changed := first fun j => f (Function.update slots i b j)
  rwa [others, Function.update_self] at changed

theorem perm_eq_of_length_le_one {l m : List γ} (h : l.Perm m) (short : m.length ≤ 1) : l = m := by
  cases m with
  | nil => exact h.eq_nil
  | cons a rest =>
      cases rest with
      | nil => exact h.eq_singleton
      | cons b rest =>
          simp only [List.length_cons] at short
          omega

variable [DecidableEq γ] {k : γ}

/-- A change of one slot changes the count by what that slot holds. -/
theorem count_contents_update (f : β → Option γ) (slots : Nat → β) (there : i < n) (b : β) :
    (contents n f (Function.update slots i b)).count k + (f (slots i)).toList.count k =
      (contents n f slots).count k + (f b).toList.count k := by
  obtain ⟨rest, before, after⟩ := contents_update f slots there
  rw [before.count_eq, (after b).count_eq, List.count_append, List.count_append]
  omega

section Row
variable {α : Type u} {l : List α} {a b : α}

theorem getElem?_set_of_getElem? {j : Nat} (here : l[j]? = some a) (i : Nat) :
    (l.set j b)[i]? = if j = i then some b else l[i]? := by
  rw [List.getElem?_set]
  split
  · rw [if_pos (List.getElem?_eq_some_iff.mp here).1]
  · rfl

theorem sum_map_set (f : α → Nat) (here : l[i]? = some a) :
    ((l.set i b).map f).sum + f a = (l.map f).sum + f b := by
  induction l generalizing i with
  | nil => cases here
  | cons c rest ih =>
      cases i with
      | zero =>
          cases here
          simp only [List.set_cons_zero, List.map_cons, List.sum_cons]
          omega
      | succ i =>
          have tail := ih here
          simp only [List.set_cons_succ, List.map_cons, List.sum_cons]
          omega

theorem countP_eq_sum (p : α → Bool) : l.countP p = (l.map fun x => if p x then 1 else 0).sum := by
  induction l with
  | nil => rfl
  | cons c rest ih => rw [List.countP_cons, ih, List.map_cons, List.sum_cons, Nat.add_comm]

theorem countP_set_of_getElem? (p : α → Bool) (here : l[i]? = some a) :
    (l.set i b).countP p + (if p a then 1 else 0) = l.countP p + (if p b then 1 else 0) := by
  rw [countP_eq_sum, countP_eq_sum]
  exact sum_map_set _ here

end Row

end Slots
