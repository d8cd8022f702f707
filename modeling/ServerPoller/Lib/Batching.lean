import ServerPoller.Lib.Transition
import Mathlib.Data.List.Basic

/-! Items that are collected into batches. A batch is cut off when it has a given size, and at every tick
before that. -/

namespace Batching
open Transition
variable {α : Type}

inductive Input (α : Type) where
  | item (a : α)
  | tick
  deriving DecidableEq, Repr

structure Collected (α : Type) where
  waiting : List α
  batches : List (List α)
  deriving DecidableEq, Repr

def empty : Collected α := ⟨[], []⟩

def Collected.cut (s : Collected α) : Collected α := ⟨[], s.batches ++ [s.waiting]⟩

def collect (size : Nat) (s : Collected α) : Input α → Collected α
  | .item a =>
      let s := { s with waiting := s.waiting ++ [a] }
      if size ≤ s.waiting.length then s.cut else s
  | .tick => if s.waiting.isEmpty then s else s.cut

def items (inputs : List (Input α)) : List α :=
  inputs.flatMap fun
    | .item a => [a]
    | .tick => []

def sinceTick (inputs : List (Input α)) : Nat :=
  inputs.foldl (fun n input => match input with | .item _ => n + 1 | .tick => 0) 0

/-- What the batches and the items that wait are after these inputs. -/
structure Collected.Holds (size : Nat) (past : List (Input α)) (s : Collected α) : Prop where
  partition : s.batches.flatten ++ s.waiting = items past
  sizes : ∀ batch ∈ s.batches, batch ≠ [] ∧ batch.length ≤ max size 1
  room : s.waiting.length < max size 1
  count : s.waiting.length = sinceTick past % max size 1

theorem items_append (xs ys : List (Input α)) : items (xs ++ ys) = items xs ++ items ys := List.flatMap_append

theorem sinceTick_item (past : List (Input α)) (a : α) : sinceTick (past ++ [.item a]) = sinceTick past + 1 := by
  rw [sinceTick, List.foldl_append]
  rfl

theorem sinceTick_tick (past : List (Input α)) : sinceTick (past ++ [.tick]) = 0 := by
  rw [sinceTick, List.foldl_append]
  rfl

theorem Collected.Holds.cut {size : Nat} {past : List (Input α)} {s : Collected α}
    (partition : s.batches.flatten ++ s.waiting = items past)
    (sizes : ∀ batch ∈ s.batches, batch ≠ [] ∧ batch.length ≤ max size 1)
    (nonempty : s.waiting ≠ []) (most : s.waiting.length ≤ max size 1)
    (whole : sinceTick past % max size 1 = 0) : s.cut.Holds size past where
  partition := by
    rw [Collected.cut, List.flatten_append, List.flatten_singleton, List.append_nil]
    exact partition
  sizes := by
    intro batch member
    rcases List.mem_append.mp member with old | new
    · exact sizes batch old
    · rw [List.mem_singleton.mp new]
      exact ⟨nonempty, most⟩
  room := Nat.lt_of_lt_of_le Nat.zero_lt_one (Nat.le_max_right size 1)
  count := whole.symm

theorem collect_holds {size : Nat} {past : List (Input α)} {s : Collected α} (h : s.Holds size past)
    (input : Input α) : (collect size s input).Holds size (past ++ [input]) := by
  have room := h.room
  have count := h.count
  cases input with
  | item a =>
      have grown : s.batches.flatten ++ (s.waiting ++ [a]) = items (past ++ [.item a]) := by
        rw [← List.append_assoc, h.partition, items_append]
        rfl
      have length : (s.waiting ++ [a]).length = s.waiting.length + 1 := List.length_append
      have next : sinceTick (past ++ [.item a]) % max size 1 = (s.waiting.length + 1) % max size 1 := by
        rw [sinceTick_item, count, Nat.mod_add_mod]
      simp only [collect]
      split
      · rename_i full
        have exactly : s.waiting.length + 1 = max size 1 := by omega
        refine .cut grown h.sizes (by simp) (by rw [length]; exact Nat.le_of_eq exactly) ?_
        rw [next, exactly, Nat.mod_self]
      · rename_i less
        have more : s.waiting.length + 1 < max size 1 := by omega
        exact ⟨grown, h.sizes, by rw [length]; exact more, by rw [length, next, Nat.mod_eq_of_lt more]⟩
  | tick =>
      have same : items (past ++ [.tick]) = items past := by
        rw [items_append]
        exact List.append_nil _
      simp only [collect]
      split
      · rename_i none
        have nothing : s.waiting = [] := List.isEmpty_iff.mp none
        exact ⟨h.partition.trans same.symm, h.sizes, room, by rw [sinceTick_tick, nothing]; exact (Nat.zero_mod _).symm⟩
      · rename_i some_wait
        refine .cut (h.partition.trans same.symm) h.sizes ?_ (Nat.le_of_lt room) ?_
        · intro nothing
          exact some_wait (List.isEmpty_iff.mpr nothing)
        · rw [sinceTick_tick, Nat.zero_mod]

/-- After every run the batches and the items that wait are a partition of the inputs. -/
theorem run_holds {size : Nat} {inputs : List (Input α)} {s : Collected α}
    (run : Run (ofTotal (collect size)) empty inputs s) : s.Holds size inputs := by
  apply run.keeps_history (P := Collected.Holds size)
  · rintro past s input _ holds rfl
    exact collect_holds holds input
  · refine ⟨rfl, nofun, ?_, (Nat.zero_mod _).symm⟩
    exact Nat.lt_of_lt_of_le Nat.zero_lt_one (Nat.le_max_right size 1)

end Batching
