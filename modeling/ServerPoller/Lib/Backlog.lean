import Mathlib.Data.List.Infix

/-! A backlog keeps the newest part of what was pushed: elements leave at the old end only, some
of them through a reader and some unread. -/

/-- What was pushed, what of it is kept and what of it was read, each oldest first. -/
structure Backlog (α : Type*) where
  pushed : List α
  kept : List α
  read : List α
  ordered : (read ++ kept).Sublist pushed
  newest : kept <:+ pushed

namespace Backlog
variable {α : Type*}

def empty : Backlog α := ⟨[], [], [], List.Sublist.refl [], List.suffix_refl []⟩

def push (b : Backlog α) (vs : List α) : Backlog α where
  pushed := b.pushed ++ vs
  kept := b.kept ++ vs
  read := b.read
  ordered := by
    rw [← List.append_assoc]
    exact b.ordered.append (List.Sublist.refl vs)
  newest := by
    obtain ⟨lost, eq⟩ := b.newest
    exact ⟨lost, by rw [← List.append_assoc, eq]⟩

/-- Let the oldest elements go; the reader gets `got` and nobody gets `lost`. -/
def shift (b : Backlog α) {got lost rest : List α} (h : b.kept = got ++ lost ++ rest) : Backlog α where
  pushed := b.pushed
  kept := rest
  read := b.read ++ got
  ordered := by
    refine List.Sublist.trans ?_ b.ordered
    rw [h, List.append_assoc, List.append_assoc]
    exact (List.Sublist.refl _).append ((List.Sublist.refl _).append (List.sublist_append_right lost rest))
  newest := List.IsSuffix.trans ⟨got ++ lost, h.symm⟩ b.newest

theorem read_sublist (b : Backlog α) : b.read.Sublist b.pushed :=
  (List.sublist_append_left _ _).trans b.ordered

end Backlog
