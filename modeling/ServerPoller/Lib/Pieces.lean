import Mathlib.Data.List.Basic

/-! Lists that are joined with a separator, and what splitting at the separator finds again when it may also
stand in the parts. -/

namespace Pieces
universe u
variable {α : Type u} [BEq α] [LawfulBEq α] {sep : α}

/-- Splitting what was joined finds the pieces of the parts, one part after the other. -/
theorem splitOn_joined {parts : List (List α)} (some_ : parts ≠ []) :
    ([sep].intercalate parts).splitOn sep = parts.flatMap fun part => part.splitOn sep := by
  induction parts with
  | nil => exact absurd rfl some_
  | cons part rest ih =>
      cases rest with
      | nil => simp
      | cons next rest =>
          rw [List.flatMap_cons, ← ih (List.cons_ne_nil _ _), List.intercalate_cons_cons, List.append_assoc,
            List.singleton_append, List.splitOn_append_cons_self]

theorem joined_eq_iff {parts parts' : List (List α)} (some_ : parts ≠ []) (some' : parts' ≠ []) :
    [sep].intercalate parts = [sep].intercalate parts' ↔
      (parts.flatMap fun part => part.splitOn sep) = parts'.flatMap fun part => part.splitOn sep := by
  rw [← splitOn_joined some_, ← splitOn_joined some']
  constructor
  · intro same
    rw [same]
  · intro pieces
    have rejoined : ∀ l : List α, [sep].intercalate (l.splitOn sep) = l := fun _ => List.intercalate_splitOn sep
    rw [← rejoined ([sep].intercalate parts), pieces, rejoined]

theorem pieces_ne_nil {parts : List (List α)} (some_ : parts ≠ []) :
    (parts.flatMap fun part => part.splitOn sep) ≠ [] := by
  rw [← splitOn_joined some_]
  exact List.splitOn_ne_nil _ _

theorem pieces_of_plain {parts : List (List α)} (plain : ∀ part ∈ parts, sep ∉ part) :
    (parts.flatMap fun part => part.splitOn sep) = parts := by
  induction parts with
  | nil => rfl
  | cons part rest ih =>
      rw [List.flatMap_cons, List.splitOn_eq_singleton (plain part List.mem_cons_self),
        ih fun later member => plain later (List.mem_cons_of_mem _ member), List.singleton_append]

/-- Lists without repetition that have the same pieces, and the same parts with separators inside, have the
same parts. -/
theorem mem_iff_of_pieces (sep : α) {parts parts' : List (List α)} (nodup : parts.Nodup) (nodup' : parts'.Nodup)
    (pieces : (parts.flatMap fun part => part.splitOn sep) = parts'.flatMap fun part => part.splitOn sep)
    (broken : ∀ part, sep ∈ part → (part ∈ parts ↔ part ∈ parts')) (part : List α) :
    part ∈ parts ↔ part ∈ parts' := by
  have plain : ∀ l : List (List α), ((l.filter fun part => !part.contains sep).flatMap fun part => part.splitOn sep) =
      l.filter fun part => !part.contains sep := by
    intro l
    refine pieces_of_plain fun part member => ?_
    simpa using (List.mem_filter.mp member).2
  have split : ∀ l : List (List α), (l.flatMap fun part => part.splitOn sep).Perm
      (((l.filter fun part => part.contains sep).flatMap fun part => part.splitOn sep) ++
        l.filter fun part => !part.contains sep) := by
    intro l
    have parted := (List.filter_append_perm (fun part => part.contains sep) l).symm.flatMap_right
      fun part => part.splitOn sep
    rwa [List.flatMap_append, plain] at parted
  have same : (parts.filter fun part => part.contains sep).Perm (parts'.filter fun part => part.contains sep) := by
    refine (List.perm_ext_iff_of_nodup (nodup.filter _) (nodup'.filter _)).mpr fun part => ?_
    rw [List.mem_filter, List.mem_filter, List.contains_iff_mem]
    exact and_congr_left (broken part)
  have others : (parts.filter fun part => !part.contains sep).Perm (parts'.filter fun part => !part.contains sep) := by
    have all := (split parts).symm.trans (pieces ▸ split parts')
    exact (List.perm_append_left_iff _).mp (all.trans ((same.symm.flatMap_right _).append_right _))
  by_cases separated : sep ∈ part
  · exact broken part separated
  · have listed : ∀ l : List (List α), part ∈ l ↔ part ∈ l.filter fun part => !part.contains sep := by
      intro l
      simp [separated]
    rw [listed parts, listed parts', others.mem_iff]

omit [LawfulBEq α] in
theorem length_splitOn (l : List α) : (l.splitOn sep).length = l.count sep + 1 := by
  induction l with
  | nil => simp
  | cons a l ih =>
      rw [List.splitOn_cons_eq_if_modifyHead, List.count_cons]
      by_cases here : (a == sep) = true
      · rw [if_pos here, if_pos here, List.length_cons, ih]
      · rw [if_neg here, if_neg here, List.length_modifyHead, ih, Nat.add_zero]

section First
variable {β : Type u} [DecidableEq β] {l m : List β} {c : β}

theorem takeWhile_before (plain : c ∉ l) : (l ++ c :: m).takeWhile (· ≠ c) = l := by
  have inside : ∀ a ∈ l, decide (a ≠ c) = true := fun a member => decide_eq_true fun same => plain (same ▸ member)
  rw [List.takeWhile_append_of_pos inside, List.takeWhile_cons_of_neg (by simp), List.append_nil]

theorem dropWhile_before (plain : c ∉ l) : (l ++ c :: m).dropWhile (· ≠ c) = c :: m := by
  have inside : ∀ a ∈ l, decide (a ≠ c) = true := fun a member => decide_eq_true fun same => plain (same ▸ member)
  rw [List.dropWhile_append_of_pos inside, List.dropWhile_cons_of_neg (by simp)]

theorem count_eq_one_iff : l.count c = 1 ↔ ∃ before after, l = before ++ c :: after ∧ c ∉ before ∧ c ∉ after := by
  constructor
  · intro once
    obtain ⟨before, after, rfl, first⟩ := List.eq_append_cons_of_mem (List.count_pos_iff.mp (by omega : 0 < l.count c))
    refine ⟨before, after, rfl, first, List.count_eq_zero.mp ?_⟩
    rw [List.count_append, List.count_cons_self, List.count_eq_zero.mpr first] at once
    omega
  · rintro ⟨before, after, rfl, first, last⟩
    rw [List.count_append, List.count_cons_self, List.count_eq_zero.mpr first, List.count_eq_zero.mpr last]

end First

end Pieces
