import ServerPoller.Scheduler
import Mathlib.Data.Prod.Lex

/-! The order of the scheduler's heap: `cmp` reverses due times and tie-breakers, so that the maximum of the heap is
the entry with the least of both. -/

namespace ServerPoller

/-- `partial_cmp` of `f64`, for finite numbers. -/
def partialCmp (a b : ℚ) : Option Ordering :=
  if a < b then some .lt
  else if a = b then some .eq
  else if b < a then some .gt
  else none

namespace ScheduleEntry

def eq (self other : ScheduleEntry) : Bool := decide (self.due = other.due) && decide (self.seq = other.seq)

def cmp (self other : ScheduleEntry) : Ordering :=
  ((partialCmp other.due self.due).getD .eq).then (compare other.seq self.seq)

/-- What an entry is popped by: its due time, and then its turn. -/
abbrev rank (e : ScheduleEntry) : ℚ ×ₗ ℕ := toLex (e.due, e.seq)

end ScheduleEntry

theorem partialCmp_eq_compare (a b : ℚ) : partialCmp a b = some (compare a b) := by
  rw [partialCmp]
  rcases lt_trichotomy a b with less | rfl | more
  · rw [if_pos less, compare_lt_iff_lt.mpr less]
  · rw [if_neg (lt_irrefl a), if_pos rfl, compare_eq_iff_eq.mpr rfl]
  · rw [if_neg more.asymm, if_neg more.ne', if_pos more, compare_gt_iff_gt.mpr more]

namespace ScheduleEntry
variable {e f g : ScheduleEntry}

/-- The comparison of two entries is that of their ranks, the other way round. -/
theorem cmp_eq_compare (e f : ScheduleEntry) : e.cmp f = compare f.rank e.rank := by
  rw [cmp, partialCmp_eq_compare, Prod.Lex.compare_def]
  rfl

theorem eq_iff_rank : e.eq f = true ↔ e.rank = f.rank := by
  rw [eq, Bool.and_eq_true, decide_eq_true_iff, decide_eq_true_iff, rank, rank, toLex.injective.eq_iff, Prod.mk.injEq]

theorem cmp_eq_iff : e.cmp f = .eq ↔ e.eq f = true := by
  rw [cmp_eq_compare, compare_eq_iff_eq, eq_iff_rank, eq_comm]

theorem cmp_swap : f.cmp e = (e.cmp f).swap := by
  rw [cmp_eq_compare, cmp_eq_compare]
  exact Std.OrientedCmp.eq_swap

theorem cmp_le_iff : e.cmp f ≠ .gt ↔ f.rank ≤ e.rank := by
  rw [cmp_eq_compare, compare_le_iff_le]

theorem cmp_trans (h : e.cmp f ≠ .gt) (k : f.cmp g ≠ .gt) : e.cmp g ≠ .gt :=
  cmp_le_iff.mpr (le_trans (cmp_le_iff.mp k) (cmp_le_iff.mp h))

theorem earlier_iff : e.earlier f = true ↔ e.cmp f = .gt := by
  rw [cmp_eq_compare, compare_gt_iff_gt, Prod.Lex.toLex_lt_toLex, earlier, Bool.or_eq_true, Bool.and_eq_true,
    decide_eq_true_iff, decide_eq_true_iff, decide_eq_true_iff]

theorem earlier_iff_rank : e.earlier f = true ↔ e.rank < f.rank := by
  rw [earlier_iff, cmp_eq_compare, compare_gt_iff_gt]

end ScheduleEntry

theorem peek_eq_none_iff {heap : List ScheduleEntry} : peek heap = none ↔ heap = [] := by
  cases heap with
  | nil => exact ⟨fun _ => rfl, fun _ => rfl⟩
  | cons e rest =>
      refine ⟨fun h => ?_, fun h => nomatch h⟩
      rw [peek] at h
      split at h
      · cases h
      · split at h <;> cases h

theorem peek_least {heap : List ScheduleEntry} {top : ScheduleEntry} (h : peek heap = some top) :
    ∀ e ∈ heap, top.rank ≤ e.rank := by
  induction heap generalizing top with
  | nil => cases h
  | cons first rest ih =>
      rw [peek] at h
      split at h
      · rename_i empty
        cases h
        rw [peek_eq_none_iff.mp empty]
        exact fun e member => le_of_eq (by rw [List.mem_singleton.mp member])
      · rename_i below eq
        have least := ih eq
        split at h
        · rename_i before
          cases h
          have less := ScheduleEntry.earlier_iff_rank.mp before
          exact List.forall_mem_cons.mpr ⟨less.le, least⟩
        · rename_i after
          cases h
          have most := not_lt.mp fun less => after (ScheduleEntry.earlier_iff_rank.mpr less)
          exact List.forall_mem_cons.mpr ⟨le_rfl, fun e member => most.trans (least e member)⟩

/-- Where all ranks differ, the top is the only maximum there is. -/
theorem peek_eq_some_iff {heap : List ScheduleEntry} {top : ScheduleEntry}
    (distinct : ∀ e ∈ heap, ∀ f ∈ heap, e.rank = f.rank → e = f) :
    peek heap = some top ↔ top ∈ heap ∧ ∀ e ∈ heap, e.cmp top ≠ .gt := by
  constructor
  · exact fun h => ⟨peek_mem h, fun e member => ScheduleEntry.cmp_le_iff.mpr (peek_least h e member)⟩
  · rintro ⟨member, maximum⟩
    cases found : peek heap with
    | none =>
        rw [peek_eq_none_iff.mp found] at member
        cases member
    | some e =>
        have first := peek_least found top member
        have last := ScheduleEntry.cmp_le_iff.mp (maximum e (peek_mem found))
        exact congrArg some (distinct e (peek_mem found) top member (le_antisymm first last))

end ServerPoller
