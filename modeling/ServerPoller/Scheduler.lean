import Mathlib.Algebra.Order.Field.Rat
import Mathlib.Data.List.Perm.Basic

/-! The scheduler's heap: what `schedule` pushes and what `next_due` pops. -/

namespace ServerPoller

/-- A scheduled item: (due_time, tie_breaker, server_key). -/
structure ScheduleEntry where
  due : ℚ
  seq : Nat
  key : String
  deriving DecidableEq, Repr

/-- `cmp`, which reverses the order for the max-heap: this entry is popped before the other. -/
def ScheduleEntry.earlier (e f : ScheduleEntry) : Bool :=
  decide (e.due < f.due) || (decide (e.due = f.due) && decide (e.seq < f.seq))

def peek : List ScheduleEntry → Option ScheduleEntry
  | [] => none
  | e :: rest =>
      match peek rest with
      | none => some e
      | some top => if top.earlier e then some top else some e

/-- The scheduler under its lock. The counter of the source is a `u64`, which fewer than 2^64 pushes do not wrap. -/
structure Scheduler where
  heap : List ScheduleEntry
  counter : Nat

def Scheduler.new : Scheduler := ⟨[], 0⟩

/-- What the task spawned by `schedule` does under the lock. -/
def Scheduler.push (s : Scheduler) (key : String) (due : ℚ) : Scheduler :=
  ⟨⟨due, s.counter + 1, key⟩ :: s.heap, s.counter + 1⟩

/-- The last turn of the loop of `next_due`, at a time when the top entry is due. -/
def Scheduler.pop (s : Scheduler) (now : ℚ) : Option (ScheduleEntry × Scheduler) :=
  match peek s.heap with
  | none => none
  | some top => if top.due ≤ now then some (top, { s with heap := s.heap.erase top }) else none

theorem peek_mem {heap : List ScheduleEntry} {top : ScheduleEntry} (h : peek heap = some top) :
    top ∈ heap := by
  induction heap with
  | nil => cases h
  | cons e rest ih =>
      rw [peek] at h
      split at h
      · cases h
        exact List.mem_cons_self
      · rename_i below eq
        split at h
        · cases h
          exact List.mem_cons_of_mem _ (ih eq)
        · cases h
          exact List.mem_cons_self

theorem Scheduler.pop_eq {s t : Scheduler} {now : ℚ} {top : ScheduleEntry} (h : s.pop now = some (top, t)) :
    peek s.heap = some top ∧ top.due ≤ now ∧ t = { s with heap := s.heap.erase top } := by
  unfold pop at h
  split at h
  · cases h
  · rename_i found
    split at h
    · rename_i due
      cases h
      exact ⟨found, due, rfl⟩
    · cases h

theorem Scheduler.pop_perm {s t : Scheduler} {now : ℚ} {top : ScheduleEntry} (h : s.pop now = some (top, t)) :
    s.heap.Perm (top :: t.heap) ∧ top.due ≤ now := by
  obtain ⟨found, due, rfl⟩ := pop_eq h
  exact ⟨List.perm_cons_erase (peek_mem found), due⟩

def Scheduler.Holds (s : Scheduler) (key : String) (due : ℚ) : Prop :=
  ∃ e ∈ s.heap, e.key = key ∧ e.due = due

theorem Scheduler.holds_push {s : Scheduler} {key k : String} {due d : ℚ} :
    (s.push key due).Holds k d ↔ (key = k ∧ due = d) ∨ s.Holds k d := by
  simp [Holds, push]

theorem Scheduler.holds_pop {s t : Scheduler} {now : ℚ} {top : ScheduleEntry}
    (h : s.pop now = some (top, t)) {k : String} {d : ℚ} :
    s.Holds k d ↔ (top.key = k ∧ top.due = d) ∨ t.Holds k d := by
  simp only [Holds, (pop_perm h).1.mem_iff, List.mem_cons, exists_eq_or_imp]

end ServerPoller
