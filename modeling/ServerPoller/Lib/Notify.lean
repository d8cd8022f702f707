import Mathlib.Order.Basic

/-! A notification that one task waits for. What is notified while nobody waits is kept, as one permit. -/

/-- Whether the task is in the list of waiters, or was taken off it and has not run since. -/
inductive Waiter where
  | absent
  | waiting
  | woken
  deriving DecidableEq, Repr

structure Notify where
  permit : Bool
  waiter : Waiter
  /-- Nobody waits beside a permit. -/
  noWaiter : permit = true → waiter ≠ .waiting

namespace Notify

def new : Notify := ⟨false, .absent, nofun⟩

/-- `notify_one`: wakes the waiting task, or stores a permit. -/
def notifyOne (n : Notify) : Notify :=
  match n.waiter with
  | .waiting => ⟨n.permit, .woken, fun _ => nofun⟩
  | .absent => ⟨true, .absent, fun _ => nofun⟩
  | .woken => ⟨true, .woken, fun _ => nofun⟩

/-- The first poll of `notified`: takes the permit, or else starts to wait and gives nothing. -/
def notified (n : Notify) : Bool × Notify :=
  if n.permit then (true, ⟨false, n.waiter, nofun⟩) else (false, ⟨false, .waiting, nofun⟩)

/-- The waiting task runs again, once it was woken. -/
def resume (n : Notify) : Option Notify :=
  match n.waiter with
  | .woken => some ⟨n.permit, .absent, fun _ => nofun⟩
  | .absent | .waiting => none

/-- The wait is dropped. A wake-up that it has had already is given back. -/
def cancel (n : Notify) : Notify :=
  match n.waiter with
  | .woken => ⟨true, .absent, fun _ => nofun⟩
  | .absent | .waiting => ⟨n.permit, .absent, fun _ => nofun⟩

/-- There is a permit, or a wake-up that was not acted on. -/
def Pending (n : Notify) : Prop := n.permit = true ∨ n.waiter = .woken

variable {n m : Notify}

theorem pending_notifyOne (n : Notify) : n.notifyOne.Pending := by
  unfold notifyOne
  split
  · exact .inr rfl
  · exact .inl rfl
  · exact .inl rfl

theorem notifyOne_absent_iff : n.notifyOne.waiter = .absent ↔ n.waiter = .absent := by
  unfold notifyOne
  split
  · rename_i waiting
    simp [waiting]
  · rename_i absent
    simp [absent]
  · rename_i woken
    simp [woken]

theorem cancel_absent (n : Notify) : n.cancel.waiter = .absent := by
  unfold cancel
  split <;> rfl

theorem resume_absent (h : n.resume = some m) : m.waiter = .absent := by
  unfold resume at h
  split at h
  · cases h
    rfl
  · cases h
  · cases h

theorem Pending.resumes (h : n.Pending) (registered : n.waiter ≠ .absent) : ∃ m, n.resume = some m := by
  have woken : n.waiter = .woken := by
    cases wait : n.waiter with
    | absent => exact absurd wait registered
    | waiting => exact h.elim (fun permit => absurd wait (n.noWaiter permit)) (fun woken => wait.symm.trans woken)
    | woken => rfl
  rw [resume, woken]
  exact ⟨_, rfl⟩

end Notify
