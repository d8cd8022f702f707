import Mathlib.Tactic.Common

/-! Searches that may find nothing and may panic: what such a search never does, and what it finds. -/

namespace Searches
universe u
variable {ε : Type} {α β : Type u}

/-- A computation that gives `none`, as with `?`, unless it panics. -/
abbrev Search (ε : Type) (α : Type u) := OptionT (Except ε) α

def found (r : Option α) : Search ε α := OptionT.mk (.ok r)

/-- The search does not panic, and what it finds, if anything, meets the condition. -/
def Safe (x : Search ε α) (Q : α → Prop) : Prop := ∃ r, x.run = .ok r ∧ ∀ a, r = some a → Q a

def Finds (x : Search ε α) (a : α) : Prop := x.run = .ok (some a)

variable {x : Search ε α} {f : α → Search ε β} {P : α → Prop} {Q : β → Prop}

theorem run_bind_some {a : α} (first : x.run = .ok (some a)) : (x >>= f).run = (f a).run := by
  rw [OptionT.run_bind, first]
  rfl

theorem run_bind_none (first : x.run = .ok none) : (x >>= f).run = .ok none := by
  rw [OptionT.run_bind, first]
  rfl

theorem run_orElse {y : Search ε α} {r : Option α} (first : x.run = .ok r) :
    (x <|> y).run = (if r.isSome then .ok r else y.run) := by
  rw [OptionT.run_orElse, first]
  cases r <;> rfl

theorem safe_pure {a : α} (h : P a) : Safe (pure a : Search ε α) P := by
  refine ⟨some a, rfl, ?_⟩
  rintro _ ⟨⟩
  exact h

theorem safe_failure : Safe (failure : Search ε α) P := ⟨none, rfl, nofun⟩

theorem safe_found {r : Option α} (h : ∀ a, r = some a → P a) : Safe (found r : Search ε α) P := ⟨r, rfl, h⟩

theorem Safe.mono {P' : α → Prop} (h : Safe x P) (weaken : ∀ a, P a → P' a) : Safe x P' := by
  obtain ⟨r, run, all⟩ := h
  exact ⟨r, run, fun a eq => weaken a (all a eq)⟩

theorem Safe.bind (first : Safe x P) (later : ∀ a, P a → Safe (f a) Q) : Safe (x >>= f) Q := by
  obtain ⟨r, run, all⟩ := first
  cases r with
  | none => exact ⟨none, run_bind_none run, nofun⟩
  | some a =>
      obtain ⟨r, run', all'⟩ := later a (all a rfl)
      exact ⟨r, (run_bind_some run).trans run', all'⟩

theorem lift_bind_ok {m : Except ε α} {a : α} (ok : m = .ok a) : (liftM m >>= f) = f a := by
  subst ok
  rfl

theorem safe_lift_bind {m : Except ε α} {a : α} (ok : m = .ok a) (later : Safe (f a) Q) :
    Safe (liftM m >>= f) Q := by
  rw [lift_bind_ok ok]
  exact later

theorem Safe.orElse {y : Search ε α} (first : Safe x P) (second : Safe y P) : Safe (x <|> y) P := by
  obtain ⟨r, run, all⟩ := first
  cases r with
  | some a => exact ⟨some a, run_orElse run, all⟩
  | none =>
      obtain ⟨r, run', all'⟩ := second
      exact ⟨r, (run_orElse run).trans run', all'⟩

theorem finds_pure (a : α) : Finds (pure a : Search ε α) a := rfl

theorem finds_bind {a : α} {b : β} (first : Finds x a) (later : Finds (f a) b) : Finds (x >>= f) b :=
  (run_bind_some first).trans later

theorem finds_lift_bind {m : Except ε α} {a : α} {b : β} (ok : m = .ok a) (later : Finds (f a) b) :
    Finds (liftM m >>= f) b := by
  rw [lift_bind_ok ok]
  exact later

theorem Finds.orElse {y : Search ε α} {a : α} (first : Finds x a) : Finds (x <|> y) a := by
  exact run_orElse first

end Searches
