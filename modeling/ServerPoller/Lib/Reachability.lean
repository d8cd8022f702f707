import ServerPoller.Lib.Transition
import Mathlib.Order.WellFounded

/-! What a system can still come to by its own steps, with a rank that says how far it is; and the events that a run
has come through, in their order. -/

namespace Transition
universe u v
variable {σ : Type u} {ε : Type v} {step : σ → ε → σ → Prop}

/-- Some run from this state ends in a state with the property. -/
def Reaches (step : σ → ε → σ → Prop) (s : σ) (P : σ → Prop) : Prop := ∃ es t, Run step s es t ∧ P t

variable {P Q : σ → Prop} {s t : σ} {e : ε}

theorem Reaches.here (h : P s) : Reaches step s P := ⟨[], s, .nil s, h⟩

theorem Reaches.later (first : step s e t) (h : Reaches step t P) : Reaches step s P := by
  obtain ⟨es, u, rest, end_⟩ := h
  exact ⟨e :: es, u, .cons first rest, end_⟩

theorem Reaches.next (first : step s e t) (h : P t) : Reaches step s P := .later first (.here h)

theorem Reaches.trans (h : Reaches step s P) (k : ∀ t, P t → Reaches step t Q) : Reaches step s Q := by
  obtain ⟨es, t, before, middle⟩ := h
  obtain ⟨fs, u, after, end_⟩ := k t middle
  exact ⟨es ++ fs, u, before.append after, end_⟩

theorem Reaches.mono (h : Reaches step s P) (k : ∀ t, P t → Q t) : Reaches step s Q :=
  h.trans fun t there => .here (k t there)

/-- Where a state with one property has the other, or takes a step that keeps the one and lowers a rank, it can come
to the other. -/
theorem Reaches.of_rank {α : Type*} [Preorder α] [WellFoundedLT α] (rank : σ → α)
    (progress : ∀ s, P s → Q s ∨ ∃ e t, step s e t ∧ (Q t ∨ P t ∧ rank t < rank s)) (start : P s) :
    Reaches step s Q := by
  induction h : rank s using WellFoundedLT.induction generalizing s with
  | ind r ih =>
      subst h
      rcases progress s start with done | ⟨e, t, first, done | ⟨kept, lower⟩⟩
      · exact .here done
      · exact .next first done
      · exact .later first (ih _ lower kept rfl)

variable {ev : σ → ε → Prop} {u : σ} {es : List ε}

/-- The run takes steps that meet these conditions on the state before them, in this order. -/
def InOrder (step : σ → ε → σ → Prop) : List (σ → ε → Prop) → σ → List ε → σ → Prop
  | [], s, es, t => Run step s es t
  | ev :: evs, s, es, t => ∃ past e rest u v, es = past ++ e :: rest ∧ Run step s past u ∧ ev u e ∧ step u e v ∧
      InOrder step evs v rest t

variable {evs : List (σ → ε → Prop)}

theorem InOrder.append (h : InOrder step evs s es t) (last : step t e u) : InOrder step evs s (es ++ [e]) u := by
  induction evs generalizing s es with
  | nil => exact Run.append h (.single last)
  | cons ev evs ih =>
      obtain ⟨past, e', rest, v, w, rfl, before, here, at_, after⟩ := h
      refine ⟨past, e', rest ++ [e], v, w, ?_, before, here, at_, ih after⟩
      rw [List.append_assoc, List.cons_append]

theorem InOrder.last (h : InOrder step evs s es t) (here : ev t e) (last : step t e u) :
    InOrder step (evs ++ [ev]) s (es ++ [e]) u := by
  induction evs generalizing s es with
  | nil => exact ⟨es, e, [], t, u, rfl, h, here, last, .nil u⟩
  | cons ev' evs ih =>
      obtain ⟨past, e', rest, v, w, rfl, before, here', at_, after⟩ := h
      refine ⟨past, e', rest ++ [e], v, w, ?_, before, here', at_, ih after⟩
      rw [List.append_assoc, List.cons_append]

/-- How many steps of the run of an executable step are such events. -/
def tally (f : σ → ε → Option σ) (ev : σ → ε → Bool) : σ → List ε → Nat
  | _, [] => 0
  | s, e :: es => (if ev s e then 1 else 0) + (f s e).elim 0 fun t => tally f ev t es

theorem tally_cons {f : σ → ε → Option σ} {ev : σ → ε → Bool} (first : f s e = some t) :
    tally f ev s (e :: es) = (if ev s e then 1 else 0) + tally f ev t es := by
  rw [tally, first, Option.elim_some]

/-- What the steps of the run of an executable step hand out, in their order. -/
def gather {γ : Type*} (f : σ → ε → Option σ) (out : σ → ε → List γ) : σ → List ε → List γ
  | _, [] => []
  | s, e :: es => out s e ++ (f s e).elim [] fun t => gather f out t es

theorem gather_append {γ : Type*} {f : σ → ε → Option σ} (out : σ → ε → List γ) (run : Run (ofFn f) s es t)
    (last : f t e = some u) : gather f out s (es ++ [e]) = gather f out s es ++ out t e := by
  induction run with
  | nil s => simp only [gather, last, List.nil_append, List.append_nil, Option.elim_some]
  | cons first rest ih =>
      have next : f _ _ = some _ := first
      simp only [List.cons_append, gather, next, Option.elim_some, ih last, List.append_assoc]

/-- What every step keeps of the run so far, every run keeps. -/
theorem Run.keeps_along {P : List ε → σ → Prop}
    (keep : ∀ past u e v, Run step s past u → P past u → step u e v → P (past ++ [e]) v)
    (h : Run step s es t) (hs : P [] s) : P es t := by
  refine (h.keeps_history (P := fun past u => Run step s past u ∧ P past u) ?_ ⟨.nil s, hs⟩).2
  rintro past u e v ⟨before, kept⟩ last
  exact ⟨before.append (.single last), keep past u e v before kept last⟩

end Transition
