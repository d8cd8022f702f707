import Mathlib.Order.Basic

/-! Labelled step relations: the runs of one, what a run keeps because every step keeps it,
and runs all of whose steps meet a side condition. -/

namespace Transition
universe u v
variable {σ : Type u} {ε : Type v}

/-- The step relation of an executable step that may be disabled. -/
abbrev ofFn (f : σ → ε → Option σ) : σ → ε → σ → Prop := fun s e t => f s e = some t

/-- The step relation of an executable step that is always enabled. -/
abbrev ofTotal (f : σ → ε → σ) : σ → ε → σ → Prop := fun s e t => f s e = t

/-- The steps of a relation that also meet a condition on the state before them. -/
abbrev Only (step : σ → ε → σ → Prop) (ok : σ → ε → Prop) : σ → ε → σ → Prop :=
  fun s e t => step s e t ∧ ok s e

/-- A finite run, with the labels of its steps in order. -/
inductive Run (step : σ → ε → σ → Prop) : σ → List ε → σ → Prop
  | nil (s : σ) : Run step s [] s
  | cons {s t u e es} : step s e t → Run step t es u → Run step s (e :: es) u

variable {step : σ → ε → σ → Prop}

theorem Run.append {s t u : σ} {es fs : List ε} (h : Run step s es t) (k : Run step t fs u) :
    Run step s (es ++ fs) u := by
  induction h with
  | nil s => exact k
  | cons first rest ih => exact .cons first (ih k)

theorem Run.single {s t : σ} {e : ε} (h : step s e t) : Run step s [e] t := .cons h (.nil t)

theorem Run.split {s u : σ} {es fs : List ε} (h : Run step s (es ++ fs) u) :
    ∃ t, Run step s es t ∧ Run step t fs u := by
  induction es generalizing s with
  | nil => exact ⟨s, .nil s, h⟩
  | cons e es ih =>
      cases h with
      | cons first rest =>
          obtain ⟨t, hl, hr⟩ := ih rest
          exact ⟨t, .cons first hl, hr⟩

theorem Run.mono {step' : σ → ε → σ → Prop} (sub : ∀ s e t, step s e t → step' s e t)
    {s t : σ} {es : List ε} (h : Run step s es t) : Run step' s es t := by
  induction h with
  | nil s => exact .nil s
  | cons first rest ih => exact .cons (sub _ _ _ first) ih

theorem Run.unrestricted {ok : σ → ε → Prop} {s t : σ} {es : List ε}
    (h : Run (Only step ok) s es t) : Run step s es t := h.mono (fun _ _ _ hs => hs.1)

/-- What every step keeps, every run keeps. -/
theorem Run.keeps {P : σ → Prop} (keep : ∀ s e t, P s → step s e t → P t)
    {s t : σ} {es : List ε} (h : Run step s es t) (hs : P s) : P t := by
  induction h with
  | nil s => exact hs
  | cons first rest ih => exact ih (keep _ _ _ hs first)

/-- The same for a relation between the state and the labels seen so far. -/
theorem Run.keeps_history {P : List ε → σ → Prop}
    (keep : ∀ past s e t, P past s → step s e t → P (past ++ [e]) t)
    {s t : σ} {es : List ε} (h : Run step s es t) (hs : P [] s) : P es t := by
  have general : ∀ past, P past s → P (past ++ es) t := by
    clear hs
    induction h with
    | nil s =>
        intro past hs
        rwa [List.append_nil]
    | cons first rest ih =>
        intro past hs
        have tail := ih _ (keep _ _ _ _ hs first)
        rwa [List.append_assoc] at tail
  exact general [] hs

/-- Under an invariant of the runs that meet one condition, a weaker one may stand for it. -/
theorem Run.only_weaken {P : σ → Prop} {ok ok' : σ → ε → Prop}
    (keep : ∀ s e t, P s → Only step ok s e t → P t) (weaken : ∀ s e, P s → ok s e → ok' s e)
    {s t : σ} {es : List ε} (h : Run (Only step ok) s es t) (hs : P s) : Run (Only step ok') s es t := by
  induction h with
  | nil s => exact .nil s
  | cons first rest ih => exact .cons ⟨first.1, weaken _ _ hs first.2⟩ (ih (keep _ _ _ hs first))

/-- A function of the state that no step decreases is at its least at the start. -/
theorem Run.monotone {α : Type*} [Preorder α] (f : σ → α) (grow : ∀ s e t, step s e t → f s ≤ f t)
    {s t : σ} {es : List ε} (h : Run step s es t) : f s ≤ f t := by
  induction h with
  | nil s => exact le_rfl
  | cons first rest ih => exact le_trans (grow _ _ _ first) ih

/-- The run takes a step that meets a condition on the state before it. -/
def Passes (step : σ → ε → σ → Prop) (ev : σ → ε → Prop) (s : σ) (es : List ε) (t : σ) : Prop :=
  ∃ past e rest u v, es = past ++ e :: rest ∧ Run step s past u ∧ ev u e ∧ step u e v ∧ Run step v rest t

theorem Passes.later {ev : σ → ε → Prop} {s t u : σ} {e : ε} {es : List ε} (first : step s e t)
    (h : Passes step ev t es u) : Passes step ev s (e :: es) u := by
  obtain ⟨past, e', rest, v, w, rfl, before, here, at_, after⟩ := h
  exact ⟨e :: past, e', rest, v, w, rfl, .cons first before, here, at_, after⟩

theorem Passes.mono {step' : σ → ε → σ → Prop} {ev : σ → ε → Prop}
    (sub : ∀ s e t, step s e t → step' s e t) {s t : σ} {es : List ε} (h : Passes step ev s es t) :
    Passes step' ev s es t := by
  obtain ⟨past, e, rest, u, v, eq, before, here, at_, after⟩ := h
  exact ⟨past, e, rest, u, v, eq, before.mono sub, here, sub _ _ _ at_, after.mono sub⟩

/-- What every step keeps unless it meets a condition, a run keeps unless it passes such a step. -/
theorem Run.keeps_unless {P : σ → Prop} {ev : σ → ε → Prop}
    (keep : ∀ s e t, P s → step s e t → P t ∨ ev s e)
    {s t : σ} {es : List ε} (h : Run step s es t) (hs : P s) : P t ∨ Passes step ev s es t := by
  induction h with
  | nil s => exact .inl hs
  | @cons s u t e es first rest ih =>
      rcases keep s e u hs first with kept | here
      · exact (ih kept).imp_right (.later first)
      · exact .inr ⟨[], e, es, s, u, rfl, .nil s, here, first, rest⟩

theorem run_ofTotal_iff {f : σ → ε → σ} {s t : σ} {es : List ε} :
    Run (ofTotal f) s es t ↔ es.foldl f s = t := by
  constructor
  · intro h
    induction h with
    | nil s => rfl
    | cons first rest ih => cases first; exact ih
  · intro h
    induction es generalizing s with
    | nil => cases h; exact .nil s
    | cons e es ih => exact .cons rfl (ih h)

/-- Runs of an executable step that may be disabled are exactly its monadic folds. -/
theorem run_ofFn_iff {f : σ → ε → Option σ} {s t : σ} {es : List ε} :
    Run (ofFn f) s es t ↔ es.foldlM f s = some t := by
  constructor
  · intro h
    induction h with
    | nil s => rfl
    | cons first rest ih => rw [List.foldlM_cons, first, Option.bind_eq_bind, Option.bind_some, ih]
  · intro h
    induction es generalizing s with
    | nil =>
        have same : s = t := Option.some.inj h
        rw [same]
        exact .nil t
    | cons e es ih =>
        rw [List.foldlM_cons] at h
        obtain ⟨u, first, rest⟩ := Option.bind_eq_some_iff.mp h
        exact .cons first (ih rest)

/-- Where each step from a state with a property keeps it just when it meets a condition, all states of a run have the
property just when all its steps meet the condition. -/
theorem run_ofFn_always_iff {f : σ → ε → Option σ} {P : σ → Prop} {ok : σ → ε → Prop}
    (exact_ : ∀ s e t, P s → f s e = some t → (P t ↔ ok s e)) {s t : σ} {es : List ε} (h : Run (ofFn f) s es t)
    (hs : P s) : (∀ past u, past <+: es → Run (ofFn f) s past u → P u) ↔ Run (Only (ofFn f) ok) s es t := by
  induction h with
  | nil s =>
      refine ⟨fun _ => .nil s, fun _ past u start before => ?_⟩
      rw [List.prefix_nil.mp start] at before
      cases before
      exact hs
  | @cons s v t e es first rest ih =>
      constructor
      · intro always
        have here : P v := always [e] v ⟨es, rfl⟩ (.single first)
        refine .cons ⟨first, (exact_ s e v hs first).mp here⟩ ((ih here).mp fun past u start before => ?_)
        exact always (e :: past) u (List.cons_prefix_cons.mpr ⟨rfl, start⟩) (.cons first before)
      · intro only past u start before
        cases only with
        | cons first' rest' =>
            cases Option.some.inj (first.symm.trans first'.1)
            have here : P v := (exact_ s e v hs first).mpr first'.2
            cases before with
            | nil => exact hs
            | cons step' before' =>
                obtain ⟨rfl, start'⟩ := List.cons_prefix_cons.mp start
                cases Option.some.inj (first.symm.trans step')
                exact (ih here).mpr rest' _ u start' before'

/-- The executable step that is disabled where a condition fails. -/
def restrict (f : σ → ε → Option σ) (ok : σ → ε → Prop) [∀ s e, Decidable (ok s e)] : σ → ε → Option σ :=
  fun s e => if ok s e then f s e else none

theorem run_restrict_iff {f : σ → ε → Option σ} {ok : σ → ε → Prop} [∀ s e, Decidable (ok s e)]
    {s t : σ} {es : List ε} :
    Run (Only (ofFn f) ok) s es t ↔ es.foldlM (restrict f ok) s = some t := by
  rw [← run_ofFn_iff]
  constructor
  · apply Run.mono
    intro s e t h
    exact (if_pos h.2).trans h.1
  · apply Run.mono
    intro s e t h
    by_cases met : ok s e
    · exact ⟨(if_pos met).symm.trans h, met⟩
    · exact absurd ((if_neg met).symm.trans h) nofun

section Executable
variable {f : σ → ε → σ} {ok : σ → ε → Prop}

/-- Every step of the run of `f` over these labels meets `ok`. -/
def Meets (f : σ → ε → σ) (ok : σ → ε → Prop) : σ → List ε → Prop
  | _, [] => True
  | s, e :: es => ok s e ∧ Meets f ok (f s e) es

instance Meets.decidable [h : ∀ s e, Decidable (ok s e)] : ∀ s es, Decidable (Meets f ok s es)
  | _, [] => .isTrue trivial
  | s, e :: es => @instDecidableAnd _ _ (h s e) (Meets.decidable (f s e) es)

theorem run_only_iff {s t : σ} {es : List ε} :
    Run (Only (ofTotal f) ok) s es t ↔ Meets f ok s es ∧ es.foldl f s = t := by
  constructor
  · intro h
    induction h with
    | nil s => exact ⟨trivial, rfl⟩
    | cons first rest ih =>
        obtain ⟨rfl, here⟩ := first
        exact ⟨⟨here, ih.1⟩, ih.2⟩
  · rintro ⟨h, rfl⟩
    induction es generalizing s with
    | nil => exact .nil s
    | cons e es ih => exact .cons ⟨rfl, h.1⟩ (ih h.2)

end Executable

end Transition
