import Mathlib.Order.Basic
import Mathlib.Tactic.Common

set_option relaxedAutoImplicit false
set_option autoImplicit false

/-!
# Runs of labelled transition systems

A transition system is a relation `step s a t` between states and labels. A run is a finite
sequence of steps; its labels are recorded in order. What holds at the start of a run and is kept
by every step holds at its end; a condition on the steps of a run is a smaller relation.

## Main definitions

* `Runs.Run` — the runs of a relation.
* `Runs.Under` — the steps of a relation that meet a condition.
* `Runs.Fun` — the relation of a partial step function.

## Main results

* `Runs.Run.preserves` — the invariant rule.
* `Runs.Run.of_foldlM` — the runs of a partial step function, by evaluation.
-/

namespace Runs

variable {σ α : Type}

/-- The runs of a step relation, with their labels. -/
inductive Run (step : σ → α → σ → Prop) : σ → List α → σ → Prop
  /-- The run without steps. -/
  | nil (s : σ) : Run step s [] s
  /-- A run and one more step. -/
  | snoc {s t u : σ} {as : List α} {a : α} (h : Run step s as t) (hstep : step t a u) :
      Run step s (as ++ [a]) u

/-- The steps that meet a condition on the state before them and their label. -/
def Under (step : σ → α → σ → Prop) (C : σ → α → Prop) (s : σ) (a : α) (t : σ) : Prop :=
  step s a t ∧ C s a

/-- The relation of a partial step function. -/
def Fun (f : σ → α → Option σ) (s : σ) (a : α) (t : σ) : Prop := f s a = some t

variable {step : σ → α → σ → Prop}

/-- **The invariant rule**: what every step keeps, a run keeps. -/
lemma Run.preserves {I : σ → Prop} (hstep : ∀ s a t, I s → step s a t → I t) {s t : σ}
    {as : List α} (h : Run step s as t) (hs : I s) : I t := by
  induction h with
  | nil => exact hs
  | snoc _ hlast ih => exact hstep _ _ _ ih hlast

/-- A run of a smaller relation is a run. -/
lemma Run.mono {step' : σ → α → σ → Prop} (hle : ∀ s a t, step s a t → step' s a t) {s t : σ}
    {as : List α} (h : Run step s as t) : Run step' s as t := by
  induction h with
  | nil => exact .nil _
  | snoc _ hlast ih => exact .snoc ih (hle _ _ _ hlast)

/-- A run whose steps meet a condition is a run. -/
lemma Run.of_under {C : σ → α → Prop} {s t : σ} {as : List α} (h : Run (Under step C) s as t) :
    Run step s as t :=
  h.mono fun _ _ _ hstep => hstep.1

/-- Runs compose. -/
lemma Run.trans {s t u : σ} {as bs : List α} (h : Run step s as t) (h' : Run step t bs u) :
    Run step s (as ++ bs) u := by
  induction h' with
  | nil => rwa [List.append_nil]
  | snoc _ hlast ih =>
    rw [← List.append_assoc]
    exact .snoc ih hlast

/-- A step in front of a run. -/
lemma Run.cons {s t u : σ} {a : α} {as : List α} (hstep : step s a t) (h : Run step t as u) :
    Run step s (a :: as) u :=
  (Run.snoc (.nil s) hstep).trans h

/-- **A successful evaluation** of a partial step function is a run. -/
lemma Run.of_foldlM {f : σ → α → Option σ} {s t : σ} {as : List α}
    (h : as.foldlM f s = some t) : Run (Fun f) s as t := by
  induction as generalizing s with
  | nil =>
    obtain rfl := Option.some.inj h
    exact .nil _
  | cons a as ih =>
    rw [List.foldlM_cons] at h
    obtain ⟨u, hu, h⟩ := Option.bind_eq_some_iff.mp h
    exact .cons hu (ih h)

/-- A successful evaluation that checks a condition at every step is a run under it. -/
lemma Run.under_of_foldlM {f : σ → α → Option σ} {C : σ → α → Prop}
    [∀ s a, Decidable (C s a)] {s t : σ} {as : List α}
    (h : as.foldlM (fun s a => if C s a then f s a else none) s = some t) :
    Run (Under (Fun f) C) s as t := by
  refine (Run.of_foldlM h).mono fun s a t hstep => ?_
  rw [Fun] at hstep
  split_ifs at hstep with hC
  exact ⟨hstep, hC⟩

/-- A run whose last state has a property, by evaluation. -/
lemma Run.exists_of_foldlM {f : σ → α → Option σ} {P : σ → Prop} {s : σ} {as : List α}
    (h : ∃ t ∈ as.foldlM f s, P t) : ∃ t, Run (Fun f) s as t ∧ P t := by
  obtain ⟨t, ht, hP⟩ := h
  exact ⟨t, .of_foldlM ht, hP⟩

/-- A run under a condition whose last state has a property, by evaluation. -/
lemma Run.under_exists_of_foldlM {f : σ → α → Option σ} {C : σ → α → Prop}
    [∀ s a, Decidable (C s a)] {P : σ → Prop} {s : σ} {as : List α}
    (h : ∃ t ∈ as.foldlM (fun s a => if C s a then f s a else none) s, P t) :
    ∃ t, Run (Under (Fun f) C) s as t ∧ P t := by
  obtain ⟨t, ht, hP⟩ := h
  exact ⟨t, .under_of_foldlM ht, hP⟩

end Runs
