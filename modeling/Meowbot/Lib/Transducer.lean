import Mathlib.Data.List.Basic
import Mathlib.Tactic.Common

set_option relaxedAutoImplicit false
set_option autoImplicit false

/-!
# Transducers that hold something back

A transducer reads its input once from left to right. With each input it moves to a new state and
writes some outputs, and at the end of the input it writes what it still holds. Inputs and outputs
are compared by what they are made of: a transducer conserves its input if the parts of the outputs,
in order, are the parts of the inputs.

## Main definitions

* `Transducer` — transducers; `Transducer.output` — what is written for an input, from a state on.
* `Transducer.Along` — a condition on the steps of a run.

## Main results

* `Transducer.conserves_iff` — the input is conserved exactly if every step is good, where a good
  step conserves its input and a bad one spoils the output for good.
* `Transducer.exists_head` — what is written first, by a machine that has to write something.
* `Transducer.forall_output`, `Transducer.countP_output` — what holds of all outputs; how many there
  are of a kind.
-/

/-- A transducer: the step on an input, and what is written at the end of the input. -/
structure Transducer (σ α β : Type) where
  /-- The next state, and what is written. -/
  step : σ → α → σ × List β
  /-- What is written at the end. -/
  flush : σ → List β

namespace Transducer

variable {σ α β γ : Type}

/-- What a transducer writes for an input, from a state on. -/
def output (t : Transducer σ α β) : σ → List α → List β
  | s, [] => t.flush s
  | s, a :: l => (t.step s a).2 ++ t.output (t.step s a).1 l

/-- A condition on an input and the inputs before it (the last one first), all along an input. -/
def Along (Good : List α → α → Prop) : List α → List α → Prop
  | _, [] => True
  | done, a :: l => Good done a ∧ Along Good (a :: done) l

variable {t : Transducer σ α β}

/-- A condition all along an input, at each place of the input.

**Proof sketch.** By induction on the input: the first place is that with nothing in front, and the
others are those of the rest with one more element done. -/
lemma along_iff {Good : List α → α → Prop} {done l : List α} :
    Along Good done l ↔ ∀ pre a post, l = pre ++ a :: post → Good (pre.reverse ++ done) a := by
  induction l generalizing done with
  | nil =>
    refine iff_of_true trivial fun pre a post h => ?_
    simp at h
  | cons b l ih =>
    rw [Along, ih]
    constructor
    · rintro ⟨hb, hl⟩ (_ | ⟨c, pre⟩) a post h
      · obtain ⟨rfl, -⟩ := List.cons.inj h
        exact hb
      · obtain ⟨rfl, rfl⟩ := List.cons.inj h
        have := hl pre a post rfl
        rwa [List.reverse_cons, List.append_assoc]
    · intro h
      refine ⟨h [] b l rfl, fun pre a post hl => ?_⟩
      have := h (b :: pre) a post (by rw [hl, List.cons_append])
      rwa [List.reverse_cons, List.append_assoc] at this

/-- **What is written first**: a machine that writes, at a step or at the end, something with a
property before it writes anything else. -/
lemma exists_head {Held : σ → Prop} {P : β → Prop}
    (hstep : ∀ s a, Held s →
      ((t.step s a).2 = [] ∧ Held (t.step s a).1) ∨ ∃ b l, (t.step s a).2 = b :: l ∧ P b)
    (hflush : ∀ s, Held s → ∃ b l, t.flush s = b :: l ∧ P b) {s : σ} (hs : Held s) (l : List α) :
    ∃ b l', t.output s l = b :: l' ∧ P b := by
  induction l generalizing s with
  | nil => exact hflush s hs
  | cons a l ih =>
    rw [output]
    rcases hstep s a hs with ⟨hnil, hnext⟩ | ⟨b, l', hb, hP⟩
    · obtain ⟨b, l', hb, hP⟩ := ih hnext
      exact ⟨b, l', by rw [hnil, hb, List.nil_append], hP⟩
    · exact ⟨b, l' ++ t.output (t.step s a).1 l, by rw [hb, List.cons_append], hP⟩

/-- **Conservation.** Let a state hold parts back. If each good step writes, with what it holds
after it, what has been held before and its input, and if after a bad step the first part to come is
not the first one that is due, then the parts of the input are written exactly when all steps are
good.

**Proof sketch.** Induction on the input. A good step takes the same parts off both sides. -/
lemma conserves_iff {Ok : α → Prop} {Inv : List α → σ → Prop} {Good : List α → α → Prop}
    {held : σ → List γ} {parts : β → List γ} {key : α → List γ}
    (hgood : ∀ done s a, Ok a → Inv done s → Good done a → Inv (a :: done) (t.step s a).1 ∧
      (t.step s a).2.flatMap parts ++ held (t.step s a).1 = held s ++ key a)
    (hbad : ∀ done s a l, Ok a → Inv done s → ¬ Good done a → ∃ x xs y ys, x ≠ y ∧
      (t.output s (a :: l)).flatMap parts = x :: xs ∧ held s ++ (a :: l).flatMap key = y :: ys)
    (hflush : ∀ done s, Inv done s → (t.flush s).flatMap parts = held s)
    {done : List α} {s : σ} (hs : Inv done s) {l : List α} (hl : ∀ a ∈ l, Ok a) :
    (t.output s l).flatMap parts = held s ++ l.flatMap key ↔ Along Good done l := by
  induction l generalizing done s with
  | nil =>
    rw [output, List.flatMap_nil, List.append_nil]
    exact iff_of_true (hflush done s hs) trivial
  | cons a l ih =>
    obtain ⟨hok, hrest⟩ := List.forall_mem_cons.mp hl
    rw [Along]
    by_cases ha : Good done a
    · obtain ⟨hnext, hparts⟩ := hgood done s a hok hs ha
      rw [and_iff_right ha, ← ih hnext hrest, output, List.flatMap_append, List.flatMap_cons,
        ← List.append_assoc, ← hparts, List.append_assoc, List.append_right_inj]
    · obtain ⟨x, xs, y, ys, hne, hout, hdue⟩ := hbad done s a l hok hs ha
      rw [hout, hdue]
      exact iff_of_false (fun h => hne (List.cons.inj h).1) fun h => ha h.1

section Invariant

variable {Ok : α → Prop} {Inv : σ → Prop} {P : β → Prop}

/-- What every step writes has a property, and what is written at the end. -/
lemma forall_output
    (hstep : ∀ s a, Ok a → Inv s → Inv (t.step s a).1 ∧ ∀ b ∈ (t.step s a).2, P b)
    (hflush : ∀ s, Inv s → ∀ b ∈ t.flush s, P b) {s : σ} (hs : Inv s) {l : List α}
    (hl : ∀ a ∈ l, Ok a) : ∀ b ∈ t.output s l, P b := by
  induction l generalizing s with
  | nil => exact hflush s hs
  | cons a l ih =>
    obtain ⟨hok, hrest⟩ := List.forall_mem_cons.mp hl
    obtain ⟨hnext, hout⟩ := hstep s a hok hs
    rw [output]
    exact List.forall_mem_append.mpr ⟨hout, ih hnext hrest⟩

/-- **Counting**: outputs of a kind that are written for inputs of a kind only, one for each. -/
lemma countP_output {p : β → Bool} {q : α → Bool}
    (hstep : ∀ s a, Ok a → Inv s →
      Inv (t.step s a).1 ∧ (t.step s a).2.countP p = if q a then 1 else 0)
    (hflush : ∀ s, Inv s → (t.flush s).countP p = 0) {s : σ} (hs : Inv s) {l : List α}
    (hl : ∀ a ∈ l, Ok a) : (t.output s l).countP p = l.countP q := by
  induction l generalizing s with
  | nil => exact hflush s hs
  | cons a l ih =>
    obtain ⟨hok, hrest⟩ := List.forall_mem_cons.mp hl
    obtain ⟨hnext, hout⟩ := hstep s a hok hs
    rw [output, List.countP_append, hout, ih hnext hrest, List.countP_cons, Nat.add_comm]

end Invariant

end Transducer
