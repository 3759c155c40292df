import Mathlib.Tactic.Common

set_option relaxedAutoImplicit false
set_option autoImplicit false

/-!
# Chains of a partial function

A function `next : α → Option α` gives at most one successor. Following it some times from a start
leads to a place, or comes to an end on the way. A chain that comes to a place twice never ends.

## Main definitions

* `Chains.follow` — following a partial function some times.
* `Chains.EndsAt` — the place where a chain ends, and how far away it is.

## Main results

* `Chains.EndsAt.unique` — a chain has at most one end.
* `Chains.not_endsAt_of_cycle` — a cycle has none.
-/

namespace Chains

variable {α : Type} {next : α → Option α} {a b c : α} {m n : ℕ}

/-- Follow a partial function some times. -/
def follow (next : α → Option α) : ℕ → α → Option α
  | 0, a => some a
  | n + 1, a => (next a).bind (follow next n)

/-- One more time at the end. -/
lemma follow_succ (next : α → Option α) (n : ℕ) (a : α) :
    follow next (n + 1) a = (follow next n a).bind next := by
  induction n generalizing a with
  | zero => simp [follow]
  | succ n ih =>
    rw [follow, follow, Option.bind_assoc]
    exact Option.bind_congr fun b _ => ih b

/-- First some times, then some more. -/
lemma follow_add (next : α → Option α) (m n : ℕ) (a : α) :
    follow next (m + n) a = (follow next m a).bind (follow next n) := by
  induction n with
  | zero => simp [follow]
  | succ n ih =>
    rw [← Nat.add_assoc, follow_succ, ih, Option.bind_assoc]
    exact Option.bind_congr fun b _ => (follow_succ next n b).symm

/-- What can be followed some times can be followed fewer times. -/
lemma follow_isSome_of_le (hmn : m ≤ n) (h : (follow next n a).isSome) :
    (follow next m a).isSome := by
  obtain ⟨k, rfl⟩ := Nat.exists_eq_add_of_le hmn
  rw [follow_add] at h
  exact Option.isSome_of_isSome_bind h

/-- A chain ends at a place after some times. -/
structure EndsAt (next : α → Option α) (a : α) (n : ℕ) (b : α) : Prop where
  follow_eq : follow next n a = some b
  next_eq : next b = none

/-- Behind its end a chain leads nowhere. -/
lemma EndsAt.le_of_isSome (h : EndsAt next a n b) (hm : (follow next m a).isSome) : m ≤ n := by
  by_contra hlt
  have hsucc := follow_isSome_of_le (show n + 1 ≤ m by omega) hm
  rw [follow_succ, h.follow_eq, Option.bind_some, h.next_eq] at hsucc
  cases hsucc

/-- **A chain has at most one end.** -/
lemma EndsAt.unique (h : EndsAt next a n b) (h' : EndsAt next a m c) : n = m ∧ b = c := by
  have hnm : n = m := by
    apply Nat.le_antisymm
    · exact h'.le_of_isSome (by rw [h.follow_eq]; rfl)
    · exact h.le_of_isSome (by rw [h'.follow_eq]; rfl)
  subst hnm
  exact ⟨rfl, Option.some.inj (h.follow_eq.symm.trans h'.follow_eq)⟩

/-- A chain that comes to a place twice goes on for ever.

**Proof sketch.** By strong induction. Behind the second time, the chain is at the same place as it
was between both times before. -/
lemma follow_isSome_of_cycle (hmn : m < n) (hm : follow next m a = some b)
    (hn : follow next n a = some b) (k : ℕ) : (follow next k a).isSome := by
  induction k using Nat.strongRecOn with
  | ind k ih =>
    by_cases hk : k ≤ n
    · exact follow_isSome_of_le hk (by rw [hn]; rfl)
    · obtain ⟨d, rfl⟩ := Nat.exists_eq_add_of_lt (show n < k by omega)
      have hback := ih (m + (d + 1)) (by omega)
      rw [follow_add, hm] at hback
      rw [Nat.add_assoc, follow_add, hn]
      exact hback

/-- **A cycle has no end.** -/
lemma not_endsAt_of_cycle (hmn : m < n) (hm : follow next m a = some b)
    (hn : follow next n a = some b) {k : ℕ} : ¬EndsAt next a k c := by
  intro h
  have := h.le_of_isSome (follow_isSome_of_cycle hmn hm hn (k + 1))
  omega

end Chains
