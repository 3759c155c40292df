import Mathlib.Algebra.Order.Ring.Int
import Mathlib.Data.List.Lex
import Mathlib.Order.RelClasses

set_option relaxedAutoImplicit false
set_option autoImplicit false

/-!
# Comparison of terminated strings

A comparison function in the manner of `strcmp` goes through two strings as long as they agree and
returns the difference of the first two values that do not, the terminator counting as the value
zero. Values may be negative, so a string need not be behind its beginnings. It is negative exactly
when the values of the first string, with the terminator at the end, are in front of those of the
second one in the lexicographic order. Hence the comparison is a strict weak order, whatever the
values are.

## Main definitions

* `Strcmp.loop` — the comparison; `Strcmp.key` — the values of a string with its terminator.

## Main results

* `Strcmp.loop_neg_iff` — the sign of the result.
* `Strcmp.isStrictWeakOrder` — the comparator that a comparison gives.
-/

namespace Strcmp

variable {β : Type}

/-- The difference of the first values that differ. -/
def loop (value : β → ℤ) : List β → List β → ℤ
  | [], [] => 0
  | [], y :: _ => 0 - value y
  | x :: _, [] => value x - 0
  | x :: xs, y :: ys => if value x - value y = 0 then loop value xs ys else value x - value y

/-- The values of a string and of its terminator. -/
def key (value : β → ℤ) (s : List β) : List ℤ := s.map value ++ [0]

variable {value : β → ℤ}

/-- **The sign of the result** is that of the lexicographic order.

**Proof sketch.** By induction on the first string. Where the bytes are equal the comparison goes
on; where they differ, or one string ends, the difference of the values decides, and the end has the
value zero. -/
lemma loop_neg_iff {s t : List β} (hs : ∀ x ∈ s, value x ≠ 0) (ht : ∀ y ∈ t, value y ≠ 0) :
    loop value s t < 0 ↔ key value s < key value t := by
  induction s generalizing t with
  | nil =>
    cases t with
    | nil => simp [loop, key]
    | cons y ys =>
      have hy := ht y List.mem_cons_self
      simp only [loop, key, List.map_nil, List.map_cons, List.nil_append, List.cons_append,
        List.cons_lt_cons_iff]
      refine ⟨fun h => .inl (by omega), fun h => ?_⟩
      rcases h with h | ⟨h, -⟩
      · omega
      · exact absurd h.symm hy
  | cons x xs ih =>
    have hx := hs x List.mem_cons_self
    cases t with
    | nil =>
      simp only [loop, key, List.map_nil, List.map_cons, List.nil_append, List.cons_append,
        List.cons_lt_cons_iff]
      refine ⟨fun h => .inl (by omega), fun h => ?_⟩
      rcases h with h | ⟨h, -⟩
      · omega
      · exact absurd h hx
    | cons y ys =>
      have ih' := ih (fun z hz => hs z (List.mem_cons_of_mem _ hz))
        (fun z hz => ht z (List.mem_cons_of_mem _ hz) : ∀ z ∈ ys, value z ≠ 0)
      simp only [key, List.map_cons, List.cons_append, List.cons_lt_cons_iff] at ih' ⊢
      rw [loop]
      split_ifs with h
      · rw [ih']
        refine ⟨fun h' => .inr ⟨by omega, h'⟩, fun h' => ?_⟩
        exact (h'.resolve_left (by omega)).2
      · refine ⟨fun h' => .inl (by omega), fun h' => ?_⟩
        rcases h' with h' | ⟨h', -⟩
        · omega
        · omega

/-- Two strings compare the other way round with the other sign. -/
lemma loop_swap (s t : List β) : loop value t s = -loop value s t := by
  induction s generalizing t with
  | nil =>
    cases t with
    | nil => rfl
    | cons y ys => simp [loop]
  | cons x xs ih =>
    cases t with
    | nil => simp [loop]
    | cons y ys =>
      rw [loop, loop, ih ys]
      split_ifs <;> omega

/-- The comparator that a comparison function gives, where the strings are read in some way. -/
lemma isStrictWeakOrder {α : Type} (read : α → List β) (hread : ∀ a, ∀ x ∈ read a, value x ≠ 0) :
    IsStrictWeakOrder α fun a b => loop value (read a) (read b) < 0 := by
  have hkey : (fun a b => loop value (read a) (read b) < 0) =
      fun a b => key value (read a) < key value (read b) := by
    funext a b
    exact propext (loop_neg_iff (hread a) (hread b))
  have hlex : IsStrictWeakOrder (List ℤ) (· < ·) := isStrictWeakOrder_of_isOrderConnected
  rw [hkey]
  exact Order.Preimage.instIsStrictWeakOrder (f := fun a => key value (read a))

end Strcmp
