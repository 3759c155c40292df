import Mathlib.Data.List.Basic
import Mathlib.Tactic.Common

set_option relaxedAutoImplicit false
set_option autoImplicit false

/-!
# Binary search

A search in the manner of `bsearch`: a comparison of the key with an element decides on which side
of the middle the search goes on. It finds an element equal to the key if there is one, provided
that the elements below the key come first and those above it last; which one it finds is not said.

## Main definitions

* `BinarySearch.Ordered` — the elements are ordered as the comparison needs it.
* `BinarySearch.bsearch` — the search.

## Main results

* `BinarySearch.bsearch_some` — what is found is equal to the key.
* `BinarySearch.bsearch_isSome_iff` — in an ordered list something is found if there is an element
  equal to the key.
* `BinarySearch.Ordered.eq_of_between` — elements equal to the key are next to each other.
-/

namespace BinarySearch

variable {α : Type}

/-- The comparison of the key goes down along the list: elements below the key (`gt`) come first,
then the ones equal to it (`eq`), then those above it (`lt`). -/
def Ordered (cmp : α → Ordering) (xs : List α) : Prop :=
  xs.Pairwise fun x y => (cmp x = .lt → cmp y = .lt) ∧ (cmp y = .gt → cmp x = .gt)

/-- The loop of the search, between two positions: the element in the middle is compared, and the
search goes on to one side of it. The fuel is at least the number of positions that are left. -/
def loop (cmp : α → Ordering) (xs : List α) : ℕ → ℕ → ℕ → Option ℕ
  | 0, _, _ => none
  | fuel + 1, l, u =>
    if l < u then
      match xs[(l + u) / 2]? with
      | none => none
      | some x =>
        match cmp x with
        | .lt => loop cmp xs fuel l ((l + u) / 2)
        | .gt => loop cmp xs fuel ((l + u) / 2 + 1) u
        | .eq => some ((l + u) / 2)
    else none

/-- The search in the whole list. The window gets smaller at each turn. -/
def bsearch (cmp : α → Ordering) (xs : List α) : Option ℕ := loop cmp xs xs.length 0 xs.length

variable {cmp : α → Ordering} {xs : List α}

/-- What the loop finds is equal to the key. -/
lemma loop_some {fuel l u i : ℕ} (h : loop cmp xs fuel l u = some i) :
    ∃ x, xs[i]? = some x ∧ cmp x = .eq := by
  induction fuel generalizing l u with
  | zero => exact absurd h (by simp [loop])
  | succ fuel ih =>
    rw [loop] at h
    split_ifs at h with hlu
    split at h
    · cases h
    · rename_i x hx
      split at h
      · exact ih h
      · exact ih h
      · rename_i heq
        exact ⟨x, Option.some.inj h ▸ hx, heq⟩

/-- **What is found** is equal to the key. -/
lemma bsearch_some {i : ℕ} (h : bsearch cmp xs = some i) :
    ∃ x, xs[i]? = some x ∧ cmp x = .eq :=
  loop_some h

/-- Positions of an ordered list. -/
lemma Ordered.of_lt (ho : Ordered cmp xs) {i j : ℕ} {x y : α} (hij : i < j) (hx : xs[i]? = some x)
    (hy : xs[j]? = some y) : (cmp x = .lt → cmp y = .lt) ∧ (cmp y = .gt → cmp x = .gt) := by
  obtain ⟨hi, rfl⟩ := List.getElem?_eq_some_iff.mp hx
  obtain ⟨hj, rfl⟩ := List.getElem?_eq_some_iff.mp hy
  exact List.pairwise_iff_getElem.mp ho i j hi hj hij

/-- **Elements equal to the key** have only such elements between them. -/
lemma Ordered.eq_of_between (ho : Ordered cmp xs) {i j k : ℕ} {x y z : α} (hij : i ≤ j)
    (hjk : j ≤ k) (hx : xs[i]? = some x) (hy : xs[j]? = some y) (hz : xs[k]? = some z)
    (hxe : cmp x = .eq) (hze : cmp z = .eq) : cmp y = .eq := by
  rcases Nat.lt_or_eq_of_le hij with hij | rfl
  · rcases Nat.lt_or_eq_of_le hjk with hjk | rfl
    · cases hye : cmp y with
      | lt => exact absurd ((ho.of_lt hjk hy hz).1 hye) (by simp [hze])
      | gt => exact absurd ((ho.of_lt hij hx hy).2 hye) (by simp [hxe])
      | eq => rfl
    · rw [hy] at hz
      rwa [Option.some.inj hz]
  · rw [hx] at hy
    rwa [← Option.some.inj hy]

/-- The loop finds something if there is an element equal to the key between its positions.

**Proof sketch.** By induction on the fuel. If the middle is not equal to the key, the element is on
one side of it, which the order tells, and the loop goes on with this side. -/
lemma loop_isSome (ho : Ordered cmp xs) {k : ℕ} {z : α} (hz : xs[k]? = some z)
    (hze : cmp z = .eq) {fuel l u : ℕ} (hl : l ≤ k) (hu : k < u) (hulen : u ≤ xs.length)
    (hfuel : u - l ≤ fuel) : (loop cmp xs fuel l u).isSome := by
  induction fuel generalizing l u with
  | zero => omega
  | succ fuel ih =>
    have hlt : (l + u) / 2 < xs.length := by omega
    obtain ⟨x, hx⟩ : ∃ x, xs[(l + u) / 2]? = some x := ⟨_, List.getElem?_eq_getElem hlt⟩
    have hne : cmp x ≠ .eq → k ≠ (l + u) / 2 := by
      rintro hxe rfl
      rw [hz] at hx
      exact hxe (Option.some.inj hx ▸ hze)
    simp only [loop, if_pos (show l < u by omega), hx]
    cases hxe : cmp x with
    | lt =>
      -- the middle is above the key, so the element is on the left of it
      have hkm : ¬ (l + u) / 2 < k := fun h => by
        have := (ho.of_lt h hx hz).1 hxe
        rw [hze] at this
        cases this
      have := hne (by simp [hxe])
      exact ih hl (by omega) (by omega) (by omega)
    | gt =>
      have hkm : ¬ k < (l + u) / 2 := fun h => by
        have := (ho.of_lt h hz hx).2 hxe
        rw [hze] at this
        cases this
      have := hne (by simp [hxe])
      exact ih (by omega) hu hulen (by omega)
    | eq => rfl

/-- **In an ordered list** something is found exactly when an element is equal to the key. -/
lemma bsearch_isSome_iff (ho : Ordered cmp xs) :
    (bsearch cmp xs).isSome ↔ ∃ x ∈ xs, cmp x = .eq := by
  constructor
  · intro h
    obtain ⟨i, hi⟩ := Option.isSome_iff_exists.mp h
    obtain ⟨x, hx, hxe⟩ := bsearch_some hi
    exact ⟨x, List.mem_of_getElem? hx, hxe⟩
  · rintro ⟨x, hmem, hxe⟩
    obtain ⟨k, hk, rfl⟩ := List.getElem_of_mem hmem
    exact loop_isSome ho (List.getElem?_eq_getElem hk) hxe (Nat.zero_le k) hk (Nat.le_refl _)
      (Nat.le_refl _)

end BinarySearch
