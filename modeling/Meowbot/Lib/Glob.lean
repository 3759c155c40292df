import Mathlib.Data.List.Forall2
import Mathlib.Tactic.Common

set_option relaxedAutoImplicit false
set_option autoImplicit false

/-!
# Glob patterns

A glob pattern is a list of items, each of which stands for one element with some property, or for
any number of elements. A matcher that reads a string from left to right can forget a star as soon
as it has come to the next one: if the items between the two match somewhere, the first place where
they do is as good as any other.

## Main definitions

* `Glob.Item` — the items; `Glob.Matches` — the strings that a pattern stands for.
* `Glob.Fits` — items without stars, and as many elements.

## Main results

* `Glob.matches_star_ones_star` — the first place is as good as any other.
* `Glob.matches_star_cons` — the places where the items behind a star may match.
-/

namespace Glob

variable {α : Type}

/-- An item of a pattern. -/
inductive Item (α : Type) where
  /-- Any number of elements. -/
  | star
  /-- One element with a property. -/
  | one (p : α → Prop)

/-- The strings that a pattern stands for. -/
def Matches : List (Item α) → List α → Prop
  | [], s => s = []
  | .star :: is, s => ∃ t, t <:+ s ∧ Matches is t
  | .one p :: is, s => ∃ a t, s = a :: t ∧ p a ∧ Matches is t

/-- Elements have the properties of as many items. -/
def Fits (ps : List (α → Prop)) (u : List α) : Prop := List.Forall₂ (fun p a => p a) ps u

/-- One more element. -/
lemma Fits.concat {ps : List (α → Prop)} {u : List α} (h : Fits ps u) {p : α → Prop} {a : α}
    (ha : p a) : Fits (ps ++ [p]) (u ++ [a]) :=
  List.rel_append h (.cons ha .nil)

/-- **Items without stars** take as many elements. -/
lemma matches_ones_append {ps : List (α → Prop)} {is : List (Item α)} {s : List α} :
    Matches (ps.map .one ++ is) s ↔ ∃ u t, s = u ++ t ∧ Fits ps u ∧ Matches is t := by
  induction ps generalizing s with
  | nil =>
    constructor
    · exact fun h => ⟨[], s, rfl, .nil, h⟩
    · rintro ⟨u, t, rfl, hu, ht⟩
      obtain rfl := List.forall₂_nil_left_iff.mp hu
      exact ht
  | cons p ps ih =>
    constructor
    · rintro ⟨a, t, rfl, ha, ht⟩
      obtain ⟨u, t, rfl, hu, ht⟩ := ih.mp ht
      exact ⟨a :: u, t, rfl, .cons ha hu, ht⟩
    · rintro ⟨u, t, rfl, hu, ht⟩
      obtain ⟨a, u', ha, hu', rfl⟩ := List.forall₂_cons_left_iff.mp hu
      exact ⟨a, u' ++ t, rfl, ha, ih.mpr ⟨u', t, rfl, hu', ht⟩⟩

/-- Items without stars that fit in front leave the rest to the rest. -/
lemma matches_ones_append_iff {ps : List (α → Prop)} {u : List α} (hu : Fits ps u)
    {is : List (Item α)} {t : List α} :
    Matches (ps.map .one ++ is) (u ++ t) ↔ Matches is t := by
  rw [matches_ones_append]
  constructor
  · rintro ⟨u', t', heq, hu', ht'⟩
    have hlen : u.length = u'.length := hu.length_eq.symm.trans hu'.length_eq
    obtain ⟨-, rfl⟩ := List.append_inj heq hlen
    exact ht'
  · exact fun ht => ⟨u, t, rfl, hu, ht⟩

/-- A pattern behind a star matches more elements as well. -/
lemma Matches.of_suffix {is : List (Item α)} {s t : List α} (h : Matches (.star :: is) t)
    (hts : t <:+ s) : Matches (.star :: is) s := by
  obtain ⟨r, hr, hmatch⟩ := h
  exact ⟨r, hr.trans hts, hmatch⟩

/-- **A star can be forgotten** at the next one: items that fit at the start leave the rest of the
string to the second star. -/
lemma matches_star_ones_star {ps : List (α → Prop)} {u : List α} (hu : Fits ps u)
    {is : List (Item α)} {t : List α} :
    Matches (.star :: (ps.map .one ++ .star :: is)) (u ++ t) ↔ Matches (.star :: is) t := by
  constructor
  · rintro ⟨r, hr, hmatch⟩
    obtain ⟨u', t', rfl, hu', ht'⟩ := matches_ones_append.mp hmatch
    -- the items take as many elements wherever they match: what they leave is not longer than `t`
    have hlen : u'.length = u.length := hu'.length_eq.symm.trans hu.length_eq
    have hle := hr.length_le
    rw [List.length_append, List.length_append] at hle
    refine ht'.of_suffix (List.suffix_of_suffix_length_le ((List.suffix_append _ _).trans hr)
      (List.suffix_append _ _) ?_)
    omega
  · exact fun h => ⟨u ++ t, List.suffix_rfl, (matches_ones_append_iff hu).mpr h⟩

/-- **Where the items behind a star match**: at the start, or later. -/
lemma matches_star_cons {is : List (Item α)} {a : α} {s : List α} :
    Matches (.star :: is) (a :: s) ↔ Matches is (a :: s) ∨ Matches (.star :: is) s := by
  constructor
  · rintro ⟨r, hr, hmatch⟩
    rcases List.suffix_cons_iff.mp hr with rfl | hr
    · exact .inl hmatch
    · exact .inr ⟨r, hr, hmatch⟩
  · rintro (hmatch | hmatch)
    · exact ⟨a :: s, List.suffix_rfl, hmatch⟩
    · exact hmatch.of_suffix (List.suffix_cons _ _)

/-- Items that fit until the end of the string leave nothing to the rest. -/
lemma matches_star_ones_end {ps : List (α → Prop)} {u : List α} (hu : Fits ps u)
    {is : List (Item α)} : Matches (.star :: (ps.map .one ++ is)) u ↔ Matches is [] := by
  constructor
  · rintro ⟨r, hr, hmatch⟩
    obtain ⟨u', t', rfl, hu', ht'⟩ := matches_ones_append.mp hmatch
    have hlen : u'.length = u.length := hu'.length_eq.symm.trans hu.length_eq
    have hle := hr.length_le
    rw [List.length_append] at hle
    obtain rfl := List.eq_nil_of_length_eq_zero (l := t') (by omega)
    exact ht'
  · intro h
    refine ⟨u, List.suffix_rfl, matches_ones_append.mpr ⟨u, [], ?_, hu, h⟩⟩
    rw [List.append_nil]

/-- The patterns of the empty string are those of stars. -/
lemma matches_nil {is : List (Item α)} : Matches is [] ↔ ∀ i ∈ is, i = .star := by
  induction is with
  | nil => simp [Matches]
  | cons i is ih =>
    cases i with
    | star => simp [Matches, ih]
    | one p => simp [Matches]

/-- A star at the end matches everything. -/
lemma matches_star (s : List α) : Matches [.star] s := ⟨[], List.nil_suffix, rfl⟩

end Glob
