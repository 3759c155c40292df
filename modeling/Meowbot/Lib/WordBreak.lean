import Mathlib.Data.List.Infix
import Mathlib.Data.List.Pairwise
import Mathlib.Tactic.Common

set_option relaxedAutoImplicit false
set_option autoImplicit false

/-!
# Words that are broken by separators

The occurrences of a word in a list are taken from the left to the right, each behind the one that
was taken before it. Separators are put into the list at some places. A word that no separator
touches stands in the result where it stood in the list and no separator came into it.

## Main definitions

* `WordBreak.found` — the leftmost occurrences that do not overlap.
* `WordBreak.OverlapsItself` — a word with a beginning that it ends with, too.
* `WordBreak.insertAt` — the list with separators at some places.
* `WordBreak.Clear` — a word that no separator touches.

## Main results

* `WordBreak.clear_pair` — the words that a separator of two elements does not touch.
* `WordBreak.infix_insertAt_iff` — the words that are left between the separators.
* `WordBreak.exists_mem_found` — every occurrence overlaps one that is taken, and starts in it.
-/

namespace WordBreak

variable {α : Type}

/-! ## Occurrences -/

/-- An infix is a prefix of what is left behind some place. -/
lemma infix_iff_exists_drop {v l : List α} : v <:+: l ↔ ∃ p, v <+: l.drop p := by
  constructor
  · rintro ⟨x, y, rfl⟩
    exact ⟨x.length, y, by simp⟩
  · rintro ⟨p, h⟩
    exact h.isInfix.trans (List.drop_suffix p l).isInfix

/-- A word that is not empty stands within the list. -/
lemma add_length_le {w t : List α} (hw : w ≠ []) {p : ℕ} (h : w <+: t.drop p) :
    p + w.length ≤ t.length := by
  have hlen := h.length_le
  have hpos := List.length_pos_iff.mpr hw
  rw [List.length_drop] at hlen
  omega

section Found

variable [DecidableEq α] (w t : List α)

/-- The places, out of those that are left, at which a word is taken: it stands there, and the word
taken before ends in front of it. -/
def foundFrom : ℕ → List ℕ → List ℕ
  | _, [] => []
  | next, p :: ps =>
    if next ≤ p ∧ w <+: t.drop p then p :: foundFrom (p + w.length) ps else foundFrom next ps

/-- **The places of the leftmost occurrences of a word** that do not overlap. -/
def found : List ℕ := foundFrom w t 0 (List.range (t.length + 1))

variable {w t}

/-- The word stands where it is taken, behind what was taken before. -/
lemma of_mem_foundFrom {next p : ℕ} {ps : List ℕ} (h : p ∈ foundFrom w t next ps) :
    p ∈ ps ∧ next ≤ p ∧ w <+: t.drop p := by
  induction ps generalizing next with
  | nil => exact absurd h List.not_mem_nil
  | cons a ps ih =>
    rw [foundFrom] at h
    split_ifs at h with htaken
    · obtain rfl | hmem := List.mem_cons.mp h
      · exact ⟨List.mem_cons_self, htaken⟩
      · obtain ⟨hps, hnext, hw⟩ := ih hmem
        exact ⟨List.mem_cons_of_mem a hps, by omega, hw⟩
    · obtain ⟨hps, hnext⟩ := ih h
      exact ⟨List.mem_cons_of_mem a hps, hnext⟩

/-- The words that are taken do not overlap. -/
lemma pairwise_foundFrom (next : ℕ) (ps : List ℕ) :
    (foundFrom w t next ps).Pairwise fun p q => p + w.length ≤ q := by
  induction ps generalizing next with
  | nil => exact List.Pairwise.nil
  | cons a ps ih =>
    rw [foundFrom]
    split_ifs
    · exact List.Pairwise.cons (fun q hq => (of_mem_foundFrom hq).2.1) (ih _)
    · exact ih _

/-- The word stands where it is taken. -/
lemma prefix_of_mem_found {p : ℕ} (h : p ∈ found w t) : w <+: t.drop p := (of_mem_foundFrom h).2.2

/-- A word that is taken ends within the list. -/
lemma le_of_mem_found {p : ℕ} (h : p ∈ found w t) : p + w.length ≤ t.length := by
  by_cases hw : w = []
  · have hp := List.mem_range.mp (of_mem_foundFrom h).1
    rw [hw, List.length_nil]
    omega
  · exact add_length_le hw (prefix_of_mem_found h)

/-- **The words that are taken do not overlap.** -/
lemma pairwise_found : (found w t).Pairwise fun p q => p + w.length ≤ q := pairwise_foundFrom _ _

/-- An occurrence at one of the places that are left, behind what was taken before, starts in one
that is taken.

**Proof sketch.** By induction on the places. The first one is taken if the word is there and behind
what was taken; then the occurrence starts in it, or it is one of the rest, behind it. -/
lemma exists_foundFrom {next p : ℕ} {ps : List ℕ} (hps : ps.Pairwise (· < ·)) (hp : p ∈ ps)
    (hnext : next ≤ p) (hw : w ≠ []) (h : w <+: t.drop p) :
    ∃ q ∈ foundFrom w t next ps, q ≤ p ∧ p < q + w.length := by
  induction ps generalizing next with
  | nil => exact absurd hp List.not_mem_nil
  | cons a ps ih =>
    obtain ⟨ha, hps⟩ := List.pairwise_cons.mp hps
    have hpos := List.length_pos_iff.mpr hw
    rw [foundFrom]
    obtain rfl | hmem := List.mem_cons.mp hp
    · rw [if_pos ⟨hnext, h⟩]
      exact ⟨p, List.mem_cons_self, le_rfl, by omega⟩
    · have hlt := ha p hmem
      split_ifs
      · by_cases hin : p < a + w.length
        · exact ⟨a, List.mem_cons_self, by omega, hin⟩
        · obtain ⟨q, hq, hle⟩ := ih hps hmem (by omega : a + w.length ≤ p)
          exact ⟨q, List.mem_cons_of_mem _ hq, hle⟩
      · exact ih hps hmem hnext

/-- **Every occurrence starts in one that is taken.** -/
lemma exists_mem_found {p : ℕ} (hw : w ≠ []) (h : w <+: t.drop p) :
    ∃ q ∈ found w t, q ≤ p ∧ p < q + w.length := by
  have hlen := add_length_le hw h
  exact exists_foundFrom List.pairwise_lt_range (List.mem_range.mpr (by omega)) (Nat.zero_le p) hw h

end Found

/-! ## Words that overlap themselves -/

/-- **A word overlaps itself**: it begins with what is left of it from some later place on. -/
def OverlapsItself (w : List α) : Prop := ∃ s, 0 < s ∧ s < w.length ∧ w.drop s <+: w

/-- The word stands where it overlaps another occurrence of it. -/
lemma overlapsItself_of_overlap {w t : List α} {p q : ℕ} (hq : w <+: t.drop q)
    (hp : w <+: t.drop p) (hqp : q < p) (hin : p < q + w.length) : OverlapsItself w := by
  refine ⟨p - q, by omega, by omega, ?_⟩
  have hdrop : w.drop (p - q) <+: t.drop p := by
    have h := hq.drop (p - q)
    rwa [List.drop_drop, Nat.add_sub_cancel' hqp.le] at h
  exact List.prefix_of_prefix_length_le hdrop hp (by simp)

/-- **Two occurrences that overlap**: only the first one is taken.

**Proof sketch.** The word is there at the start, so this occurrence is taken, and the second one
begins in it. What is taken does not overlap, so there is no other one. -/
lemma eq_zero_of_mem_found [DecidableEq α] {w : List α} {s p : ℕ} (hs : s < w.length)
    (h : w.drop s <+: w) (hp : p ∈ found w (w.take s ++ w)) : p = 0 := by
  have hw : w ≠ [] := List.ne_nil_of_length_pos (by omega)
  have hfirst : w <+: (w.take s ++ w).drop 0 := by
    obtain ⟨l, hl⟩ := h
    refine ⟨l, ?_⟩
    rw [List.drop_zero]
    conv_lhs => rw [← List.take_append_drop s w]
    rw [List.append_assoc, hl]
  obtain ⟨q, hq, hle, -⟩ := exists_mem_found hw hfirst
  obtain rfl : q = 0 := by omega
  have hlen := le_of_mem_found hp
  rw [List.length_append, List.length_take] at hlen
  by_contra hne
  have hapart : (found w (w.take s ++ w)).Pairwise fun p q =>
      p + w.length ≤ q ∨ q + w.length ≤ p := pairwise_found.imp .inl
  have : Std.Symm fun p q => p + w.length ≤ q ∨ q + w.length ≤ p := ⟨fun _ _ h => h.symm⟩
  have := hapart.forall hp hq hne
  omega

/-! ## Separators -/

/-- **The list from a place on, with a separator at each of some places.** -/
def insertAt (d t : List α) : ℕ → List ℕ → List α
  | i, [] => t.drop i
  | i, c :: cs => (t.drop i).take (c - i) ++ d ++ insertAt d t c cs

/-- The places of separators behind a place, from the left to the right. -/
structure Places (t : List α) (i : ℕ) (cs : List ℕ) : Prop where
  sorted : cs.Pairwise (· ≤ ·)
  ge : ∀ c ∈ cs, i ≤ c
  le : ∀ c ∈ cs, c ≤ t.length

/-- The places but the first. -/
lemma Places.tail {t : List α} {i c : ℕ} {cs : List ℕ} (h : Places t i (c :: cs)) :
    Places t c cs :=
  ⟨(List.pairwise_cons.mp h.sorted).2, (List.pairwise_cons.mp h.sorted).1,
    fun x hx => h.le x (List.mem_cons_of_mem c hx)⟩

/-- A function of the elements commutes with separators. -/
lemma map_insertAt {β : Type} (f : α → β) (d t : List α) (i : ℕ) (cs : List ℕ) :
    (insertAt d t i cs).map f = insertAt (d.map f) (t.map f) i cs := by
  induction cs generalizing i with
  | nil => simp [insertAt]
  | cons c cs ih => simp [insertAt, ih]

/-- Places counted from another one. -/
lemma insertAt_add (d t : List α) (p i : ℕ) (cs : List ℕ) :
    insertAt d t (p + i) (cs.map (p + ·)) = insertAt d (t.drop p) i cs := by
  induction cs generalizing i with
  | nil => simp [insertAt]
  | cons c cs ih =>
    rw [List.map_cons, insertAt, insertAt, ih, List.drop_drop, Nat.add_sub_add_left]

/-- The list up to a place and from there on, with separators behind it only. -/
lemma insertAt_eq_append (d t : List α) {i j : ℕ} {cs : List ℕ} (hij : i ≤ j)
    (hcs : ∀ c ∈ cs, j ≤ c) :
    insertAt d t i cs = (t.drop i).take (j - i) ++ insertAt d t j cs := by
  have hdrop : t.drop j = (t.drop i).drop (j - i) := by
    rw [List.drop_drop, Nat.add_sub_cancel' hij]
  cases cs with
  | nil => rw [insertAt, insertAt, hdrop, List.take_append_drop]
  | cons c cs =>
    have hc := hcs c List.mem_cons_self
    rw [insertAt, insertAt, ← List.append_assoc, ← List.append_assoc, hdrop, ← List.take_add,
      show j - i + (c - j) = c - i by omega]

/-- **Separators up to a place and from there on.** -/
lemma insertAt_append (d t : List α) {i j : ℕ} {ks cs : List ℕ} (hks : Places (t.take j) i ks)
    (hij : i ≤ j) (hcs : ∀ c ∈ cs, j ≤ c) :
    insertAt d t i (ks ++ cs) = insertAt d (t.take j) i ks ++ insertAt d t j cs := by
  induction ks generalizing i with
  | nil =>
    rw [List.nil_append, insertAt_eq_append d t hij hcs, insertAt, List.drop_take]
  | cons k ks ih =>
    have hk := hks.le k List.mem_cons_self
    rw [List.length_take] at hk
    rw [List.cons_append, insertAt, insertAt, ih hks.tail (by omega), List.drop_take,
      List.take_take, show min (k - i) (j - i) = k - i by omega]
    simp only [List.append_assoc]

/-- **Separators within a part of the list**, counted from where it begins, and behind it. -/
lemma insertAt_map_append (d t : List α) {p n : ℕ} {ks cs : List ℕ} (hp : p ≤ t.length)
    (hks : Places ((t.drop p).take n) 0 ks) (hcs : ∀ c ∈ cs, p + n ≤ c) :
    insertAt d t p (ks.map (p + ·) ++ cs) =
      insertAt d ((t.drop p).take n) 0 ks ++ insertAt d t (p + n) cs := by
  have hdrop : (t.take (p + n)).drop p = (t.drop p).take n := by
    rw [List.drop_take, Nat.add_sub_cancel_left]
  have hplaces : Places (t.take (p + n)) p (ks.map (p + ·)) := by
    refine ⟨hks.sorted.map _ fun a b hab => by omega, ?_, ?_⟩
    · simp
    · rintro _ hmem
      obtain ⟨k, hk, rfl⟩ := List.mem_map.mp hmem
      have hle := hks.le k hk
      simp only [List.length_take, List.length_drop] at hle ⊢
      omega
  rw [insertAt_append d t hplaces (Nat.le_add_right p n) hcs, ← hdrop]
  exact congrArg (· ++ _) (insertAt_add d (t.take (p + n)) p 0 ks)

/-- The places within some parts of one length that do not overlap.

**Proof sketch.** The places of one part come before those of the next, as the parts do not overlap;
and a word at a place of the text is one in its part, as far as the parts reach. -/
lemma places_flatMap {t : List α} {n i : ℕ} {ps : List ℕ} {K : ℕ → List ℕ}
    (hps : ps.Pairwise fun p q => p + n ≤ q) (hge : ∀ p ∈ ps, i ≤ p ∧ p + n ≤ t.length)
    (hK : ∀ p ∈ ps, Places ((t.drop p).take n) 0 (K p)) :
    Places t i (ps.flatMap fun p => (K p).map (p + ·)) := by
  have hle : ∀ p ∈ ps, ∀ k ∈ K p, k ≤ n := by
    intro p hp k hk
    have hlen := (hK p hp).le k hk
    rw [List.length_take] at hlen
    omega
  refine ⟨List.pairwise_flatMap.mpr ⟨fun p hp => ?_, ?_⟩, ?_, ?_⟩
  · exact (hK p hp).sorted.map _ fun a b hab => by omega
  · refine hps.imp_of_mem fun {p q} hp hq hpq => ?_
    simp only [List.forall_mem_map]
    intro a ha b _
    have := hle p hp a ha
    omega
  · simp only [List.mem_flatMap, List.mem_map]
    rintro _ ⟨p, hp, k, hk, rfl⟩
    have := hge p hp
    omega
  · simp only [List.mem_flatMap, List.mem_map]
    rintro _ ⟨p, hp, k, hk, rfl⟩
    have := hge p hp
    have := hle p hp k hk
    omega

/-- **A word that no separator touches.** -/
def Clear (d v : List α) : Prop := ∀ x y, v <:+: x ++ d ++ y → v <:+: x ∨ v <:+: y

/-- A word that ends in front of a separator of two elements, or comes into it, ends in front of it,
if it neither ends with the first nor holds both. -/
lemma eq_nil_of_prefix_pair {a b : α} {x t y : List α} (hlast : (x ++ t).getLast? ≠ some a)
    (hin : ¬ [a, b] <:+: x ++ t) (h : t <+: a :: b :: y) : t = [] := by
  match t, h with
  | [], _ => rfl
  | [c], h =>
    obtain rfl := (List.cons_prefix_cons.mp h).1
    exact absurd (by simp) hlast
  | c :: d :: t, h =>
    obtain ⟨rfl, hd⟩ := List.cons_prefix_cons.mp h
    obtain ⟨rfl, -⟩ := List.cons_prefix_cons.mp hd
    exact absurd ⟨x, t, by simp⟩ hin

/-- **A separator of two elements** touches no word that neither ends with the first, nor begins
with the second, nor holds both.

**Proof sketch.** By induction on what is in front. Where the separator begins in the word or ends
in it, one of its elements would be at an end of the word, which is excluded; otherwise it is apart
from the word. -/
lemma clear_pair {a b : α} {v : List α} (hlast : v.getLast? ≠ some a) (hhead : v.head? ≠ some b)
    (hin : ¬ [a, b] <:+: v) : Clear [a, b] v := by
  intro x y h
  induction x with
  | nil =>
    obtain h | h := List.infix_cons_iff.mp h
    · obtain rfl := eq_nil_of_prefix_pair (x := []) hlast hin h
      exact .inl List.nil_infix
    · obtain h | h := List.infix_cons_iff.mp h
      · match v, h with
        | [], _ => exact .inl List.nil_infix
        | c :: v, h =>
          obtain rfl := (List.cons_prefix_cons.mp h).1
          exact absurd rfl hhead
      · exact .inr h
  | cons c x ih =>
    obtain h | h := List.infix_cons_iff.mp h
    · have h : v <+: (c :: x) ++ ([a, b] ++ y) := by simpa using h
      obtain hv | ⟨t, rfl⟩ := List.prefix_or_prefix_of_prefix h (List.prefix_append (c :: x) _)
      · exact .inl hv.isInfix
      · have ht := (List.prefix_append_right_inj (c :: x)).mp h
        obtain rfl := eq_nil_of_prefix_pair hlast hin ht
        rw [List.append_nil]
        exact .inl (List.infix_refl _)
    · obtain h | h := ih h
      · exact .inl (h.trans (List.suffix_cons c x).isInfix)
      · exact .inr h

/-- A word between two places. -/
lemma infix_take_drop_iff {v t : List α} {i c : ℕ} (hic : i ≤ c) :
    v <:+: (t.drop i).take (c - i) ↔ ∃ p, i ≤ p ∧ v <+: t.drop p ∧ p + v.length ≤ c := by
  rw [infix_iff_exists_drop]
  constructor
  · rintro ⟨p, hp⟩
    rw [List.drop_take, List.drop_drop, List.prefix_take_iff] at hp
    by_cases hpc : p ≤ c - i
    · exact ⟨i + p, by omega, hp.1, by omega⟩
    · have hv : v = [] := List.length_eq_zero_iff.mp (by omega)
      subst hv
      exact ⟨i, le_rfl, List.nil_prefix, by simpa using hic⟩
  · rintro ⟨p, hip, hv, hlen⟩
    refine ⟨p - i, ?_⟩
    rw [List.drop_take, List.drop_drop, List.prefix_take_iff, Nat.add_sub_cancel' hip]
    exact ⟨hv, by omega⟩

/-- **The words that are left between the separators** are those that stood in the list with no
separator coming into them.

**Proof sketch.** A word in the result stands in front of the first separator or behind it. One that
stood in front of its place ends there, or the separator came into it. -/
lemma infix_insertAt_iff {d v t : List α} (hclear : Clear d v) {i : ℕ} {cs : List ℕ}
    (hcs : Places t i cs) :
    v <:+: insertAt d t i cs ↔
      ∃ p, i ≤ p ∧ v <+: t.drop p ∧ ∀ c ∈ cs, ¬ (p < c ∧ c < p + v.length) := by
  induction cs generalizing i with
  | nil =>
    rw [insertAt, infix_iff_exists_drop]
    constructor
    · rintro ⟨p, hp⟩
      rw [List.drop_drop] at hp
      exact ⟨i + p, by omega, hp, by simp⟩
    · rintro ⟨p, hip, hp, -⟩
      refine ⟨p - i, ?_⟩
      rwa [List.drop_drop, Nat.add_sub_cancel' hip]
  | cons c cs ih =>
    have hic := hcs.ge c List.mem_cons_self
    have hsplit : v <:+: insertAt d t i (c :: cs) ↔
        v <:+: (t.drop i).take (c - i) ∨ v <:+: insertAt d t c cs := by
      rw [insertAt]
      refine ⟨hclear _ _, ?_⟩
      rintro (h | h)
      · exact h.trans ((List.prefix_append _ _).trans (List.prefix_append _ _)).isInfix
      · exact h.trans (List.suffix_append _ _).isInfix
    rw [hsplit, infix_take_drop_iff hic, ih hcs.tail]
    constructor
    · rintro (⟨p, hip, hv, hlen⟩ | ⟨p, hcp, hv, hcs'⟩)
      · refine ⟨p, hip, hv, fun x hx => ?_⟩
        obtain rfl | hmem := List.mem_cons.mp hx
        · omega
        · have := hcs.tail.ge x hmem
          omega
      · refine ⟨p, by omega, hv, List.forall_mem_cons.mpr ⟨by omega, hcs'⟩⟩
    · rintro ⟨p, hip, hv, hall⟩
      obtain ⟨hc, hcs'⟩ := List.forall_mem_cons.mp hall
      by_cases hcp : c ≤ p
      · exact .inr ⟨p, hcp, hv, hcs'⟩
      · exact .inl ⟨p, hip, hv, by omega⟩

end WordBreak
