import Mathlib.Data.List.TakeWhile
import Mathlib.Order.Basic
import Mathlib.Tactic.Common

set_option relaxedAutoImplicit false
set_option autoImplicit false

/-!
# Backtracking matching of sequence patterns

The regular expressions without alternation in which every quantifier applies to a single
character class, with the meaning a backtracking engine gives them: a greedy repetition first
takes the longest run and gives characters back one by one, a possessive one never gives any
back. A match assigns to every atom of the pattern the piece of text it consumed; a capturing
group is a range of atoms.

## Main definitions

* `SeqPattern.Atom` — one position of a pattern; `SeqPattern.lits` — a literal word.
* `SeqPattern.matchAtoms` — the backtracking matcher, anchored at the start of the text.
* `SeqPattern.Pattern`, `SeqPattern.Pattern.exec`, `SeqPattern.Pattern.search` — a pattern with
  capturing groups, its match at the start of a text, and its first match in a text.
* `SeqPattern.leftmost` — where the first match is, for any matcher at the start of a text.

## Main results

* `SeqPattern.matchAtoms_lits` — a literal word matches exactly the texts that start with it.
* `SeqPattern.matchAtoms_many_one` — a repetition in front of a character it excludes stops at
  the first such character.
* `SeqPattern.matchAtoms_many_end`, `SeqPattern.matchAtoms_upto_last` — repetitions up to the end of
  the text and up to a closing character.
-/

namespace SeqPattern

variable {α : Type} [DecidableEq α]

/-- One atom of a pattern. A repetition takes as many as it can, and gives back some of them if the
rest does not match, unless it is possessive. -/
inductive Atom (α : Type) where
  /-- One character of a class. -/
  | one (p : α → Bool)
  /-- At least `min` characters of a class, as many as possible. -/
  | many (p : α → Bool) (min : ℕ) (possessive : Bool)
  /-- The end of the text. -/
  | textEnd
  /-- The end of the text, or the place before a line terminator that ends it. -/
  | lineEnd (terminator : α)

/-- The atoms of a literal word. -/
def lits (w : List α) : List (Atom α) := w.map fun a => .one (· = a)

/-- The first success of `f` on `n, n - 1, …, min`. -/
def longest {β : Type} (f : ℕ → Option β) (min : ℕ) : ℕ → Option β
  | 0 => if min = 0 then f 0 else none
  | n + 1 =>
    if n + 1 < min then none
    else match f (n + 1) with
      | some r => some r
      | none => longest f min n

/-- Match the atoms at the start of the text, with backtracking: the piece of text consumed by
each atom, for the first match in the order of the engine. -/
def matchAtoms : List (Atom α) → List α → Option (List (List α))
  | [], _ => some []
  | .one p :: as, s => match s with
    | [] => none
    | x :: s => if p x then (matchAtoms as s).map ([x] :: ·) else none
  | .many p min possessive :: as, s =>
    let run := (s.takeWhile p).length
    let attempt := fun n => (matchAtoms as (s.drop n)).map (s.take n :: ·)
    if possessive then if min ≤ run then attempt run else none
    else longest attempt min run
  | .textEnd :: as, s => if s = [] then (matchAtoms as s).map ([] :: ·) else none
  | .lineEnd t :: as, s =>
    if s = [] ∨ s = [t] then (matchAtoms as s).map ([] :: ·) else none

/-- A pattern: its atoms, and for each capturing group the first of its atoms and their number. -/
structure Pattern (α : Type) where
  /-- The atoms, in order. -/
  atoms : List (Atom α)
  /-- The capturing groups. -/
  groups : List (ℕ × ℕ)

/-- The groups captured by the match at the start of the text, if there is one. -/
def Pattern.exec (P : Pattern α) (s : List α) : Option (List (List α)) :=
  (matchAtoms P.atoms s).map fun ps => P.groups.map fun g => ((ps.drop g.1).take g.2).flatten

/-- The groups captured by the leftmost match in the text, if there is one. -/
def Pattern.search (P : Pattern α) : List α → Option (List (List α))
  | [] => P.exec []
  | x :: s => match P.exec (x :: s) with
    | some r => some r
    | none => P.search s

/-! ## The order of attempts -/

omit [DecidableEq α] in
/-- A success at `n` with failures above it is the result. -/
lemma longest_eq_some {β : Type} {f : ℕ → Option β} {min n N : ℕ} {r : β} (hmin : min ≤ n)
    (hN : n ≤ N) (hr : f n = some r) (habove : ∀ m, n < m → m ≤ N → f m = none) :
    longest f min N = some r := by
  induction N with
  | zero =>
    obtain rfl : n = 0 := by omega
    simp [longest, hr, Nat.le_zero.mp hmin]
  | succ N ih =>
    have hlt : ¬ N + 1 < min := by omega
    rcases Nat.lt_or_ge n (N + 1) with h | h
    · simp only [longest, if_neg hlt, habove (N + 1) h le_rfl]
      exact ih (by omega) fun m h1 h2 => habove m h1 (by omega)
    · obtain rfl : n = N + 1 := by omega
      simp [longest, hlt, hr]

omit [DecidableEq α] in
/-- A result is a success at some number within the bounds.

**Proof sketch.** By induction on the upper bound: the largest number is tried first, and then the
smaller ones. -/
lemma longest_some {β : Type} {f : ℕ → Option β} {min N : ℕ} {r : β}
    (h : longest f min N = some r) : ∃ n, min ≤ n ∧ n ≤ N ∧ f n = some r := by
  induction N with
  | zero =>
    by_cases hm : min = 0
    · exact ⟨0, by omega, le_rfl, by simpa [longest, hm] using h⟩
    · simp [longest, hm] at h
  | succ N ih =>
    by_cases hlt : N + 1 < min
    · simp [longest, hlt] at h
    · cases hf : f (N + 1) with
      | some r' =>
        simp only [longest, if_neg hlt, hf] at h
        exact ⟨N + 1, by omega, le_rfl, hf.trans h⟩
      | none =>
        simp only [longest, if_neg hlt, hf] at h
        obtain ⟨n, h1, h2, h3⟩ := ih h
        exact ⟨n, h1, by omega, h3⟩

omit [DecidableEq α] in
/-- Failures throughout give no result. -/
lemma longest_eq_none {β : Type} {f : ℕ → Option β} {min N : ℕ}
    (h : ∀ n, min ≤ n → n ≤ N → f n = none) : longest f min N = none := by
  rcases hl : longest f min N with _ | r
  · rfl
  · obtain ⟨n, h1, h2, h3⟩ := longest_some hl
    rw [h n h1 h2] at h3
    cases h3

/-- If only the longest attempt can succeed, the repetition is that attempt. -/
lemma longest_top {β : Type} {f : ℕ → Option β} {min N : ℕ}
    (h : ∀ n, n < N → f n = none) : longest f min N = if min ≤ N then f N else none := by
  by_cases hm : min ≤ N
  · rw [if_pos hm]
    cases hf : f N with
    | some r => exact longest_eq_some hm le_rfl hf fun m h1 h2 => by omega
    | none =>
      refine longest_eq_none fun n h1 h2 => ?_
      rcases Nat.lt_or_ge n N with hn | hn
      · exact h n hn
      · obtain rfl : n = N := by omega
        exact hf
  · rw [if_neg hm]
    exact longest_eq_none fun n h1 h2 => by omega

omit [DecidableEq α] in
/-- Without a result, every attempt within the bounds fails. -/
lemma eq_none_of_longest {β : Type} {f : ℕ → Option β} {min N n : ℕ}
    (h : longest f min N = none) (hmin : min ≤ n) (hN : n ≤ N) : f n = none := by
  induction N with
  | zero =>
    obtain rfl : n = 0 := by omega
    simpa [longest, Nat.le_zero.mp hmin] using h
  | succ N ih =>
    have hlt : ¬ N + 1 < min := by omega
    cases hf : f (N + 1) with
    | some r => simp [longest, hlt, hf] at h
    | none =>
      simp only [longest, if_neg hlt, hf] at h
      rcases Nat.lt_or_ge n (N + 1) with hn | hn
      · exact ih h (by omega)
      · obtain rfl : n = N + 1 := by omega
        exact hf

/-! ## Single atoms and literals -/

/-- The empty pattern matches everywhere and consumes nothing. -/
@[simp] lemma matchAtoms_nil (s : List α) : matchAtoms [] s = some [] := rfl

/-- One character, on a nonempty text. -/
@[simp] lemma matchAtoms_one_cons (p : α → Bool) (as : List (Atom α)) (x : α) (s : List α) :
    matchAtoms (.one p :: as) (x :: s) =
      if p x then (matchAtoms as s).map ([x] :: ·) else none := rfl

/-- One character, on the empty text. -/
@[simp] lemma matchAtoms_one_nil (p : α → Bool) (as : List (Atom α)) :
    matchAtoms (.one p :: as) [] = none := rfl

/-- A match has one piece for each atom.

**Proof sketch.** By induction on the atoms, each of which puts one piece in front of those of the
rest. -/
lemma matchAtoms_length {as : List (Atom α)} {s : List α} {ps : List (List α)}
    (h : matchAtoms as s = some ps) : ps.length = as.length := by
  induction as generalizing s ps with
  | nil =>
    obtain rfl := Option.some.inj h
    rfl
  | cons a as ih =>
    have hcons : ∀ (t w : List α), (matchAtoms as t).map (w :: ·) = some ps →
        ps.length = (a :: as).length := by
      intro t w hw
      obtain ⟨ps', hps', rfl⟩ := Option.map_eq_some_iff.mp hw
      rw [List.length_cons, List.length_cons, ih hps']
    cases a with
    | one p =>
      cases s with
      | nil => cases h
      | cons x s =>
        rw [matchAtoms_one_cons] at h
        split_ifs at h
        exact hcons _ _ h
    | many p min b =>
      rw [matchAtoms] at h
      split_ifs at h
      · exact hcons _ _ h
      · obtain ⟨n, _, _, hn⟩ := longest_some h
        exact hcons _ _ hn
    | textEnd =>
      rw [matchAtoms] at h
      split_ifs at h
      exact hcons _ _ h
    | lineEnd t =>
      rw [matchAtoms] at h
      split_ifs at h
      exact hcons _ _ h

/-- The pieces of a match follow one another from the start of the text.

**Proof sketch.** By induction on the atoms: an atom takes a piece off the front, and the others
match what is behind it. -/
lemma matchAtoms_prefix {as : List (Atom α)} {s : List α} {ps : List (List α)}
    (h : matchAtoms as s = some ps) : ps.flatten <+: s := by
  induction as generalizing s ps with
  | nil =>
    obtain rfl := Option.some.inj h
    exact List.nil_prefix
  | cons a as ih =>
    have hcons : ∀ n, (matchAtoms as (s.drop n)).map (s.take n :: ·) = some ps →
        ps.flatten <+: s := by
      intro n hn
      obtain ⟨ps', hps', rfl⟩ := Option.map_eq_some_iff.mp hn
      have hrest := (List.prefix_append_right_inj (s.take n)).mpr (ih hps')
      rwa [List.take_append_drop] at hrest
    have hend : (matchAtoms as s).map ([] :: ·) = some ps → ps.flatten <+: s := fun hn => by
      obtain ⟨ps', hps', rfl⟩ := Option.map_eq_some_iff.mp hn
      have hrest := ih hps'
      rwa [List.flatten_cons, List.nil_append]
    cases a with
    | one p =>
      cases s with
      | nil => cases h
      | cons x s =>
        rw [matchAtoms_one_cons] at h
        split_ifs at h
        exact hcons 1 h
    | many p min b =>
      rw [matchAtoms] at h
      split_ifs at h
      · exact hcons _ h
      · obtain ⟨n, _, _, hn⟩ := longest_some h
        exact hcons n hn
    | textEnd =>
      rw [matchAtoms] at h
      split_ifs at h
      exact hend h
    | lineEnd t =>
      rw [matchAtoms] at h
      split_ifs at h
      · exact hend h

/-- The end of the text. -/
lemma matchAtoms_textEnd (s : List α) :
    matchAtoms [.textEnd] s = if s = [] then some [[]] else none := rfl

/-- **A literal word** matches exactly the texts that start with it.

**Proof sketch.** By induction on the word: each of its letters is an atom that takes one element.
-/
lemma matchAtoms_lits (w : List α) (as : List (Atom α)) (s : List α) :
    matchAtoms (lits w ++ as) s =
      if w <+: s then (matchAtoms as (s.drop w.length)).map ((w.map ([·])) ++ ·) else none := by
  induction w generalizing s with
  | nil => simp [lits]
  | cons a w ih =>
    cases s with
    | nil => simp [lits]
    | cons x s =>
      have ih' := ih s
      simp only [lits] at ih'
      by_cases hx : x = a
      · subst hx
        simp only [lits, List.map_cons, List.cons_append, matchAtoms_one_cons, decide_true,
          if_true, ih', List.prefix_cons_inj, List.length_cons, List.drop_succ_cons]
        by_cases hw : w <+: s
        · simp [hw, Function.comp_def]
        · simp [hw]
      · have hne : ¬ (a :: w <+: x :: s) := fun h => hx (List.cons_prefix_cons.mp h).1.symm
        simp [lits, hx, hne]

/-! ## Repetitions -/

omit [DecidableEq α] in
/-- Taking as many characters as the run is long takes the run. -/
private lemma take_run (p : α → Bool) (s : List α) :
    s.take (s.takeWhile p).length = s.takeWhile p :=
  List.prefix_iff_eq_take.mp (List.takeWhile_prefix p) |>.symm

omit [DecidableEq α] in
/-- Dropping as many characters as the run is long leaves what follows the run. -/
private lemma drop_run (p : α → Bool) (s : List α) :
    s.drop (s.takeWhile p).length = s.dropWhile p := by
  have h : s.takeWhile p ++ s.drop (s.takeWhile p).length = s.takeWhile p ++ s.dropWhile p := by
    rw [List.takeWhile_append_dropWhile]
    nth_rewrite 1 [← take_run p s]
    exact List.take_append_drop _ s
  exact List.append_cancel_left h

omit [DecidableEq α] in
/-- Within the run, the next character belongs to the class. -/
private lemma drop_within_run {p : α → Bool} {s : List α} {n : ℕ}
    (h : n < (s.takeWhile p).length) : ∃ x s', p x = true ∧ s.drop n = x :: s' := by
  have hlen : n < s.length := lt_of_lt_of_le h (List.takeWhile_prefix p).length_le
  refine ⟨s[n], s.drop (n + 1), ?_, List.drop_eq_getElem_cons hlen⟩
  have hmem : (s.takeWhile p)[n] ∈ s.takeWhile p := List.getElem_mem h
  have hp := List.mem_takeWhile_imp hmem
  rwa [(List.takeWhile_prefix p).getElem h] at hp

/-- A repetition whose continuation fails wherever a character of the class is next takes the
whole run. -/
lemma matchAtoms_many_of_fails {p : α → Bool} {min : ℕ} {b : Bool} {as : List (Atom α)}
    (hfail : ∀ x s', p x = true → matchAtoms as (x :: s') = none) (s : List α) :
    matchAtoms (.many p min b :: as) s =
      if min ≤ (s.takeWhile p).length then
        (matchAtoms as (s.dropWhile p)).map (s.takeWhile p :: ·)
      else none := by
  cases b with
  | true => simp [matchAtoms, take_run, drop_run]
  | false =>
    simp only [matchAtoms, Bool.false_eq_true, if_false]
    rw [longest_top, take_run, drop_run]
    intro n hn
    obtain ⟨x, s', hx, hd⟩ := drop_within_run hn
    rw [hd, hfail x s' hx]
    rfl

/-- **A repetition in front of a character its class excludes** takes the whole run and then
that character. -/
lemma matchAtoms_many_one {p q : α → Bool} (hpq : ∀ x, p x = true → q x = false) {min : ℕ}
    {b : Bool} (as : List (Atom α)) (s : List α) :
    matchAtoms (.many p min b :: .one q :: as) s =
      if min ≤ (s.takeWhile p).length then
        (matchAtoms (.one q :: as) (s.dropWhile p)).map (s.takeWhile p :: ·)
      else none :=
  matchAtoms_many_of_fails (fun x s' hx => by simp [hpq x hx]) s

/-- **A nonempty piece up to a separator**: the text is cut at the first separator.

**Proof sketch.** The repetition takes all it can, since the separator is not in its class; so the
piece ends in front of the first separator. -/
lemma matchAtoms_upto {a : α} {b : Bool} {as : List (Atom α)} {s : List α}
    {r : List (List α)} :
    matchAtoms (.many (· ≠ a) 1 b :: .one (· = a) :: as) s = some r ↔
      ∃ l t r', s = l ++ a :: t ∧ l ≠ [] ∧ a ∉ l ∧ matchAtoms as t = some r' ∧
        r = l :: [a] :: r' := by
  rw [matchAtoms_many_one (fun x hx => by simpa using hx)]
  constructor
  · intro h
    split_ifs at h with hlen
    obtain ⟨r₁, hr₁, rfl⟩ := Option.map_eq_some_iff.mp h
    rcases hd : s.dropWhile (fun x => decide (x ≠ a)) with _ | ⟨x, t⟩
    · rw [hd] at hr₁
      cases hr₁
    · rw [hd, matchAtoms_one_cons] at hr₁
      split_ifs at hr₁ with hx
      obtain ⟨r', hr', rfl⟩ := Option.map_eq_some_iff.mp hr₁
      obtain rfl : x = a := by simpa using hx
      refine ⟨s.takeWhile (fun y => decide (y ≠ x)), t, r', ?_, ?_, ?_, hr', rfl⟩
      · rw [← hd, List.takeWhile_append_dropWhile]
      · intro hnil
        rw [hnil] at hlen
        simp at hlen
      · intro hmem
        simpa using List.mem_takeWhile_imp hmem
  · rintro ⟨l, t, r', rfl, hne, hl, hr', rfl⟩
    have hall : ∀ x ∈ l, (fun x => decide (x ≠ a)) x = true := by
      intro x hx
      simp only [decide_eq_true_eq]
      rintro rfl
      exact hl hx
    have htake : (l ++ a :: t).takeWhile (fun x => decide (x ≠ a)) = l := by
      rw [List.takeWhile_append_of_pos hall]
      simp
    have hdrop : (l ++ a :: t).dropWhile (fun x => decide (x ≠ a)) = a :: t := by
      rw [List.dropWhile_append_of_pos hall]
      simp
    have := List.length_pos_iff.mpr hne
    rw [htake, hdrop, if_pos (by omega), matchAtoms_one_cons]
    simp [hr']

/-- A possessive repetition takes the whole run, whatever follows. -/
lemma matchAtoms_many_possessive (p : α → Bool) (as : List (Atom α)) (s : List α) :
    matchAtoms (.many p 0 true :: as) s =
      (matchAtoms as (s.dropWhile p)).map (s.takeWhile p :: ·) := by
  simp [matchAtoms, take_run, drop_run]

/-- **A repetition that ends the pattern** takes the whole run. -/
lemma matchAtoms_many_end (p : α → Bool) (min : ℕ) (b : Bool) (s : List α) :
    matchAtoms [.many p min b] s =
      if min ≤ (s.takeWhile p).length then some [s.takeWhile p] else none := by
  cases b with
  | true => simp [matchAtoms, take_run]
  | false =>
    simp only [matchAtoms, Bool.false_eq_true, if_false, Option.map_some]
    by_cases h : min ≤ (s.takeWhile p).length
    · rw [if_pos h]
      exact longest_eq_some h le_rfl (by rw [take_run]) fun m h1 h2 => by omega
    · rw [if_neg h]
      exact longest_eq_none fun n h1 h2 => by omega

/-- A repetition whose continuation matches behind the whole run takes the whole run. -/
lemma matchAtoms_many_of_some {p : α → Bool} {as : List (Atom α)} {s : List α}
    {r : List (List α)} (h : matchAtoms as (s.dropWhile p) = some r) (b : Bool) :
    matchAtoms (.many p 0 b :: as) s = some (s.takeWhile p :: r) := by
  cases b with
  | true => simp [matchAtoms, take_run, drop_run, h]
  | false =>
    simp only [matchAtoms, Bool.false_eq_true, if_false]
    refine longest_eq_some (Nat.zero_le _) le_rfl ?_ fun m h1 h2 => by omega
    rw [take_run, drop_run, h]
    rfl

omit [DecidableEq α] in
/-- A run of a smaller class in front of a run of a larger one is a run of the larger one. -/
private lemma take_append_takeWhile {p q : α → Bool} (hpq : ∀ x, p x = true → q x = true)
    {s : List α} {n : ℕ} (hn : n ≤ (s.takeWhile p).length) :
    s.take n ++ (s.drop n).takeWhile q = s.takeWhile q := by
  have hq : ∀ x ∈ s.take n, q x = true := by
    intro x hx
    have hmem : x ∈ (s.takeWhile p).take n := by
      rwa [← take_run p s, List.take_take, Nat.min_eq_left hn]
    exact hpq x (List.mem_takeWhile_imp (List.mem_of_mem_take hmem))
  nth_rewrite 3 [← List.take_append_drop n s]
  rw [List.takeWhile_append_of_pos hq]

/-- **A repetition in front of one of a larger class**: together they take the run of the larger
class, which must not be empty. How they share it depends on backtracking.

**Proof sketch.** However many elements the first repetition takes, the second one takes the others
of the run, if one is left for it; the search finds such a number unless the run is empty. -/
lemma matchAtoms_many_many {p q : α → Bool} (hpq : ∀ x, p x = true → q x = true) (s : List α) :
    (matchAtoms [.many p 0 false, .many q 1 false] s).map List.flatten =
      if s.takeWhile q = [] then none else some (s.takeWhile q) := by
  have hattempt : ∀ n, n ≤ (s.takeWhile p).length →
      (matchAtoms [.many q 1 false] (s.drop n)).map (s.take n :: ·) =
        if 1 ≤ ((s.drop n).takeWhile q).length then
          some [s.take n, (s.drop n).takeWhile q] else none := by
    intro n _
    rw [matchAtoms_many_end]
    split_ifs <;> rfl
  rw [matchAtoms]
  simp only [Bool.false_eq_true, if_false]
  rcases hl : longest (fun n => (matchAtoms [.many q 1 false] (s.drop n)).map (s.take n :: ·)) 0
    (s.takeWhile p).length with _ | r
  · have h0 := eq_none_of_longest hl (Nat.zero_le 0) (Nat.zero_le _)
    rw [hattempt 0 (Nat.zero_le _), List.drop_zero] at h0
    have hnil : s.takeWhile q = [] := by
      by_contra hne
      have := List.length_pos_iff.mpr hne
      rw [if_pos (by omega)] at h0
      cases h0
    rw [if_pos hnil, Option.map_none]
  · obtain ⟨n, _, hn, hr⟩ := longest_some hl
    rw [hattempt n hn] at hr
    split_ifs at hr with hlen
    obtain rfl := Option.some.inj hr
    have hjoin := take_append_takeWhile hpq hn
    have hne : s.takeWhile q ≠ [] := by
      rw [← hjoin]
      intro hnil
      rw [(List.append_eq_nil_iff.mp hnil).2] at hlen
      simp at hlen
    rw [if_neg hne, Option.map_some, ← hjoin]
    simp

/-- A repetition up to the end of the text matches the texts made of its class only. -/
lemma matchAtoms_many_textEnd (p : α → Bool) (s : List α) :
    matchAtoms [.many p 0 false, .textEnd] s =
      if s.dropWhile p = [] then some [s.takeWhile p, []] else none := by
  rw [matchAtoms_many_of_fails (fun x s' _ => by simp [matchAtoms_textEnd])]
  by_cases h : s.dropWhile p = []
  · simp [h, matchAtoms_textEnd]
  · simp [h, matchAtoms_textEnd]

/-- **A repetition up to a closing character**: on a text without line terminators, everything
up to a last character `a` matches exactly when the text ends with `a`.

**Proof sketch.** The attempt at `n` succeeds exactly when the text from `n` on is `[a]`, so at
most one attempt succeeds, the one that leaves the last character. -/
lemma matchAtoms_upto_last {t a : α} (s : List α) (hs : t ∉ s) :
    matchAtoms [.many (· ≠ t) 0 false, .one (· = a), .lineEnd t] s =
      if s.getLast? = some a then some [s.dropLast, [a], []] else none := by
  have hattempt : ∀ n, matchAtoms [.one (· = a), .lineEnd t] (s.drop n) =
      if s.drop n = [a] then some [[a], []] else none := by
    intro n
    have hd : t ∉ s.drop n := fun h => hs (List.mem_of_mem_drop h)
    rcases hn : s.drop n with _ | ⟨x, _ | ⟨y, s'⟩⟩
    · simp
    · by_cases hx : x = a <;> simp [hx, matchAtoms]
    · have hy : y ≠ t := by rintro rfl; exact hd (by simp [hn])
      by_cases hx : x = a <;> simp [hx, hy, matchAtoms]
  have hrun : s.takeWhile (fun x => decide (x ≠ t)) = s := by
    rw [List.takeWhile_eq_self_iff]
    intro x hx
    simp only [decide_eq_true_eq]
    rintro rfl
    exact hs hx
  rw [matchAtoms]
  simp only [Bool.false_eq_true, if_false, hattempt, hrun]
  by_cases h : s.getLast? = some a
  · rw [if_pos h]
    obtain ⟨s', rfl⟩ : ∃ s', s = s' ++ [a] := by
      rw [List.getLast?_eq_some_iff] at h
      exact h
    refine longest_eq_some (n := s'.length) (Nat.zero_le _) (by simp) (by simp) ?_
    intro m h1 h2
    have hm : m = (s' ++ [a]).length := by simp at h2 ⊢; omega
    rw [hm, List.drop_length]
    simp
  · rw [if_neg h]
    refine longest_eq_none fun n _ _ => ?_
    have hne : s.drop n ≠ [a] := by
      intro hd
      apply h
      rw [← List.take_append_drop n s, hd]
      simp
    simp [hne]

/-! ## The text around a match -/

/-- All that an atom consumes has a property. -/
def Atom.Within {β : Type} (P : β → Prop) : Atom β → Prop
  | .one p => ∀ x, p x = true → P x
  | .many p _ _ => ∀ x, p x = true → P x
  | .textEnd => True
  | .lineEnd _ => True

/-- **What a match consists of**, if every atom consumes nothing else.

**Proof sketch.** By induction on the atoms: the piece of an atom consists of elements of its class,
or is empty. -/
lemma forall_of_matchAtoms {P : α → Prop} {as : List (Atom α)} (has : ∀ a ∈ as, a.Within P)
    {s : List α} {ps : List (List α)} (h : matchAtoms as s = some ps) : ∀ x ∈ ps.flatten, P x := by
  induction as generalizing s ps with
  | nil =>
    obtain rfl := Option.some.inj h
    simp
  | cons a as ih =>
    obtain ⟨ha, has⟩ := List.forall_mem_cons.mp has
    have hcons : ∀ t w, (∀ x ∈ w, P x) → (matchAtoms as t).map (w :: ·) = some ps →
        ∀ x ∈ ps.flatten, P x := by
      intro t w hw hmap
      obtain ⟨ps', hps', rfl⟩ := Option.map_eq_some_iff.mp hmap
      rw [List.flatten_cons]
      exact List.forall_mem_append.mpr ⟨hw, ih has hps'⟩
    cases a with
    | one p =>
      cases s with
      | nil => cases h
      | cons x s =>
        rw [matchAtoms_one_cons] at h
        split_ifs at h with hx
        exact hcons s [x] (by simpa using ha x hx) h
    | many p min b =>
      have hrun : ∀ n ≤ (s.takeWhile p).length, ∀ x ∈ s.take n, P x := by
        intro n hn x hx
        have hmem : x ∈ s.takeWhile p := by
          rw [← take_run p s]
          exact (List.take_prefix_take_left hn).subset hx
        exact ha x (List.mem_takeWhile_imp hmem)
      rw [matchAtoms] at h
      split_ifs at h
      · exact hcons _ _ (hrun _ le_rfl) h
      · obtain ⟨n, -, hn, hmap⟩ := longest_some h
        exact hcons _ _ (hrun n hn) hmap
    | textEnd =>
      rw [matchAtoms] at h
      split_ifs at h
      exact hcons s [] (by simp) h
    | lineEnd t =>
      rw [matchAtoms] at h
      split_ifs at h
      exact hcons s [] (by simp) h

/-- The first match in a text, by a matcher at the start of a text: what is in front of it, the
match, and what is behind it. -/
def leftmost {β : Type} (f : List β → Option (List β)) :
    List β → Option (List β × List β × List β)
  | [] => (f []).map fun m => ([], m, [])
  | x :: s => match f (x :: s) with
    | some m => some ([], m, (x :: s).drop m.length)
    | none => (leftmost f s).map fun r => (x :: r.1, r.2)

omit [DecidableEq α] in
/-- **The first match** is a match, and the text is what is in front of it, the match, and what is
behind it.

**Proof sketch.** By induction on the text: either the match begins here, and is a prefix, or the
search goes on one element further, which then is in front of the match. -/
lemma leftmost_eq_some {f : List α → Option (List α)} (hf : ∀ s m, f s = some m → m <+: s)
    {s l m r : List α} (h : leftmost f s = some (l, m, r)) :
    s = l ++ (m ++ r) ∧ f (m ++ r) = some m := by
  have hsplit : ∀ s m, f s = some m → m ++ s.drop m.length = s := by
    intro s m hm
    obtain ⟨t, rfl⟩ := hf s m hm
    rw [List.drop_left]
  induction s generalizing l with
  | nil =>
    obtain ⟨m', hm, heq⟩ := Option.map_eq_some_iff.mp h
    obtain ⟨rfl, rfl, rfl⟩ := heq
    obtain rfl := List.prefix_nil.mp (hf [] _ hm)
    exact ⟨rfl, hm⟩
  | cons x s ih =>
    rw [leftmost] at h
    split at h
    · rename_i m' hm
      obtain ⟨rfl, rfl, rfl⟩ := Option.some.inj h
      rw [hsplit _ _ hm]
      exact ⟨rfl, hm⟩
    · obtain ⟨⟨l', m', t⟩, hr, heq⟩ := Option.map_eq_some_iff.mp h
      obtain ⟨rfl, rfl, rfl⟩ := heq
      obtain ⟨hs, hm⟩ := ih hr
      exact ⟨congrArg (x :: ·) hs, hm⟩

end SeqPattern
