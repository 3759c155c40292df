import Mathlib.Data.List.Basic
import Mathlib.Order.Basic
import Mathlib.Tactic.Common

set_option relaxedAutoImplicit false
set_option autoImplicit false

/-!
# The lines of a stream

A stream of characters is cut at every terminator. What follows the last terminator is a line
of its own when it is not empty, as it is for a reader that reaches the end of its input.

## Main definitions

* `LineStream.lines` — the lines of a stream.
* `LineStream.Fits` — no line of a stream is longer than a bound.

## Main results

* `LineStream.lines_append_cons` — the first line, up to the first terminator.
* `LineStream.Fits.length_lt` — a piece without terminator in front of another character is
  shorter than the bound.
-/

namespace LineStream

variable {α : Type} [DecidableEq α]

/-- A list of pieces without its last piece, if that one is empty. -/
def dropEmptyLast (ps : List (List α)) : List (List α) :=
  if ps.getLast? = some [] then ps.dropLast else ps

/-- The lines of a stream: the pieces between terminators, and the unterminated rest if it is
not empty. -/
def lines (sep : α) (s : List α) : List (List α) := dropEmptyLast (s.splitOn sep)

/-- No line of the stream is longer than `n`. -/
def Fits (sep : α) (n : ℕ) (s : List α) : Prop := ∀ l ∈ lines sep s, l.length ≤ n

/-- A piece in front of others stays in front when an empty last piece is dropped. -/
lemma dropEmptyLast_cons {p : List α} {ps : List (List α)} (h : ps ≠ []) :
    dropEmptyLast (p :: ps) = p :: dropEmptyLast ps := by
  obtain ⟨q, qs, rfl⟩ := List.exists_cons_of_ne_nil h
  by_cases hl : (q :: qs).getLast? = some []
  · simp [dropEmptyLast, List.getLast?_cons_cons, hl]
  · simp [dropEmptyLast, List.getLast?_cons_cons, hl]

/-- **The first line** is what comes before the first terminator. -/
lemma lines_append_cons {sep : α} {l : List α} (h : sep ∉ l) (s : List α) :
    lines sep (l ++ sep :: s) = l :: lines sep s := by
  have hsplit : (l ++ sep :: s).splitOn sep = l :: s.splitOn sep := by
    rw [List.splitOn_append_cons_of_beq l s (beq_self_eq_true sep), List.splitOn_eq_singleton h,
      List.singleton_append]
  rw [lines, hsplit, dropEmptyLast_cons (List.splitOn_ne_nil _ _), lines]

/-- A stream without terminator is one line, if it is not empty. -/
lemma lines_of_notMem {sep : α} {l : List α} (h : sep ∉ l) :
    lines sep l = if l = [] then [] else [l] := by
  rw [lines, List.splitOn_eq_singleton h, dropEmptyLast]
  by_cases hl : l = []
  · simp [hl]
  · simp [hl]

/-- The empty stream has no line. -/
@[simp] lemma lines_nil (sep : α) : lines sep [] = [] := by
  rw [lines_of_notMem List.not_mem_nil, if_pos rfl]

/-- A piece without terminator at the start of a stream is no longer than the bound. -/
lemma Fits.length_le {sep : α} {n : ℕ} {l s : List α} (h : Fits sep n (l ++ s)) (hl : sep ∉ l) :
    l.length ≤ n := by
  by_cases hs : sep ∈ s
  · obtain ⟨s₁, s₂, rfl, hs₁⟩ := List.eq_append_cons_of_mem hs
    have hls : sep ∉ l ++ s₁ := by simp [hl, hs₁]
    rw [← List.append_assoc, Fits, lines_append_cons hls] at h
    have := h (l ++ s₁) List.mem_cons_self
    rw [List.length_append] at this
    omega
  · have hls : sep ∉ l ++ s := by simp [hl, hs]
    rw [Fits, lines_of_notMem hls] at h
    split_ifs at h with hnil
    · rw [(List.append_eq_nil_iff.mp hnil).1]
      exact Nat.zero_le _
    · have := h (l ++ s) List.mem_cons_self
      rw [List.length_append] at this
      omega

/-- **A piece in front of a character that is no terminator** is shorter than the bound. -/
lemma Fits.length_lt {sep : α} {n : ℕ} {l s : List α} {c : α} (h : Fits sep n (l ++ c :: s))
    (hl : sep ∉ l) (hc : c ≠ sep) : l.length < n := by
  rw [List.append_cons] at h
  have := h.length_le (by simp [hl, Ne.symm hc])
  rw [List.length_append, List.length_singleton] at this
  omega

/-- The bound holds of what follows the first line. -/
lemma Fits.of_append_cons {sep : α} {n : ℕ} {l s : List α} (h : Fits sep n (l ++ sep :: s))
    (hl : sep ∉ l) : Fits sep n s := by
  rw [Fits, lines_append_cons hl] at h
  exact fun x hx => h x (List.mem_cons_of_mem _ hx)

end LineStream
