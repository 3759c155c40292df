import Mathlib.Data.List.Basic
import Mathlib.Tactic.Common

set_option relaxedAutoImplicit false
set_option autoImplicit false

/-!
# Folding a stream block by block

A compression function takes whole blocks of one size. A stream is fed to it in pieces of any
length; what does not fill a block waits for the next piece. How the stream is cut does not matter.

## Main definitions

* `BlockFold.blocks` — a number of blocks from the front of a list.
* `BlockFold.whole`, `BlockFold.rest` — all the blocks of a list; what is left behind them.
* `BlockFold.feed` — a piece of the stream, behind what is waiting.

## Main results

* `BlockFold.feed_append` — how the stream is cut does not matter.
* `BlockFold.feed_of_lt`, `BlockFold.feed_fill` — the cases of an implementation with a buffer of
  one block.
-/

namespace BlockFold

variable {σ α : Type} (n : ℕ) (f : σ → List α → σ)

/-- The compression function on `k` blocks from the front of a list. -/
def blocks : ℕ → σ → List α → σ
  | 0, s, _ => s
  | k + 1, s, l => blocks k (f s (l.take n)) (l.drop n)

/-- The compression function on all the blocks of a list. -/
def whole (s : σ) (l : List α) : σ := blocks n f (l.length / n) s l

/-- What a list leaves behind its last block. -/
def rest (l : List α) : List α := l.drop (n * (l.length / n))

/-- A piece of the stream behind what is waiting: the state, and what waits then. -/
def feed (s : σ × List α) (l : List α) : σ × List α :=
  (whole n f s.1 (s.2 ++ l), rest n (s.2 ++ l))

variable {n} {f}

/-! ## Blocks -/

/-- What waits is shorter than a block. -/
lemma length_rest_lt (hn : 0 < n) (l : List α) : (rest n l).length < n := by
  have h1 := Nat.div_add_mod l.length n
  have h2 := Nat.mod_lt l.length hn
  rw [rest, List.length_drop]
  omega

/-- Less than a block waits as it is. -/
lemma rest_of_lt {l : List α} (h : l.length < n) : rest n l = l := by
  rw [rest, Nat.div_eq_of_lt h, Nat.mul_zero, List.drop_zero]

/-- Some blocks, and then some more. -/
lemma blocks_add (j k : ℕ) (s : σ) (l : List α) :
    blocks n f (j + k) s l = blocks n f k (blocks n f j s l) (l.drop (n * j)) := by
  induction j generalizing s l with
  | zero => rw [Nat.zero_add, blocks, Nat.mul_zero, List.drop_zero]
  | succ j ih =>
    rw [Nat.succ_add, blocks, blocks, ih, List.drop_drop]
    congr 2
    rw [Nat.mul_succ, Nat.add_comm]

/-- Blocks do not see what is behind them. -/
lemma blocks_append (k : ℕ) (s : σ) {l : List α} (l' : List α) (h : n * k ≤ l.length) :
    blocks n f k s (l ++ l') = blocks n f k s l := by
  induction k generalizing s l with
  | zero => rfl
  | succ k ih =>
    have hn : n ≤ l.length := Nat.le_trans (Nat.le_mul_of_pos_right n k.succ_pos) h
    rw [blocks, blocks, List.take_append_of_le_length hn, List.drop_append_of_le_length hn]
    apply ih
    rw [List.length_drop, Nat.le_sub_iff_add_le hn]
    exact h

/-- One block. -/
lemma whole_block (hn : 0 < n) (s : σ) {l : List α} (h : l.length = n) : whole n f s l = f s l := by
  rw [whole, h, Nat.div_self hn, blocks, blocks, ← h, List.take_length]

/-- How many blocks two lists have. -/
lemma length_append_div (hn : 0 < n) (l l' : List α) :
    (l ++ l').length / n = l.length / n + (rest n l ++ l').length / n := by
  have hle : n * (l.length / n) ≤ l.length := Nat.mul_div_le _ _
  rw [Nat.add_comm, ← Nat.add_mul_div_left _ _ hn, List.length_append, List.length_append, rest,
    List.length_drop]
  congr 1
  omega

/-- The blocks of a list in front, and those of the rest with what follows. -/
lemma whole_append (hn : 0 < n) (s : σ) (l l' : List α) :
    whole n f s (l ++ l') = whole n f (whole n f s l) (rest n l ++ l') := by
  have hle : n * (l.length / n) ≤ l.length := Nat.mul_div_le _ _
  rw [whole, length_append_div hn, blocks_add, blocks_append _ _ _ hle, List.drop_append_of_le_length hle]
  rfl

/-- What waits behind two lists depends on what waits behind the first. -/
lemma rest_append (hn : 0 < n) (l l' : List α) : rest n (l ++ l') = rest n (rest n l ++ l') := by
  have hle : n * (l.length / n) ≤ l.length := Nat.mul_div_le _ _
  rw [rest, length_append_div hn, Nat.mul_add, ← List.drop_drop, List.drop_append_of_le_length hle]
  rfl

/-! ## Pieces of a stream -/

/-- **Two pieces** are fed as one. -/
lemma feed_append (hn : 0 < n) (s : σ × List α) (l l' : List α) :
    feed n f (feed n f s l) l' = feed n f s (l ++ l') := by
  rw [feed, feed, feed, ← List.append_assoc, ← whole_append hn, ← rest_append hn]

/-- A piece that does not fill the block waits. -/
lemma feed_of_lt (s : σ) (p : List α) {l : List α} (h : p.length + l.length < n) :
    feed n f (s, p) l = (s, p ++ l) := by
  have hlt : (p ++ l).length < n := by rwa [List.length_append]
  rw [feed, rest_of_lt hlt, whole, Nat.div_eq_of_lt hlt]
  rfl

/-- A piece that fills the block: the block, and what is behind it. -/
lemma feed_fill (hn : 0 < n) (s : σ) {p l : List α} (l' : List α) (h : p.length + l.length = n) :
    feed n f (s, p) (l ++ l') = feed n f (f s (p ++ l), []) l' := by
  have hlen : (p ++ l).length = n := by rwa [List.length_append]
  have hrest : rest n (p ++ l) = [] := by
    rw [rest, hlen, Nat.div_self hn, Nat.mul_one, ← hlen, List.drop_length]
  have hfeed : feed n f (s, p) l = (f s (p ++ l), []) := by rw [feed, whole_block hn _ hlen, hrest]
  rw [← feed_append hn, hfeed]

end BlockFold
