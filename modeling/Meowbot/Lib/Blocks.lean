import Mathlib.Data.List.Basic
import Mathlib.Tactic.Common

set_option relaxedAutoImplicit false
set_option autoImplicit false

/-!
# Blocks of memory

A block is a list. Some of it is read, written or moved by its place and its length; there is no
result where this leaves the block. The block is also looked at as cells of one size.

## Main definitions

* `Blocks.read`, `Blocks.write`, `Blocks.move` — the operations.
* `Blocks.cells` — the first cells of a block.

## Main results

* `Blocks.getElem?_write`, `Blocks.getElem?_move` — what is at a place afterwards.
* `Blocks.cells_eq_eraseIdx` — a cell is taken out by moving the ones behind it.
-/

namespace Blocks

variable {α : Type}

/-! ## The operations -/

/-- A part of a block. -/
def read (b : List α) (pos len : ℕ) : Option (List α) :=
  if pos + len ≤ b.length then some ((b.drop pos).take len) else none

/-- A part of a block is overwritten. -/
def write (b : List α) (pos : ℕ) (data : List α) : Option (List α) :=
  if pos + data.length ≤ b.length then
    some (b.take pos ++ data ++ b.drop (pos + data.length))
  else none

/-- A part of a block is copied to another place, that may overlap with it. -/
def move (b : List α) (dst src len : ℕ) : Option (List α) := (read b src len).bind (write b dst)

/-- What was read is as long as it should be. -/
lemma length_of_read {b d : List α} {pos len : ℕ} (h : read b pos len = some d) :
    d.length = len := by
  rw [read] at h
  split_ifs at h with hin
  obtain rfl := Option.some.inj h
  rw [List.length_take, List.length_drop]
  omega

/-- An element of what was read. -/
lemma getElem?_read {b d : List α} {pos len : ℕ} (h : read b pos len = some d) {i : ℕ}
    (hi : i < len) : d[i]? = b[pos + i]? := by
  rw [read] at h
  split_ifs at h
  obtain rfl := Option.some.inj h
  rw [List.getElem?_take_of_lt hi, List.getElem?_drop]

/-- A write in the block has a result. -/
lemma exists_write {b data : List α} {pos : ℕ} (h : pos + data.length ≤ b.length) :
    ∃ b', write b pos data = some b' := ⟨_, if_pos h⟩

/-- A block keeps its length. -/
lemma length_write {b b' data : List α} {pos : ℕ} (h : write b pos data = some b') :
    b'.length = b.length := by
  rw [write] at h
  split_ifs at h
  obtain rfl := Option.some.inj h
  simp only [List.length_append, List.length_take, List.length_drop]
  omega

/-- **An element after a write**: it is new where the block was written, and the old one
elsewhere. -/
lemma getElem?_write {b b' data : List α} {pos : ℕ} (h : write b pos data = some b') (i : ℕ) :
    b'[i]? = if pos ≤ i ∧ i < pos + data.length then data[i - pos]? else b[i]? := by
  rw [write] at h
  split_ifs at h with hin
  obtain rfl := Option.some.inj h
  have htake : (b.take pos).length = pos := by
    rw [List.length_take]
    omega
  rw [List.append_assoc]
  by_cases hbefore : i < pos
  · rw [List.getElem?_append_left (by omega), List.getElem?_take_of_lt hbefore, if_neg (by omega)]
  · rw [List.getElem?_append_right (by omega), htake]
    by_cases hbehind : i < pos + data.length
    · rw [List.getElem?_append_left (by omega), if_pos (by omega)]
    · rw [List.getElem?_append_right (by omega), List.getElem?_drop, if_neg (by omega)]
      congr 1
      omega

/-- **A write behind a prefix** makes it longer. -/
lemma exists_write_prefix {b p data : List α} (hp : p <+: b)
    (h : p.length + data.length ≤ b.length) :
    ∃ b', write b p.length data = some b' ∧ b'.length = b.length ∧ p ++ data <+: b' := by
  obtain ⟨t, rfl⟩ := hp
  obtain ⟨b', hb'⟩ := exists_write h
  refine ⟨b', hb', length_write hb', ?_⟩
  rw [write, if_pos h, List.take_left] at hb'
  exact ⟨_, Option.some.inj hb'⟩

/-- A move in the block has a result. -/
lemma exists_move {b : List α} {dst src len : ℕ} (hdst : dst + len ≤ b.length)
    (hsrc : src + len ≤ b.length) : ∃ b', move b dst src len = some b' := by
  have hread : read b src len = some ((b.drop src).take len) := if_pos hsrc
  rw [move, hread, Option.bind_some]
  apply exists_write
  rw [length_of_read hread]
  exact hdst

/-- **An element after a move**: in the part that was written it is the one at its place in the
part that was read. -/
lemma getElem?_move {b b' : List α} {dst src len : ℕ} (h : move b dst src len = some b') (i : ℕ) :
    b'.length = b.length ∧
      b'[i]? = if dst ≤ i ∧ i < dst + len then b[src + (i - dst)]? else b[i]? := by
  obtain ⟨d, hread, hwrite⟩ := Option.bind_eq_some_iff.mp h
  refine ⟨length_write hwrite, ?_⟩
  rw [getElem?_write hwrite, length_of_read hread]
  split_ifs with hin
  · exact getElem?_read hread (by omega)
  · rfl

/-! ## Cells -/

/-- The first cells of a block, each of the size `k`. -/
def cells (k : ℕ) (b : List α) (n : ℕ) : List (List α) :=
  (List.range n).map fun i => (b.drop (k * i)).take k

/-- The number of cells. -/
@[simp] lemma length_cells (k : ℕ) (b : List α) (n : ℕ) : (cells k b n).length = n := by
  simp [cells]

/-- A cell. -/
lemma getElem?_cells {k n i : ℕ} (b : List α) (hi : i < n) :
    (cells k b n)[i]? = some ((b.drop (k * i)).take k) := by
  simp [cells, hi]

/-- The cells in a block can be read. -/
lemma read_cell {k n i : ℕ} {b : List α} (hi : i < n) (hlen : k * n ≤ b.length) :
    read b (k * i) k = some ((b.drop (k * i)).take k) := by
  have hcell : k * i + k ≤ k * n := by
    rw [← Nat.mul_succ]
    exact Nat.mul_le_mul_left k hi
  exact if_pos (by omega)

/-- Some of the cells in a block are read. -/
lemma mapM_read {k n : ℕ} {b : List α} (hlen : k * n ≤ b.length) {is : List ℕ}
    (his : ∀ i ∈ is, i < n) :
    is.mapM (fun i => read b (k * i) k) = some (is.map fun i => (b.drop (k * i)).take k) := by
  induction is with
  | nil => rfl
  | cons i is ih =>
    obtain ⟨hi, his⟩ := List.forall_mem_cons.mp his
    rw [List.mapM_cons, read_cell hi hlen, ih his]
    rfl

/-- **Cells are overwritten** one after the other. -/
lemma exists_foldlM_write {k n : ℕ} {b : List α} (hlen : k * n ≤ b.length) {data : List α}
    (hdata : data.length = k) {is : List ℕ} (his : ∀ i ∈ is, i < n) :
    ∃ b', is.foldlM (fun b i => write b (k * i) data) b = some b' ∧ b'.length = b.length := by
  induction is generalizing b with
  | nil => exact ⟨b, rfl, rfl⟩
  | cons i is ih =>
    obtain ⟨hi, his⟩ := List.forall_mem_cons.mp his
    have hcell : k * (i + 1) ≤ k * n := Nat.mul_le_mul_left k hi
    rw [Nat.mul_succ] at hcell
    obtain ⟨b₁, hb₁⟩ := @exists_write _ b data (k * i) (by omega)
    have hlen₁ := length_write hb₁
    obtain ⟨b₂, hb₂, hlen₂⟩ := ih (hlen₁ ▸ hlen) his
    refine ⟨b₂, ?_, hlen₂.trans hlen₁⟩
    rw [List.foldlM_cons, hb₁]
    exact hb₂

/-- **Two cells are the same** if their elements are. -/
lemma cell_congr {k i j : ℕ} {b b' : List α} (h : ∀ m < k, b'[k * i + m]? = b[k * j + m]?) :
    (b'.drop (k * i)).take k = (b.drop (k * j)).take k := by
  ext m : 1
  by_cases hm : m < k
  · rw [List.getElem?_take_of_lt hm, List.getElem?_take_of_lt hm, List.getElem?_drop,
      List.getElem?_drop, h m hm]
  · rw [List.getElem?_take_eq_none (by omega), List.getElem?_take_eq_none (by omega)]

/-- Two blocks have the same cells if they agree on them. -/
lemma cells_congr {k n : ℕ} {b b' : List α} (h : ∀ i < k * n, b'[i]? = b[i]?) :
    cells k b' n = cells k b n := by
  apply List.map_congr_left
  intro i hi
  have hle : k * (i + 1) ≤ k * n := Nat.mul_le_mul_left k (List.mem_range.mp hi)
  rw [Nat.mul_succ] at hle
  exact cell_congr fun m hm => h _ (by omega)

/-- **A cell is taken out**: the cells in front of it stay, and each of the others is the one behind
its place.

**Proof sketch.** Cell by cell: in front of the place all bytes are the same, and behind it each
byte is the one that was one cell further. -/
lemma cells_eq_eraseIdx {k n j : ℕ} {b b' : List α} (hj : j < n)
    (hfront : ∀ i < k * j, b'[i]? = b[i]?)
    (hbehind : ∀ i, k * j ≤ i → i < k * (n - 1) → b'[i]? = b[i + k]?) :
    cells k b' (n - 1) = (cells k b n).eraseIdx j := by
  ext i : 1
  by_cases hi : i < n - 1
  · have hle : k * (i + 1) ≤ k * (n - 1) := Nat.mul_le_mul_left k hi
    rw [getElem?_cells b' hi, List.getElem?_eraseIdx]
    rw [Nat.mul_succ] at hle
    split_ifs with hlt
    · have hle' : k * (i + 1) ≤ k * j := Nat.mul_le_mul_left k hlt
      rw [Nat.mul_succ] at hle'
      rw [getElem?_cells b (by omega)]
      exact congrArg some (cell_congr fun m hm => hfront _ (by omega))
    · have hge : k * j ≤ k * i := Nat.mul_le_mul_left k (by omega)
      rw [getElem?_cells b (by omega)]
      refine congrArg some (cell_congr fun m hm => ?_)
      rw [hbehind _ (by omega) (by omega), Nat.mul_succ]
      congr 1
      omega
  · rw [List.getElem?_eq_none (by simpa using hi), List.getElem?_eq_none]
    rw [List.length_eraseIdx, length_cells, if_pos hj]
    omega

end Blocks
