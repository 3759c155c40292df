import Meowbot.Basic
import Meowbot.Lib.Blocks

set_option relaxedAutoImplicit false
set_option autoImplicit false

/-!
# Lists of pointers (`etc.h`)

A `pobj_vector` holds pointers, one behind the other, but its memory is allocated and moved in units
of the size of what they point to. This model of it has no result where the source would read or
write outside of its memory. Locking is left out.

## Main definitions

* `Meowbot.ElemType` — the size of an element and that of a pointer.
* `Meowbot.Realloc` — an allocator.
* `Meowbot.PobjVector` — a list in memory; `Meowbot.PobjVector.ptrs` — its pointers.
* `Meowbot.PobjVector.resize`, `Meowbot.PobjVector.removeById`.

## Main results

* `Meowbot.PobjVector.resize_shrink` — a list of null pointers at the end is cut off.
* `Meowbot.PobjVector.removeById_eq_eraseIdx` — removing a pointer stays in the memory and takes it
  out of the list.
-/

namespace Meowbot

/-! ## Memory -/

/-- **The type of the elements**: `sizeof(T)`, and `sizeof(T *)`, which is not larger. -/
structure ElemType where
  /-- `sizeof(T)` -/
  size : ℕ
  /-- `sizeof(T *)` -/
  ptrSize : ℕ
  ptrSize_pos : 0 < ptrSize
  ptrSize_le : ptrSize ≤ size

/-- `NULL` -/
def ElemType.null (T : ElemType) : Bytes := List.replicate T.ptrSize 0

/-- Is a pointer `NULL`? -/
def isNull (ptr : Bytes) : Bool := ptr.all fun c => c = 0

/-- **An allocator**: `realloc` gives a block of the size it was asked for, which begins as the old
one does, or none. `NULL` is a block without bytes. -/
structure Realloc where
  /-- `realloc` -/
  run : Bytes → ℕ → Option Bytes
  length_eq : ∀ {b b' : Bytes} {k : ℕ}, run b k = some b' → b'.length = k
  getElem?_eq : ∀ {b b' : Bytes} {k : ℕ}, run b k = some b' →
    ∀ i, i < b.length → i < k → b'[i]? = b[i]?

/-- A block can be made smaller. -/
def Realloc.Shrinks (realloc : Realloc) : Prop :=
  ∀ b k, 0 < k → k ≤ b.length → ∃ b', realloc.run b k = some b'

/-- What is done besides the change of the list. -/
inductive PlistEvent
  /-- `delete` -/
  | delete (ptr : Bytes)
  /-- The message of `resize` for a pointer that is dropped. -/
  | bugFound
  /-- The message of `resize` for a failed `realloc`. -/
  | fatal

/-! ## The source -/

/-- `pobj_vector`: `plist` is none for `NULL`. -/
structure PobjVector where
  size : ℕ
  plist : Option Bytes

namespace PobjVector

variable (T : ElemType)

/-- The pointers from one place up to another are read, and the ones that are not `NULL` are
kept. -/
def readPtrs (b : Bytes) (i n : ℕ) : Option (List Bytes) :=
  ((List.range' i (n - i)).mapM fun i => Blocks.read b (T.ptrSize * i) T.ptrSize).map
    fun ptrs => ptrs.filter fun ptr => !isNull ptr

/-- `pobj_vector::clear` -/
def clear (v : PobjVector) : Option (PobjVector × List PlistEvent) :=
  match v.plist with
  | none => some (⟨0, none⟩, [])
  | some b => (readPtrs T b 0 v.size).map fun ptrs => (⟨0, none⟩, ptrs.map .delete)

/-- The pointers behind the new end that `resize` finds. -/
def dropped (v : PobjVector) (newsize : ℕ) : Option (List Bytes) :=
  if newsize < v.size then v.plist.bind fun b => readPtrs T b newsize v.size else some []

/-- The places behind the old end are `NULL`. -/
def fillNull (b : Bytes) (size newsize : ℕ) : Option Bytes :=
  if newsize > size then
    (List.range' size (newsize - size)).foldlM
      (fun b i => Blocks.write b (T.ptrSize * i) T.null) b
  else some b

/-- `pobj_vector::resize`, with the result, the vector, and the bugs and errors that are logged.
Objects that are still in the part that is cut off are reported; if the allocator fails the vector
is empty. -/
def resize (realloc : Realloc) (v : PobjVector) (newsize : ℕ) :
    Option (Bool × PobjVector × List PlistEvent) :=
  if newsize = v.size then some (true, v, [])
  else if newsize = 0 then (clear T v).map fun r => (true, r)
  else (dropped T v newsize).bind fun ptrs =>
    let bugs := ptrs.map fun _ => PlistEvent.bugFound
    match realloc.run (v.plist.getD []) (T.size * newsize) with
    | none => some (false, ⟨0, none⟩, bugs ++ [.fatal])
    | some b => (fillNull T b v.size newsize).map fun b => (true, ⟨newsize, some b⟩, bugs)

/-- The `memmove` of `remove_by_id`, and the `NULL` behind it. -/
def moveDown (b : Bytes) (size n : ℕ) : Option Bytes :=
  (if n < size then
    Blocks.move b (T.ptrSize * n) (T.ptrSize * (n + 1)) (T.size * (size - 1 - n))
  else some b).bind fun b => Blocks.write b (T.ptrSize * (size - 1)) T.null

/-- `pobj_vector::remove_by_id` -/
def removeById (realloc : Realloc) (v : PobjVector) (n : Int32) :
    Option (Bool × PobjVector × List PlistEvent) :=
  if n.toInt < 0 ∨ n.toInt.toNat ≥ v.size then some (false, v, [])
  else
    (v.plist.bind fun b => moveDown T b v.size n.toInt.toNat).bind fun b =>
      (resize T realloc { v with plist := some b } (v.size - 1)).map fun r => (true, r.2)

/-! ## The list in memory -/

/-- **A list in memory**: the block has room for `size` elements. -/
structure InMemory (v : PobjVector) : Prop where
  size_eq : v.plist = none → v.size = 0
  length_eq : ∀ b, v.plist = some b → b.length = T.size * v.size

/-- The pointers of a list. -/
def ptrs (v : PobjVector) : List Bytes := Blocks.cells T.ptrSize (v.plist.getD []) v.size

variable {T}

/-- The pointers lie in the memory. -/
lemma ptrSize_mul_le {b : Bytes} {n : ℕ} (h : b.length = T.size * n) : T.ptrSize * n ≤ b.length :=
  h ▸ Nat.mul_le_mul_right n T.ptrSize_le

/-- **The pointers are read** in the memory. -/
lemma readPtrs_eq {b : Bytes} {n : ℕ} (hlen : T.ptrSize * n ≤ b.length) (i : ℕ) :
    readPtrs T b i n =
      some (((List.range' i (n - i)).map fun j =>
        (b.drop (T.ptrSize * j)).take T.ptrSize).filter fun ptr => !isNull ptr) := by
  have hin : ∀ j ∈ List.range' i (n - i), j < n := by
    intro j hj
    rw [List.mem_range'_1] at hj
    omega
  have hread := Blocks.mapM_read hlen hin
  rw [readPtrs, hread, Option.map_some]

/-- The pointers that are `NULL` are left out. -/
lemma readPtrs_eq_nil {b : Bytes} {i n : ℕ} (hlen : T.ptrSize * n ≤ b.length)
    (hnull : ∀ j, i ≤ j → j < n → isNull ((b.drop (T.ptrSize * j)).take T.ptrSize)) :
    readPtrs T b i n = some [] := by
  rw [readPtrs_eq hlen, List.filter_eq_nil_iff.mpr]
  intro ptr hptr
  obtain ⟨j, hj, rfl⟩ := List.mem_map.mp hptr
  rw [List.mem_range'_1] at hj
  simp [hnull j hj.1 (by omega)]

/-- **The new places** lie in the new block. -/
lemma exists_fillNull {b : Bytes} {newsize : ℕ} (hlen : b.length = T.size * newsize) (size : ℕ) :
    ∃ b', fillNull T b size newsize = some b' ∧ b'.length = T.size * newsize := by
  rw [fillNull]
  split_ifs
  · have hin : ∀ i ∈ List.range' size (newsize - size), i < newsize := by
      intro i hi
      rw [List.mem_range'_1] at hi
      omega
    obtain ⟨b', hb', hlen'⟩ := Blocks.exists_foldlM_write (ptrSize_mul_le hlen)
      (List.length_replicate (a := (0 : Byte))) hin
    exact ⟨b', hb', hlen'.trans hlen⟩
  · exact ⟨b, rfl, hlen⟩

/-- The empty list is in memory. -/
lemma inMemory_empty : InMemory T ⟨0, none⟩ := ⟨fun _ => rfl, fun _ h => by cases h⟩

/-- A list with a block is in memory if the block has room for it. -/
lemma inMemory_some {b : Bytes} {size : ℕ} (h : b.length = T.size * size) :
    InMemory T ⟨size, some b⟩ := by
  refine ⟨by simp, fun b' hb' => ?_⟩
  obtain rfl := Option.some.inj hb'
  exact h

/-- **`resize` stays in the memory**, whether there is a new block or not.

**Proof sketch.** By the size. Nothing is done for the same size, and no size at all clears the
vector. A smaller one deletes pointers that are in the block, a larger one fills the new block with
null pointers from the old end on. -/
lemma exists_resize (realloc : Realloc) {v : PobjVector} (hv : v.InMemory T) (newsize : ℕ) :
    ∃ r, resize T realloc v newsize = some r ∧ r.2.1.InMemory T := by
  rw [resize]
  by_cases hsame : newsize = v.size
  · exact ⟨_, if_pos hsame, hv⟩
  rw [if_neg hsame]
  by_cases hzero : newsize = 0
  · rw [if_pos hzero, clear]
    cases hlist : v.plist with
    | none => exact ⟨_, rfl, inMemory_empty⟩
    | some b =>
      dsimp only
      rw [readPtrs_eq (ptrSize_mul_le (hv.length_eq b hlist))]
      exact ⟨_, rfl, inMemory_empty⟩
  rw [if_neg hzero]
  obtain ⟨ptrs, hptrs⟩ : ∃ ptrs, dropped T v newsize = some ptrs := by
    rw [dropped]
    split_ifs
    · cases hlist : v.plist with
      | none =>
        have := hv.size_eq hlist
        omega
      | some b => exact ⟨_, readPtrs_eq (ptrSize_mul_le (hv.length_eq b hlist)) _⟩
    · exact ⟨_, rfl⟩
  rw [hptrs, Option.bind_some]
  cases hrun : realloc.run (v.plist.getD []) (T.size * newsize) with
  | none => exact ⟨_, rfl, inMemory_empty⟩
  | some b =>
    have hlen := realloc.length_eq hrun
    obtain ⟨b', hb', hlen'⟩ := exists_fillNull hlen v.size
    dsimp only
    rw [hb']
    exact ⟨_, rfl, inMemory_some hlen'⟩

/-- **Null pointers at the end are cut off**: nothing is deleted, and the other pointers stay.

**Proof sketch.** The pointers that are cut off are null, so reading them for the deletion gives
nothing to delete; the block keeps the others at their places, whether it is moved or not. -/
lemma resize_shrink {realloc : Realloc} (hrealloc : realloc.Shrinks) {b : Bytes} {size k : ℕ}
    (hlen : b.length = T.size * size) (hk : k < size)
    (hnull : ∀ j, k ≤ j → j < size → isNull ((b.drop (T.ptrSize * j)).take T.ptrSize)) :
    ∃ v', resize T realloc ⟨size, some b⟩ k = some (true, v', []) ∧ v'.InMemory T ∧
      v'.ptrs T = Blocks.cells T.ptrSize b k := by
  have hle := ptrSize_mul_le hlen
  rw [resize, if_neg hk.ne]
  by_cases hzero : k = 0
  · subst hzero
    have hread : readPtrs T b 0 size = some [] := readPtrs_eq_nil hle hnull
    refine ⟨⟨0, none⟩, ?_, inMemory_empty, rfl⟩
    rw [if_pos rfl, clear]
    dsimp only
    rw [hread]
    rfl
  have hread : dropped T ⟨size, some b⟩ k = some [] :=
    (if_pos hk).trans (readPtrs_eq_nil hle hnull)
  have hpos : 0 < T.size := T.ptrSize_pos.trans_le T.ptrSize_le
  obtain ⟨b', hrun⟩ := hrealloc b (T.size * k) (Nat.mul_pos hpos (by omega))
    (hlen ▸ Nat.mul_le_mul_left T.size hk.le)
  have hlen' := realloc.length_eq hrun
  refine ⟨⟨k, some b'⟩, ?_, inMemory_some hlen', ?_⟩
  · rw [if_neg hzero, hread, Option.bind_some]
    dsimp only
    rw [Option.getD_some, hrun]
    dsimp only
    rw [fillNull, if_neg (by omega)]
    rfl
  · -- a pointer that stays lies in the part that is kept
    have hin := ptrSize_mul_le hlen'
    have hroom : T.ptrSize * k ≤ T.ptrSize * size := Nat.mul_le_mul_left _ hk.le
    rw [ptrs, Option.getD_some]
    apply Blocks.cells_congr
    intro i hi
    dsimp only at hi
    exact realloc.getElem?_eq hrun i (by omega) (by omega)

/-- **The pointers behind the one that is removed move down**, and `NULL` is behind them.

**Proof sketch.** The source moves `size - 1 - n` elements, which are at least as many bytes as the
pointers behind the place. Since `n + 1` elements lie in front of what it reads, the bytes it reads
and writes are in the block. -/
lemma exists_moveDown {b : Bytes} {size n : ℕ} (hlen : b.length = T.size * size) (hn : n < size) :
    ∃ b', moveDown T b size n = some b' ∧ b'.length = T.size * size ∧
      isNull ((b'.drop (T.ptrSize * (size - 1))).take T.ptrSize) ∧
      Blocks.cells T.ptrSize b' (size - 1) = (Blocks.cells T.ptrSize b size).eraseIdx n := by
  obtain ⟨m, rfl⟩ : ∃ m, size = n + 1 + m := ⟨size - (n + 1), by omega⟩
  have hsub : n + 1 + m - 1 - n = m := by omega
  have hsub' : n + 1 + m - 1 = n + m := by omega
  -- the sizes of the parts of the block, in elements and in pointers
  have hfront : T.ptrSize * (n + 1) ≤ T.size * (n + 1) := Nat.mul_le_mul_right _ T.ptrSize_le
  have hbehind : T.ptrSize * m ≤ T.size * m := Nat.mul_le_mul_right _ T.ptrSize_le
  have hsize : T.size * (n + 1 + m) = T.size * (n + 1) + T.size * m := Nat.mul_add _ _ _
  have hsucc : T.ptrSize * (n + 1) = T.ptrSize * n + T.ptrSize := Nat.mul_succ _ _
  have hend : T.ptrSize * (n + m) = T.ptrSize * n + T.ptrSize * m := Nat.mul_add _ _ _
  obtain ⟨b₁, hmove⟩ := @Blocks.exists_move _ b (T.ptrSize * n) (T.ptrSize * (n + 1)) (T.size * m)
    (by omega) (by omega)
  have hlen₁ : b₁.length = b.length := (Blocks.getElem?_move hmove 0).1
  have hnull : T.null.length = T.ptrSize := List.length_replicate
  obtain ⟨b₂, hwrite⟩ := @Blocks.exists_write _ b₁ T.null (T.ptrSize * (n + m)) (by omega)
  have hlen₂ : b₂.length = b₁.length := Blocks.length_write hwrite
  refine ⟨b₂, ?_, by omega, ?_, ?_⟩
  · rw [moveDown, if_pos hn, hsub, hsub', hmove]
    exact hwrite
  · have hcell : (b₂.drop (T.ptrSize * (n + m))).take T.ptrSize = T.null := by
      ext i : 1
      rw [List.getElem?_take, List.getElem?_drop, Blocks.getElem?_write hwrite, hnull]
      split_ifs with hi
      · rw [Nat.add_sub_cancel_left]
      · omega
      · rw [List.getElem?_eq_none (by omega)]
    rw [hsub', hcell]
    simp [isNull, ElemType.null]
  · apply Blocks.cells_eq_eraseIdx hn
    · intro i hi
      rw [Blocks.getElem?_write hwrite, if_neg (by omega), (Blocks.getElem?_move hmove i).2,
        if_neg (by omega)]
    · intro i hge hlt
      rw [hsub'] at hlt
      rw [Blocks.getElem?_write hwrite, if_neg (by omega), (Blocks.getElem?_move hmove i).2,
        if_pos (by omega)]
      congr 1
      omega

/-- **`remove_by_id` stays in the memory**, for any number. -/
lemma exists_removeById (realloc : Realloc) {v : PobjVector} (hv : v.InMemory T) (n : Int32) :
    ∃ r, removeById T realloc v n = some r ∧ r.2.1.InMemory T := by
  rw [removeById]
  by_cases hout : n.toInt < 0 ∨ n.toInt.toNat ≥ v.size
  · exact ⟨_, if_pos hout, hv⟩
  rw [if_neg hout]
  cases hlist : v.plist with
  | none =>
    have := hv.size_eq hlist
    omega
  | some b =>
    obtain ⟨b', hmove, hlen, -⟩ := exists_moveDown (hv.length_eq b hlist)
      (show n.toInt.toNat < v.size by omega)
    obtain ⟨r, hr, hin⟩ := exists_resize realloc (inMemory_some hlen) (v.size - 1)
    rw [Option.bind_some, hmove, Option.bind_some, hr]
    exact ⟨_, rfl, hin⟩

/-! ## Removing a pointer -/

/-- **A pointer is removed**: whatever `realloc` does, no byte outside of the memory is read or
written; and if the block can be made smaller, then the list is the one without the pointer,
nothing is deleted and no message is written.

**Proof sketch.** The pointers behind the one that is removed move down, and the last place is
`NULL`. So `resize` finds nothing to drop, or, when the only pointer was removed, nothing to
delete. -/
theorem removeById_eq_eraseIdx (realloc : Realloc) {v : PobjVector} (hv : v.InMemory T)
    {n : Int32} (hn : 0 ≤ n.toInt) (hlt : n.toInt < v.size) :
    (∃ r, removeById T realloc v n = some r ∧ r.2.1.InMemory T) ∧
    (realloc.Shrinks → ∃ v', removeById T realloc v n = some (true, v', []) ∧ v'.InMemory T ∧
      v'.ptrs T = (v.ptrs T).eraseIdx n.toInt.toNat) := by
  refine ⟨exists_removeById realloc hv n, fun hrealloc => ?_⟩
  cases hlist : v.plist with
  | none =>
    have := hv.size_eq hlist
    omega
  | some b =>
    obtain ⟨b', hmove, hlen, hnull, hcells⟩ := exists_moveDown (hv.length_eq b hlist)
      (show n.toInt.toNat < v.size by omega)
    have hlast : ∀ j, v.size - 1 ≤ j → j < v.size →
        isNull ((b'.drop (T.ptrSize * j)).take T.ptrSize) := by
      intro j hge hj
      obtain rfl : j = v.size - 1 := by omega
      exact hnull
    obtain ⟨v', hresize, hin, hptrs⟩ := resize_shrink hrealloc hlen (by omega) hlast
    refine ⟨v', ?_, hin, ?_⟩
    · rw [removeById, if_neg (by omega), hlist, Option.bind_some, hmove, Option.bind_some, hresize]
      rfl
    · rw [hptrs, hcells, ptrs, hlist, Option.getD_some]

/-- An allocator that moves each block, with zeros behind the old bytes. It never fails. -/
def moving : Realloc where
  run b k := some ((b ++ List.replicate k 0).take k)
  length_eq := by
    intro b b' k h
    obtain rfl := Option.some.inj h
    rw [List.length_take, List.length_append, List.length_replicate]
    omega
  getElem?_eq := by
    intro b b' k h i hi hk
    obtain rfl := Option.some.inj h
    rw [List.getElem?_take_of_lt hk, List.getElem?_append_left hi]

/-- Pointers of two bytes to elements of three: the first of two is removed, and the only one. -/
theorem removeById_eq_eraseIdx_first :
    (∃ v', removeById ⟨3, 2, by omega, by omega⟩ moving ⟨2, some [1, 0, 2, 0, 7, 7]⟩ 0 =
        some (true, v', []) ∧ v'.ptrs ⟨3, 2, by omega, by omega⟩ = [[2, 0]]) ∧
      ∃ v', removeById ⟨3, 2, by omega, by omega⟩ moving ⟨1, some [1, 0, 7]⟩ 0 =
        some (true, v', []) ∧ v'.ptrs ⟨3, 2, by omega, by omega⟩ = [] := by
  have hshrinks : moving.Shrinks := fun b k _ _ => ⟨_, rfl⟩
  constructor
  · obtain ⟨v', hv', -, hptrs⟩ := (@removeById_eq_eraseIdx ⟨3, 2, by omega, by omega⟩ moving
      ⟨2, some [1, 0, 2, 0, 7, 7]⟩ (inMemory_some rfl) 0 (by decide) (by decide)).2 hshrinks
    exact ⟨v', hv', hptrs⟩
  · obtain ⟨v', hv', -, hptrs⟩ := (@removeById_eq_eraseIdx ⟨3, 2, by omega, by omega⟩ moving
      ⟨1, some [1, 0, 7]⟩ (inMemory_some rfl) 0 (by decide) (by decide)).2 hshrinks
    exact ⟨v', hv', hptrs⟩

end PobjVector

end Meowbot
