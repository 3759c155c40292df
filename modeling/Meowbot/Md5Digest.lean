import Meowbot.Md5
import Mathlib.Tactic.FinCases

set_option relaxedAutoImplicit false
set_option autoImplicit false

/-!
# The digest that MD5 computes (`md5_impl.c`)

What RFC 1321 asks for: 32-bit words, a padded message and sixty-four operations for each of its
blocks. The implementation has 64-bit words whose upper halves are never cleared, unrolled
operations that rename the registers instead of moving them, and a message that comes in pieces.

## Main definitions

* `Meowbot.rfcStep`, `Meowbot.rfcCompress`, `Meowbot.rfcPad`, `Meowbot.rfcDigest` — the digest of
  a message, as RFC 1321 describes it.
* `Meowbot.Md5Holds` — the context after some of the message.

## Main results

* `Meowbot.md5Block_trunc` — the lower halves of the words are those of RFC 1321.
* `Meowbot.md5_stream` — the digest of a message that comes in any pieces.
-/

namespace Meowbot

/-! ## RFC 1321 -/

/-- The auxiliary functions, as RFC 1321 has them. -/
def rfcFun {w : ℕ} : Md5Fun → BitVec w → BitVec w → BitVec w → BitVec w
  | .F, x, y, z => (x &&& y) ||| (~~~x &&& z)
  | .G, x, y, z => (x &&& z) ||| (y &&& ~~~z)
  | .H, x, y, z => x ^^^ y ^^^ z
  | .I, x, y, z => y ^^^ (x ||| ~~~z)

/-- The table `T`: the integer part of 4294967296 times `abs(sin(i))`, for `i` from 1 to 64, as RFC
1321 lists it. -/
def rfcTable : List ℕ :=
  [ 0xd76aa478, 0xe8c7b756, 0x242070db, 0xc1bdceee, 0xf57c0faf, 0x4787c62a, 0xa8304613, 0xfd469501,
    0x698098d8, 0x8b44f7af, 0xffff5bb1, 0x895cd7be, 0x6b901122, 0xfd987193, 0xa679438e, 0x49b40821,
    0xf61e2562, 0xc040b340, 0x265e5a51, 0xe9b6c7aa, 0xd62f105d, 0x02441453, 0xd8a1e681, 0xe7d3fbc8,
    0x21e1cde6, 0xc33707d6, 0xf4d50d87, 0x455a14ed, 0xa9e3e905, 0xfcefa3f8, 0x676f02d9, 0x8d2a4c8a,
    0xfffa3942, 0x8771f681, 0x6d9d6122, 0xfde5380c, 0xa4beea44, 0x4bdecfa9, 0xf6bb4b60, 0xbebfbc70,
    0x289b7ec6, 0xeaa127fa, 0xd4ef3085, 0x04881d05, 0xd9d4d039, 0xe6db99e5, 0x1fa27cf8, 0xc4ac5665,
    0xf4292244, 0x432aff97, 0xab9423a7, 0xfc93a039, 0x655b59c3, 0x8f0ccc92, 0xffeff47d, 0x85845dd1,
    0x6fa87e4f, 0xfe2ce6e0, 0xa3014314, 0x4e0811a1, 0xf7537e82, 0xbd3af235, 0x2ad7d2bb, 0xeb86d391 ]

/-- The function of an operation. -/
def rfcFunOf (i : ℕ) : Md5Fun :=
  if i < 16 then .F else if i < 32 then .G else if i < 48 then .H else .I

/-- The word of an operation. -/
def rfcIndex (i : ℕ) : Fin 16 :=
  ⟨(if i < 16 then i else if i < 32 then 5 * i + 1 else if i < 48 then 3 * i + 5 else 7 * i) % 16,
    Nat.mod_lt _ (by decide)⟩

/-- The rotation of an operation. -/
def rfcShift (i : ℕ) : ℕ :=
  ([[7, 12, 17, 22], [5, 9, 14, 20], [4, 11, 16, 23], [6, 10, 15, 21]].getD (i / 16) []).getD
    (i % 4) 0

/-- One of the sixty-four operations; the registers move on by one place. -/
def rfcStep (x : Fin 16 → BitVec 32) (r : Md5Regs 32) (i : ℕ) : Md5Regs 32 :=
  let a := r.a + rfcFun (rfcFunOf i) r.b r.c r.d + x (rfcIndex i) + .ofNat 32 (rfcTable.getD i 0)
  ⟨r.d, r.b + a.rotateLeft (rfcShift i), r.b, r.c⟩

/-- A byte of a block. -/
def rfcByte (block : Bytes) (i : ℕ) : BitVec 8 := (block.getD i 0).toBitVec

/-- A word of a block: four bytes, the lowest one first. -/
def rfcWord (block : Bytes) (n : Fin 16) : BitVec 32 :=
  rfcByte block (n * 4 + 3) ++ rfcByte block (n * 4 + 2) ++ rfcByte block (n * 4 + 1) ++
    rfcByte block (n * 4)

/-- The registers after a block. -/
def rfcCompress (r : Md5Regs 32) (block : Bytes) : Md5Regs 32 :=
  ((List.range 64).foldl (rfcStep (rfcWord block)) r).add r

/-- The bytes of a number in little-endian order. -/
def rfcLittle (k x : ℕ) : Bytes := (List.range k).map fun i => UInt8.ofNat (x / 2 ^ (8 * i))

/-- The message with its padding: a bit, zeros and the length in bits. -/
def rfcPad (m : Bytes) : Bytes :=
  m ++ 0x80 :: List.replicate ((119 - m.length % 64) % 64) 0 ++ rfcLittle 8 (8 * m.length)

/-- The registers at the start. -/
def rfcInit : Md5Regs 32 := ⟨0x67452301, 0xefcdab89, 0x98badcfe, 0x10325476⟩

/-- The digest of a message. -/
def rfcDigest (m : Bytes) : Bytes :=
  let r := BlockFold.whole 64 rfcCompress rfcInit (rfcPad m)
  rfcLittle 4 r.a.toNat ++ rfcLittle 4 r.b.toNat ++ rfcLittle 4 r.c.toNat ++ rfcLittle 4 r.d.toNat

/-! ## The lower halves -/

/-- The lower half of a word. -/
def low32 (x : U32Plus) : BitVec 32 := x.setWidth 32

/-- The lower halves of the registers. -/
def Md5Regs.trunc (r : Md5Regs 64) : Md5Regs 32 :=
  ⟨low32 r.a, low32 r.b, low32 r.c, low32 r.d⟩

/-- The lower halves after an assignment. -/
lemma set_trunc (r : Md5Regs 64) (x : U32Plus) (n : Md5Reg) :
    (r.set x n).trunc = r.trunc.set (low32 x) n := by
  cases n <;> rfl

/-- The lower half of a sum. -/
lemma low32_add (x y : U32Plus) : low32 (x + y) = low32 x + low32 y :=
  BitVec.setWidth_add x y (by decide)

/-- `F` and `G` are those of RFC 1321, written with one operation less. -/
lemma eval_eq_rfcFun {w : ℕ} (f : Md5Fun) (x y z : BitVec w) : f.eval x y z = rfcFun f x y z := by
  cases f with
  | F =>
    ext i hi
    simp only [Md5Fun.eval, rfcFun, BitVec.getElem_or, BitVec.getElem_and, BitVec.getElem_xor,
      BitVec.getElem_not]
    cases x[i] <;> cases y[i] <;> cases z[i] <;> rfl
  | G =>
    ext i hi
    simp only [Md5Fun.eval, rfcFun, BitVec.getElem_or, BitVec.getElem_and, BitVec.getElem_xor,
      BitVec.getElem_not]
    cases x[i] <;> cases y[i] <;> cases z[i] <;> rfl
  | H => rfl
  | I => rfl

/-- The basic functions work on the bits one by one. -/
lemma low32_eval (f : Md5Fun) (x y z : U32Plus) :
    low32 (f.eval x y z) = rfcFun f (low32 x) (low32 y) (low32 z) := by
  rw [← eval_eq_rfcFun]
  cases f <;> simp [low32, Md5Fun.eval]

/-- **The rotation** of a lower half, whatever is above it. -/
lemma low32_rotate (x : U32Plus) {s : ℕ} (hs : s < 32) :
    low32 ((x <<< s) ||| ((x &&& 0xffffffff) >>> (32 - s))) = (low32 x).rotateLeft s := by
  have hmask : ∀ i < 64, (0xffffffff : U32Plus).getLsbD i = decide (i < 32) := by decide
  ext i hi
  simp only [low32, BitVec.getElem_rotateLeft, Nat.mod_eq_of_lt hs, BitVec.getElem_setWidth,
    BitVec.getLsbD_or, BitVec.getLsbD_shiftLeft, BitVec.getLsbD_ushiftRight, BitVec.getLsbD_and]
  rw [hmask _ (by omega)]
  split_ifs with h
  · have h1 : 32 - s + i < 32 := by omega
    simp [h, h1]
  · have h1 : ¬ 32 - s + i < 32 := by omega
    have h2 : i < 64 := by omega
    simp [h, h1, h2]

/-- **One `STEP`** on the lower halves. -/
lemma low32_md5Op (f : Md5Fun) (a b c d x t : U32Plus) {s : ℕ} (hs : s < 32) :
    low32 (md5Op f a b c d x t s) = low32 b +
      (low32 a + rfcFun f (low32 b) (low32 c) (low32 d) + low32 x + low32 t).rotateLeft s := by
  rw [md5Op, low32_add, low32_rotate _ hs, low32_add, low32_add, low32_add, low32_eval,
    BitVec.add_comm (low32 b)]
  simp only [BitVec.add_assoc]

/-- A word of the data is the one of RFC 1321.

**Proof sketch.** Bit by bit. Each of the 32 bits comes from one of the four bytes; the bits of the
others are shifted in as zeros, or lie above the eight bits of their byte. -/
lemma low32_md5Set (data : Bytes) (n : Fin 16) : low32 (md5Set data n) = rfcWord data n := by
  apply BitVec.eq_of_getLsbD_eq
  intro i hi
  rw [low32, BitVec.getLsbD_setWidth, md5Set, rfcWord, BitVec.getLsbD_append,
    BitVec.getLsbD_append, BitVec.getLsbD_append]
  have h0 : i < 64 := by omega
  have h1 : i - 8 < 64 := by omega
  have h2 : i - 16 < 64 := by omega
  have h3 : i - 24 < 64 := by omega
  simp only [md5Byte, rfcByte, BitVec.getLsbD_or, BitVec.getLsbD_shiftLeft, BitVec.getLsbD_setWidth,
    Nat.sub_sub, hi, h0, h1, h2, h3, decide_true, Bool.true_and]
  -- The bits of the other bytes are shifted in as zeros or are above the eight bits of the byte.
  split_ifs with c0 c1 c2
  · have h16 : i < 16 := by omega
    have h24 : i < 24 := by omega
    simp [c0, h16, h24]
  · have h16 : i < 16 := by omega
    have h24 : i < 24 := by omega
    rw [BitVec.getLsbD_of_ge _ i (by omega)]
    simp [c0, h16, h24]
  · have h16 : ¬ i < 16 := by omega
    have h24 : i < 24 := by omega
    rw [BitVec.getLsbD_of_ge _ i (by omega), BitVec.getLsbD_of_ge _ (i - 8) (by omega)]
    simp [h16, h24]
  · have h16 : ¬ i < 16 := by omega
    have h24 : ¬ i < 24 := by omega
    rw [BitVec.getLsbD_of_ge _ i (by omega), BitVec.getLsbD_of_ge _ (i - 8) (by omega),
      BitVec.getLsbD_of_ge _ (i - 16) (by omega)]
    simp [h24]

/-! ## The unrolled operations -/

/-- The words are read from the data in their order, and taken from the block afterwards. -/
def wordsSet : ℕ → List Md5Step → Bool
  | _, [] => true
  | known, op :: ops => match op.x with
    | .set n => decide (n.val = known) && wordsSet (known + 1) ops
    | .get n => decide (n.val < known) && wordsSet known ops

/-- The number of the word of an operation. -/
def Md5Step.index (op : Md5Step) : Fin 16 :=
  match op.x with
  | .set n | .get n => n

/-- The registers after one operation, with the words given. -/
def md5Direct (x : Fin 16 → U32Plus) (r : Md5Regs 64) (op : Md5Step) : Md5Regs 64 :=
  r.set (md5Op op.f (r.get op.a) (r.get op.b) (r.get op.c) (r.get op.d) (x op.index)
    (.ofNat 64 op.t) op.s) op.a

/-- **The words in the block** are those of the data, where they are read before they are taken.

**Proof sketch.** By induction on the operations. An operation that reads a word of the data reads
the next one, which is then in the block; one that takes a word from the block takes one that has
been read. -/
lemma foldl_md5Step (data : Bytes) {known : ℕ} {ops : List Md5Step} (h : wordsSet known ops = true)
    (r : Md5Regs 64) {block : Fin 16 → U32Plus}
    (hblock : ∀ n : Fin 16, n.val < known → block n = md5Set data n) :
    (ops.foldl (md5Step data) (r, block)).1 = ops.foldl (md5Direct (md5Set data)) r := by
  induction ops generalizing known r block with
  | nil => rfl
  | cons op ops ih =>
    obtain ⟨f, ra, rb, rc, rd, x, t, s⟩ := op
    rw [List.foldl_cons, List.foldl_cons]
    cases x with
    | set n =>
      obtain ⟨hn, hops⟩ : n.val = known ∧ wordsSet (known + 1) ops = true := by
        simpa [wordsSet] using h
      have hstep : md5Step data (r, block) ⟨f, ra, rb, rc, rd, .set n, t, s⟩ =
          (md5Direct (md5Set data) r ⟨f, ra, rb, rc, rd, .set n, t, s⟩,
            Function.update block n (md5Set data n)) := by
        simp [md5Step, md5Direct, Md5Step.index]
      rw [hstep]
      apply ih hops
      intro m hm
      by_cases hmn : m = n
      · rw [hmn, Function.update_self]
      · rw [Function.update_of_ne hmn]
        exact hblock m (by omega)
    | get n =>
      obtain ⟨hn, hops⟩ : n.val < known ∧ wordsSet known ops = true := by
        simpa [wordsSet] using h
      have hstep : md5Step data (r, block) ⟨f, ra, rb, rc, rd, .get n, t, s⟩ =
          (md5Direct (md5Set data) r ⟨f, ra, rb, rc, rd, .get n, t, s⟩, block) := by
        simp [md5Step, md5Direct, Md5Step.index, hblock n hn]
      rw [hstep]
      exact ih hops _ hblock

/-- The names of the registers of an operation. -/
def rfcNames (i : ℕ) : Md5Reg × Md5Reg × Md5Reg × Md5Reg :=
  match i % 4 with
  | 0 => (.a, .b, .c, .d)
  | 1 => (.d, .a, .b, .c)
  | 2 => (.c, .d, .a, .b)
  | _ => (.b, .c, .d, .a)

/-- The operands of an operation. -/
def rfcOperands (i : ℕ) : Md5Step :=
  let (ra, rb, rc, rd) := rfcNames i
  ⟨rfcFunOf i, ra, rb, rc, rd, if i < 16 then .set (rfcIndex i) else .get (rfcIndex i),
    rfcTable.getD i 0, rfcShift i⟩

/-- **The unrolled operations** are those of RFC 1321. -/
lemma md5Steps_eq : md5Steps = (List.range 64).map rfcOperands := by decide

/-- The registers in the order of the names of an operation. -/
def Md5Regs.turn {w : ℕ} (i : ℕ) (r : Md5Regs w) : Md5Regs w :=
  let (ra, rb, rc, rd) := rfcNames i
  ⟨r.get ra, r.get rb, r.get rc, r.get rd⟩

/-- **One operation** with its names turned is one whose registers move.

**Proof sketch.** By the four cases of the index: in each of them the registers have moved one place
further, the operation is the one of the table, and the lower 32 bits of the result depend on those
of its operands only. -/
lemma turn_md5Direct (x : Fin 16 → U32Plus) (r : Md5Regs 64) {i : ℕ} (hi : i < 64) :
    ((md5Direct x r (rfcOperands i)).trunc).turn (i + 1) =
      rfcStep (low32 ∘ x) (r.trunc.turn i) i := by
  have hshift : ∀ i < 64, rfcShift i < 32 := by decide
  have hop (a b c d : U32Plus) := low32_md5Op (rfcFunOf i) a b c d (x (rfcIndex i))
    (.ofNat 64 (rfcTable.getD i 0)) (hshift i hi)
  have ht : low32 (.ofNat 64 (rfcTable.getD i 0)) = .ofNat 32 (rfcTable.getD i 0) :=
    BitVec.setWidth_ofNat_of_le (by decide) _
  have hindex : (rfcOperands i).index = rfcIndex i := by
    unfold rfcOperands Md5Step.index
    split_ifs <;> rfl
  rw [md5Direct, set_trunc, hindex]
  obtain ⟨h, h'⟩ | ⟨h, h'⟩ | ⟨h, h'⟩ | ⟨h, h'⟩ : (i % 4 = 0 ∧ (i + 1) % 4 = 1) ∨
      (i % 4 = 1 ∧ (i + 1) % 4 = 2) ∨ (i % 4 = 2 ∧ (i + 1) % 4 = 3) ∨
      (i % 4 = 3 ∧ (i + 1) % 4 = 0) := by omega
  all_goals
    simp only [Md5Regs.turn, rfcNames, rfcOperands, h, h', hop, ht]
    rfl

/-- Some of the operations. -/
lemma turn_foldl_md5Direct (x : Fin 16 → U32Plus) (r : Md5Regs 64) {k : ℕ} (hk : k ≤ 64) :
    ((((List.range k).map rfcOperands).foldl (md5Direct x) r).trunc).turn k =
      (List.range k).foldl (rfcStep (low32 ∘ x)) r.trunc := by
  induction k with
  | zero => rfl
  | succ k ih =>
    rw [List.range_succ, List.map_append, List.foldl_append, List.foldl_append, ← ih (by omega)]
    exact turn_md5Direct x _ hk

/-- **The lower halves** of the registers after a block are the registers of RFC 1321. -/
lemma md5Block_trunc (st : Md5Regs 64 × (Fin 16 → U32Plus)) (data : Bytes) :
    (md5Block st data).1.trunc = rfcCompress st.1.trunc data := by
  have hset : wordsSet 0 md5Steps = true := by decide
  have hwords : low32 ∘ md5Set data = rfcWord data := funext (low32_md5Set data)
  have hfold : (md5Steps.foldl (md5Step data) st).1.trunc =
      (List.range 64).foldl (rfcStep (rfcWord data)) st.1.trunc := by
    have hturn : ∀ r : Md5Regs 32, r.turn 64 = r := fun r => rfl
    rw [← hwords, ← turn_foldl_md5Direct _ _ (Nat.le_refl 64), hturn, ← md5Steps_eq]
    exact congrArg _ (foldl_md5Step data hset st.1 (by simp))
  have hadd (r r' : Md5Regs 64) : (r.add r').trunc = r.trunc.add r'.trunc := by
    simp only [Md5Regs.add, Md5Regs.trunc, low32_add]
  rw [rfcCompress, ← hfold, ← hadd]
  rfl

/-- The loop of `body`.

**Proof sketch.** By induction on the number of blocks that follow. Each round compresses one block,
and the next one begins behind it. -/
lemma md5BodyLoop_eq {data : Bytes} {more ptr : ℕ} (st : Md5Regs 64 × (Fin 16 → U32Plus))
    (h : ptr + 64 * (more + 1) ≤ data.length) :
    ∃ st', md5BodyLoop data more ptr st = some st' ∧
      st'.1.trunc = BlockFold.blocks 64 rfcCompress (more + 1) st.1.trunc (data.drop ptr) := by
  have hread : Blocks.read data ptr 64 = some ((data.drop ptr).take 64) := if_pos (by omega)
  induction more generalizing ptr st with
  | zero =>
    refine ⟨md5Block st ((data.drop ptr).take 64), ?_, md5Block_trunc _ _⟩
    rw [md5BodyLoop, hread, Option.map_some]
  | succ more ih =>
    have hread' : Blocks.read data (ptr + 64) 64 = some ((data.drop (ptr + 64)).take 64) :=
      if_pos (by omega)
    obtain ⟨st', hst', htrunc⟩ := ih (md5Block st ((data.drop ptr).take 64)) (by omega) hread'
    refine ⟨st', ?_, ?_⟩
    · rw [md5BodyLoop, hread]
      exact hst'
    · rw [htrunc, md5Block_trunc, ← List.drop_drop]
      rfl

/-- `body` on the blocks in front of the data. -/
lemma md5Body_eq (ctx : Md5Ctx) {data : Bytes} {size : U32Plus} (hpos : 0 < size.toNat / 64)
    (hdata : 64 * (size.toNat / 64) ≤ data.length) :
    ∃ regs block, md5Body ctx data size = some { ctx with regs, block } ∧
      regs.trunc = BlockFold.blocks 64 rfcCompress (size.toNat / 64) ctx.regs.trunc data := by
  obtain ⟨st, hst, htrunc⟩ := @md5BodyLoop_eq data (size.toNat / 64 - 1) 0 (ctx.regs, ctx.block)
    (by omega)
  refine ⟨st.1, st.2, ?_, ?_⟩
  · rw [md5Body, hst]
    rfl
  · rw [htrunc, List.drop_zero, Nat.sub_add_cancel hpos]

/-! ## The stream -/

/-- A copy behind a prefix of the buffer. -/
lemma exists_md5Memcpy {buffer p data : Bytes} {size : ℕ} (hp : p <+: buffer)
    (hdata : size ≤ data.length) (hbuffer : p.length + size ≤ buffer.length) :
    ∃ buffer', md5Memcpy buffer p.length data size = some buffer' ∧
      buffer'.length = buffer.length ∧ p ++ data.take size <+: buffer' := by
  have hlen : (data.take size).length = size := by rw [List.length_take, Nat.min_eq_left hdata]
  have hread : Blocks.read data 0 size = some (data.take size) := if_pos (by omega)
  rw [md5Memcpy, hread]
  apply Blocks.exists_write_prefix hp
  omega

/-- The multiple of 64 below a size. -/
lemma toNat_whole (size : U32Plus) :
    (size &&& ~~~(0x3f : U32Plus)).toNat = 64 * (size.toNat / 64) := by
  have hmask : ∀ i < 64, (~~~(0x3f : U32Plus)).getLsbD i = decide (6 ≤ i) := by decide
  have hshift : size &&& ~~~(0x3f : U32Plus) = (size >>> 6) <<< 6 := by
    apply BitVec.eq_of_getLsbD_eq
    intro i hi
    rw [BitVec.getLsbD_and, hmask i hi, BitVec.getLsbD_shiftLeft, BitVec.getLsbD_ushiftRight]
    by_cases h : 6 ≤ i
    · have h' : ¬ i < 6 := by omega
      simp [h, h', hi]
    · have h' : i < 6 := by omega
      simp [h, h']
  have hlt := size.isLt
  rw [hshift, BitVec.toNat_shiftLeft, BitVec.toNat_ushiftRight, Nat.shiftLeft_eq,
    Nat.shiftRight_eq_div_pow]
  omega

/-- The rest of a size above a multiple of 64. -/
lemma toNat_used (size : U32Plus) : (size &&& 0x3f).toNat = size.toNat % 64 := by
  rw [BitVec.toNat_and]
  exact Nat.and_two_pow_sub_one_eq_mod _ 6

/-- **The end of `MD5_Update`**, when nothing waits in the buffer.

**Proof sketch.** The whole blocks of the data are compressed (`md5Body_eq`), and what is left of
it, less than a block, is copied to the buffer. Without a whole block, everything is copied. -/
lemma md5Whole_eq {ctx : Md5Ctx} {data : Bytes} {size : U32Plus} (hbuffer : ctx.buffer.length = 64)
    (hsize : size.toNat = data.length) :
    ∃ regs buffer block, md5Whole ctx data size = some { ctx with regs, buffer, block } ∧
      buffer.length = 64 ∧ ∃ p, p <+: buffer ∧
        BlockFold.feed 64 rfcCompress (ctx.regs.trunc, []) data = (regs.trunc, p) := by
  have hmod := Nat.div_add_mod data.length 64
  have hmodlt := Nat.mod_lt data.length (show 64 > 0 by decide)
  by_cases h : size ≥ 64
  · have hge : 64 ≤ data.length := hsize ▸ h
    have hdiv : (size &&& ~~~(0x3f : U32Plus)).toNat / 64 = data.length / 64 := by
      rw [toNat_whole, Nat.mul_div_cancel_left _ (by decide), hsize]
    obtain ⟨regs, block, hbody, htrunc⟩ := @md5Body_eq ctx data (size &&& ~~~(0x3f : U32Plus))
      (by omega) (by omega)
    obtain ⟨buffer, hcopy, hlen, hrest⟩ := @exists_md5Memcpy ctx.buffer []
      (data.drop (64 * (data.length / 64))) (data.length % 64) (List.nil_prefix)
      (by rw [List.length_drop]; omega) (by rw [List.length_nil]; omega)
    refine ⟨regs, buffer, block, ?_, hlen.trans hbuffer, BlockFold.rest 64 data, ?_, ?_⟩
    · rw [List.length_nil] at hcopy
      rw [md5Whole, if_pos h]
      simp only [hbody, Option.bind_eq_bind, Option.bind_some, toNat_whole, toNat_used, hsize]
      rw [hcopy]
      rfl
    · rw [List.take_of_length_le (by rw [List.length_drop]; omega)] at hrest
      exact hrest
    · rw [htrunc, hdiv]
      rfl
  · have hlt : data.length < 64 := by
      rw [ge_iff_le, BitVec.le_def, hsize] at h
      simpa using h
    obtain ⟨buffer, hcopy, hlen, hrest⟩ := @exists_md5Memcpy ctx.buffer [] data size.toNat
      List.nil_prefix (by omega) (by rw [List.length_nil]; omega)
    refine ⟨ctx.regs, buffer, ctx.block, ?_, hlen.trans hbuffer, data, ?_, ?_⟩
    · rw [md5Whole, if_neg h]
      rw [List.length_nil] at hcopy
      rw [hcopy]
      rfl
    · rwa [hsize, List.take_length] at hrest
    · rw [BlockFold.feed_of_lt]
      · rfl
      · rwa [List.length_nil, Nat.zero_add]

/-- **The context** after a part of the message. -/
structure Md5Holds (ctx : Md5Ctx) (m : Bytes) : Prop where
  buffer : ctx.buffer.length = 64
  lo : ctx.lo.toNat = m.length % 2 ^ 29
  hi : ctx.hi.toNat = m.length / 2 ^ 29 % 2 ^ 64
  state : ∃ p, p <+: ctx.buffer ∧
    BlockFold.feed 64 rfcCompress (rfcInit, []) m = (ctx.regs.trunc, p)

/-- `MD5_Init`. -/
lemma md5Holds_init {ctx : Md5Ctx} (h : ctx.buffer.length = 64) : Md5Holds (md5Init ctx) [] where
  buffer := h
  lo := rfl
  hi := rfl
  state := ⟨[], List.nil_prefix, rfl⟩

/-- The counters: 29 bits, and a carry into the rest.

**Proof sketch.** The lower counter has 29 bits, and is masked after the addition. It has wrapped
around exactly if it is less than before, which gives the carry; the rest of the size is added to
the upper counter. -/
lemma md5Count_eq {ctx : Md5Ctx} {m data : Bytes} (h : Md5Holds ctx m)
    (hdata : data.length < 2 ^ 64) :
    ∃ lo hi, md5Count ctx (.ofNat 64 data.length) = { ctx with lo, hi } ∧
      lo.toNat = (m ++ data).length % 2 ^ 29 ∧ hi.toNat = (m ++ data).length / 2 ^ 29 % 2 ^ 64 := by
  have hlo := h.lo
  have hhi := h.hi
  have hsize : (BitVec.ofNat 64 data.length).toNat = data.length := by
    rw [BitVec.toNat_ofNat, Nat.mod_eq_of_lt hdata]
  have hmask : ((ctx.lo + .ofNat 64 data.length) &&& 0x1fffffff).toNat =
      (m.length + data.length) % 2 ^ 29 := by
    rw [BitVec.toNat_and, BitVec.toNat_add, hsize, hlo]
    refine (Nat.and_two_pow_sub_one_eq_mod _ 29).trans ?_
    omega
  have hone : (1 : U32Plus).toNat = 1 := rfl
  refine ⟨_, _, rfl, ?_, ?_⟩
  · rw [hmask, List.length_append]
  · rw [List.length_append]
    split_ifs with hlt
    · rw [BitVec.lt_def, hmask, hlo] at hlt
      rw [BitVec.toNat_add, BitVec.toNat_add, BitVec.toNat_ushiftRight, hsize, hhi,
        Nat.shiftRight_eq_div_pow, hone]
      omega
    · rw [BitVec.lt_def, hmask, hlo] at hlt
      rw [BitVec.toNat_add, BitVec.toNat_ushiftRight, hsize, hhi, Nat.shiftRight_eq_div_pow]
      omega

/-- What is used of the buffer. -/
lemma Md5Holds.used {ctx : Md5Ctx} {m p : Bytes} (h : Md5Holds ctx m)
    (hp : BlockFold.feed 64 rfcCompress (rfcInit, []) m = (ctx.regs.trunc, p)) :
    (ctx.lo &&& 0x3f).toNat = p.length ∧ p.length < 64 := by
  have hrest : BlockFold.rest 64 m = p := congrArg Prod.snd hp
  have hlen := congrArg List.length hrest
  have hlt := @BlockFold.length_rest_lt _ 64 (by decide) m
  have hdiv := Nat.div_add_mod m.length 64
  rw [hrest] at hlt
  rw [BlockFold.rest, List.length_drop] at hlen
  rw [toNat_used, h.lo]
  omega

/-- `body` on a full buffer. -/
lemma md5Body_buffer {ctx : Md5Ctx} {b : Bytes} (hb : b.length = 64) (hbuffer : b <+: ctx.buffer)
    (hlen : ctx.buffer.length = 64) :
    ∃ regs block, md5Body ctx ctx.buffer 64 = some { ctx with regs, block } ∧
      regs.trunc = rfcCompress ctx.regs.trunc b := by
  have heq : b = ctx.buffer := hbuffer.eq_of_length (hb.trans hlen.symm)
  have hsize : (64 : U32Plus).toNat / 64 = 1 := rfl
  obtain ⟨regs, block, hbody, htrunc⟩ := @md5Body_eq ctx ctx.buffer 64 (by omega) (by omega)
  refine ⟨regs, block, hbody, ?_⟩
  rw [htrunc, hsize, BlockFold.blocks, BlockFold.blocks, List.take_of_length_le hlen.le, heq]

/-- **`MD5_Update`** stays in the buffer and in the data, and goes on with the message.

**Proof sketch.** The blocks of a message are compressed one after another, in whatever pieces it
comes (`BlockFold.feed_append`). If some bytes wait in the buffer, the data fills it up, or is all
copied behind them; the rest is `md5Whole_eq`. -/
lemma md5Holds_update {ctx : Md5Ctx} {m data : Bytes} (h : Md5Holds ctx m)
    (hdata : data.length < 2 ^ 64) :
    ∃ ctx', md5Update ctx data = some ctx' ∧ Md5Holds ctx' (m ++ data) := by
  obtain ⟨lo, hi, hcount, hlo, hhi⟩ := md5Count_eq h hdata
  obtain ⟨p, hp, hstate⟩ := h.state
  obtain ⟨hused, hlt⟩ := h.used hstate
  have hbuffer := h.buffer
  have hsize : (BitVec.ofNat 64 data.length).toNat = data.length := by
    rw [BitVec.toNat_ofNat, Nat.mod_eq_of_lt hdata]
  have hfeed : BlockFold.feed 64 rfcCompress (rfcInit, []) (m ++ data) =
      BlockFold.feed 64 rfcCompress (ctx.regs.trunc, p) data := by
    rw [← hstate, BlockFold.feed_append (by decide)]
  have hzero : ctx.lo &&& 0x3f ≠ 0 ↔ p ≠ [] := by
    rw [Ne, Ne, ← List.length_eq_zero_iff, ← hused, ← BitVec.toNat_inj]
    rfl
  have hfree : (64 - (ctx.lo &&& 0x3f)).toNat = 64 - p.length := by
    rw [BitVec.toNat_sub_of_le]
    · rw [hused]
      rfl
    · rw [BitVec.le_def, hused]
      exact hlt.le
  by_cases hnil : p = []
  · obtain ⟨regs, buffer, block, hwhole, hlen, hp'⟩ :=
      @md5Whole_eq { ctx with lo, hi } data _ hbuffer hsize
    refine ⟨⟨lo, hi, regs, buffer, block⟩, ?_, hlen, hlo, hhi, ?_⟩
    · rw [md5Update]
      simp only [hcount]
      rw [if_neg (hzero.not.mpr (not_not.mpr hnil))]
      exact hwhole
    · rw [hfeed, hnil]
      exact hp'
  by_cases hsmall : BitVec.ofNat 64 data.length < 64 - (ctx.lo &&& 0x3f)
  · have hsmall' : data.length < 64 - p.length := by
      rwa [BitVec.lt_def, hsize, hfree] at hsmall
    obtain ⟨buffer, hcopy, hlen, hp'⟩ := @exists_md5Memcpy ctx.buffer p data data.length hp le_rfl
      (by omega)
    refine ⟨⟨lo, hi, ctx.regs, buffer, ctx.block⟩, ?_, hlen.trans hbuffer, hlo, hhi, p ++ data, ?_,
      ?_⟩
    · rw [md5Update]
      simp only [hcount]
      rw [if_pos (hzero.mpr hnil), if_pos hsmall, hused, hsize, hcopy]
      rfl
    · rwa [List.take_length] at hp'
    · rw [hfeed, BlockFold.feed_of_lt]
      omega
  · -- The buffer is filled up and compressed; the rest of the data starts with an empty one.
    have hfit : 64 - p.length ≤ data.length := by
      rw [BitVec.lt_def, hsize, hfree] at hsmall
      omega
    have htake : (data.take (64 - p.length)).length = 64 - p.length := by
      rw [List.length_take, Nat.min_eq_left hfit]
    have hrest : (BitVec.ofNat 64 data.length - (64 - (ctx.lo &&& 0x3f))).toNat =
        (data.drop (64 - p.length)).length := by
      rw [BitVec.toNat_sub_of_le, hsize, hfree, List.length_drop]
      rw [BitVec.le_def, hsize, hfree]
      exact hfit
    obtain ⟨buffer₁, hcopy, hlen₁, hp₁⟩ := @exists_md5Memcpy ctx.buffer p data (64 - p.length) hp
      hfit (by omega)
    have hfull : (p ++ data.take (64 - p.length)).length = 64 := by
      rw [List.length_append, htake]
      omega
    obtain ⟨regs₁, block₁, hbody, htrunc⟩ := @md5Body_buffer
      ⟨lo, hi, ctx.regs, buffer₁, ctx.block⟩ _ hfull hp₁ (hlen₁.trans hbuffer)
    obtain ⟨regs, buffer, block, hwhole, hlen, p', hp', hfeed'⟩ := @md5Whole_eq
      ⟨lo, hi, regs₁, buffer₁, block₁⟩ (data.drop (64 - p.length)) _ (hlen₁.trans hbuffer) hrest
    refine ⟨⟨lo, hi, regs, buffer, block⟩, ?_, hlen, hlo, hhi, p', hp', ?_⟩
    · rw [md5Update]
      simp only [hcount]
      rw [if_pos (hzero.mpr hnil), if_neg hsmall, hused, hfree, hcopy]
      simp only [Option.bind_eq_bind, Option.bind_some]
      rw [hbody]
      exact hwhole
    · rw [← hfeed', hfeed]
      conv_lhs => rw [← List.take_append_drop (64 - p.length) data]
      rw [BlockFold.feed_fill (by decide) _ _ (by omega), htrunc]

/-! ## The end of the message -/

/-- The four lower bytes of a number. -/
lemma rfcLittle_four (x : ℕ) :
    rfcLittle 4 x = [.ofNat x, .ofNat (x / 2 ^ 8), .ofNat (x / 2 ^ 16), .ofNat (x / 2 ^ 24)] := by
  have h : rfcLittle 4 x = [.ofNat (x / 1), .ofNat (x / 2 ^ 8), .ofNat (x / 2 ^ 16),
    .ofNat (x / 2 ^ 24)] := rfl
  rw [h, Nat.div_one]

/-- A byte of a number is one of its lower part. -/
lemma ofNat_congr {x y : ℕ} (h : x % 2 ^ 8 = y % 2 ^ 8) : UInt8.ofNat x = UInt8.ofNat y := by
  rw [← UInt8.toNat_inj, UInt8.toNat_ofNat', UInt8.toNat_ofNat']
  exact h

/-- The four bytes depend on 32 bits. -/
lemma rfcLittle_congr {x y : ℕ} (h : x % 2 ^ 32 = y % 2 ^ 32) : rfcLittle 4 x = rfcLittle 4 y := by
  rw [rfcLittle_four, rfcLittle_four, @ofNat_congr x y (by omega),
    @ofNat_congr (x / 2 ^ 8) (y / 2 ^ 8) (by omega),
    @ofNat_congr (x / 2 ^ 16) (y / 2 ^ 16) (by omega),
    @ofNat_congr (x / 2 ^ 24) (y / 2 ^ 24) (by omega)]

/-- Eight bytes are four and four. -/
lemma rfcLittle_eight (x : ℕ) : rfcLittle 8 x = rfcLittle 4 x ++ rfcLittle 4 (x / 2 ^ 32) := by
  have h : rfcLittle 8 x = rfcLittle 4 x ++ [.ofNat (x / 2 ^ 32), .ofNat (x / 2 ^ 40),
    .ofNat (x / 2 ^ 48), .ofNat (x / 2 ^ 56)] := rfl
  rw [h, rfcLittle_four (x / 2 ^ 32), Nat.div_div_eq_div_mul, Nat.div_div_eq_div_mul,
    Nat.div_div_eq_div_mul, ← pow_add, ← pow_add, ← pow_add]

/-- The bytes of a word. -/
lemma md5Bytes_eq (x : U32Plus) : md5Bytes x = rfcLittle 4 x.toNat := by
  have h (y : U32Plus) : (⟨y.setWidth 8⟩ : UInt8) = .ofNat y.toNat := rfl
  rw [md5Bytes, rfcLittle_four, h, h, h, h]
  simp only [BitVec.toNat_ushiftRight, Nat.shiftRight_eq_div_pow]

/-- The bytes of a register. -/
lemma md5Bytes_low32 (x : U32Plus) : md5Bytes x = rfcLittle 4 (low32 x).toNat := by
  rw [md5Bytes_eq]
  apply rfcLittle_congr
  rw [low32, BitVec.toNat_setWidth, Nat.mod_mod]

/-- **The length** in bits, out of the two counters. -/
lemma md5Bytes_counters {ctx : Md5Ctx} {m : Bytes} (h : Md5Holds ctx m) :
    md5Bytes (ctx.lo <<< 3) ++ md5Bytes ctx.hi = rfcLittle 8 (8 * m.length) := by
  have hlo : (ctx.lo <<< 3).toNat % 2 ^ 32 = 8 * m.length % 2 ^ 32 := by
    rw [BitVec.toNat_shiftLeft, h.lo, Nat.shiftLeft_eq]
    omega
  have hhi : ctx.hi.toNat % 2 ^ 32 = 8 * m.length / 2 ^ 32 % 2 ^ 32 := by
    rw [h.hi]
    omega
  rw [rfcLittle_eight, md5Bytes_eq, md5Bytes_eq, rfcLittle_congr hlo, rfcLittle_congr hhi]

/-- **The padding** in front of the length, with a block of its own where there is no room.

**Proof sketch.** The bit is written behind the bytes that wait. If there is room for the length
behind it, zeros are written up to there; otherwise the block is filled with zeros and compressed,
and another one begins. -/
lemma md5Pad_eq {ctx : Md5Ctx} {p : Bytes} (hp : p <+: ctx.buffer) (hlt : p.length < 64)
    (hbuffer : ctx.buffer.length = 64) :
    ∃ regs buffer block q, md5Pad ctx p.length = some { ctx with regs, buffer, block } ∧
      buffer.length = 64 ∧ q <+: buffer ∧ q.length = 56 ∧
      BlockFold.feed 64 rfcCompress (ctx.regs.trunc, p)
        (0x80 :: List.replicate ((119 - p.length) % 64) 0) = (regs.trunc, q) := by
  obtain ⟨buffer₁, hbit, hlen₁, hp₁⟩ := @Blocks.exists_write_prefix _ ctx.buffer p [0x80] hp
    (by simp; omega)
  have hlen : (p ++ [0x80]).length = p.length + 1 := by simp
  by_cases hfree : 64 - (p.length + 1) < 8
  · obtain ⟨buffer₂, hzeros, hlen₂, hp₂⟩ := @Blocks.exists_write_prefix _ buffer₁ _
      (List.replicate (64 - (p.length + 1)) 0) hp₁ (by simp; omega)
    have hfull : (p ++ [0x80] ++ List.replicate (64 - (p.length + 1)) 0).length = 64 := by
      rw [List.length_append, hlen, List.length_replicate]
      omega
    obtain ⟨regs, block, hbody, htrunc⟩ := @md5Body_buffer { ctx with buffer := buffer₂ } _ hfull hp₂
      (by rw [hlen₂, hlen₁, hbuffer])
    obtain ⟨buffer₃, hmore, hlen₃, hp₃⟩ := @Blocks.exists_write_prefix _ buffer₂ []
      (List.replicate (64 - 8) 0) List.nil_prefix (by simp; omega)
    refine ⟨regs, buffer₃, block, _, ?_, ?_, hp₃, rfl, ?_⟩
    · rw [hlen] at hzeros
      rw [md5Pad, hbit]
      simp only [Option.bind_eq_bind, Option.bind_some]
      rw [if_pos hfree, hzeros]
      simp only [Option.bind_some]
      rw [hbody]
      simp only [Option.bind_some]
      rw [List.length_nil] at hmore
      rw [hmore]
      rfl
    · rw [hlen₃, hlen₂, hlen₁, hbuffer]
    · -- The zeros are those that fill the block and 56 more.
      have hcount : (119 - p.length) % 64 = (64 - (p.length + 1)) + (64 - 8) := by omega
      rw [hcount, List.replicate_add, ← List.cons_append, BlockFold.feed_fill (by decide),
        BlockFold.feed_of_lt, htrunc, List.append_cons]
      · simp
      · rw [List.length_cons, List.length_replicate]
        omega
  · obtain ⟨buffer₂, hzeros, hlen₂, hp₂⟩ := @Blocks.exists_write_prefix _ buffer₁ _
      (List.replicate (64 - (p.length + 1) - 8) 0) hp₁ (by simp; omega)
    refine ⟨ctx.regs, buffer₂, ctx.block, _, ?_, ?_, hp₂, ?_, ?_⟩
    · rw [hlen] at hzeros
      rw [md5Pad, hbit]
      simp only [Option.bind_eq_bind, Option.bind_some]
      rw [if_neg hfree, hzeros]
      rfl
    · rw [hlen₂, hlen₁, hbuffer]
    · simp
      omega
    · have hcount : (119 - p.length) % 64 = 64 - (p.length + 1) - 8 := by omega
      rw [BlockFold.feed_of_lt, hcount, List.append_assoc]
      · rfl
      · simp
        omega

/-- **`MD5_Final`** stays in the buffer and gives the digest of the message.

**Proof sketch.** The padding leaves room for the length (`md5Pad_eq`). The length in bits is the
two counters, put together again, and with it the last block is full; the bytes of the registers are
those of their lower halves. -/
lemma md5Final_eq {ctx : Md5Ctx} {m : Bytes} (h : Md5Holds ctx m) :
    ∃ ctx', md5Final ctx = some (rfcDigest m, ctx') := by
  obtain ⟨p, hp, hstate⟩ := h.state
  obtain ⟨hused, hlt⟩ := h.used hstate
  have hplen : p.length = m.length % 64 := by
    rw [← hused, toNat_used, h.lo]
    omega
  obtain ⟨regs, buffer, block, q, hpad, hlen, hq, hqlen, hfeed⟩ := md5Pad_eq hp hlt h.buffer
  have hbytes (x : U32Plus) : (md5Bytes x).length = 4 := rfl
  obtain ⟨buffer₁, hw₁, hlen₁, hp₁⟩ := @Blocks.exists_write_prefix _ buffer q
    (md5Bytes (ctx.lo <<< 3)) hq (by rw [hbytes]; omega)
  obtain ⟨buffer₂, hw₂, hlen₂, hp₂⟩ := @Blocks.exists_write_prefix _ buffer₁ _
    (md5Bytes ctx.hi) hp₁ (by rw [List.length_append, hbytes, hbytes]; omega)
  rw [List.length_append, hbytes, hqlen] at hw₂
  rw [hqlen] at hw₁
  rw [List.append_assoc, md5Bytes_counters h] at hp₂
  have hfull : (q ++ rfcLittle 8 (8 * m.length)).length = 64 := by
    rw [List.length_append, hqlen]
    rfl
  obtain ⟨regs', block', hbody, htrunc⟩ := @md5Body_buffer
    ⟨ctx.lo <<< 3, ctx.hi, regs, buffer₂, block⟩ _ hfull hp₂
    ((hlen₂.trans hlen₁).trans hlen)
  have hdigest : regs'.trunc = BlockFold.whole 64 rfcCompress rfcInit (rfcPad m) := by
    have hall : BlockFold.feed 64 rfcCompress (rfcInit, []) (rfcPad m) =
        (rfcCompress regs.trunc (q ++ rfcLittle 8 (8 * m.length)), []) := by
      rw [rfcPad, ← BlockFold.feed_append (by decide), ← BlockFold.feed_append (by decide), hstate,
        ← hplen, hfeed, ← List.append_nil (rfcLittle 8 _), BlockFold.feed_fill (by decide)]
      · rw [List.append_nil, BlockFold.feed_of_lt _ _ (by decide)]
        rfl
      · rw [← List.length_append]
        exact hfull
    rw [htrunc]
    exact (congrArg Prod.fst hall).symm
  refine ⟨⟨0, ctx.hi, regs', buffer₂, block'⟩, ?_⟩
  rw [md5Final, hused, hpad]
  simp only [Option.bind_eq_bind, Option.bind_some]
  rw [hw₁]
  simp only [Option.bind_some]
  rw [hw₂]
  simp only [Option.bind_some]
  rw [hbody]
  simp only [Option.bind_some, md5Bytes_low32, rfcDigest, ← hdigest]
  rfl

/-- The context after pieces of the message. -/
lemma md5Holds_updates {ctx : Md5Ctx} {m : Bytes} (h : Md5Holds ctx m) {pieces : List Bytes}
    (hpieces : ∀ data ∈ pieces, data.length < 2 ^ 64) :
    ∃ ctx', pieces.foldlM md5Update ctx = some ctx' ∧ Md5Holds ctx' (m ++ pieces.flatten) := by
  induction pieces generalizing ctx m with
  | nil => exact ⟨ctx, rfl, by simpa using h⟩
  | cons data pieces ih =>
    obtain ⟨hdata, hpieces⟩ := List.forall_mem_cons.mp hpieces
    obtain ⟨ctx₁, hupdate, hctx₁⟩ := md5Holds_update h hdata
    obtain ⟨ctx₂, hupdates, hctx₂⟩ := ih hctx₁ hpieces
    refine ⟨ctx₂, ?_, ?_⟩
    · rw [List.foldlM_cons, hupdate]
      exact hupdates
    · rwa [List.flatten_cons, ← List.append_assoc]

/-- **MD5**: whatever the context holds before, and however the message is cut into pieces, no copy
leaves the buffer, and the digest is the one that RFC 1321 describes for the whole message. -/
theorem md5_stream {ctx : Md5Ctx} (hctx : ctx.buffer.length = 64) {pieces : List Bytes}
    (hpieces : ∀ data ∈ pieces, data.length < 2 ^ 64) :
    ((pieces.foldlM md5Update (md5Init ctx)).bind md5Final).map Prod.fst =
      some (rfcDigest pieces.flatten) := by
  obtain ⟨ctx₁, hupdates, hctx₁⟩ := md5Holds_updates (md5Holds_init hctx) hpieces
  obtain ⟨ctx₂, hfinal⟩ := md5Final_eq hctx₁
  rw [List.nil_append] at hfinal
  rw [hupdates, Option.bind_some, hfinal, Option.map_some]

/-- Three bytes in two pieces. -/
theorem md5_stream_abc :
    ((([bytes "a", bytes "bc"].foldlM md5Update (md5Init ⟨0, 0, ⟨0, 0, 0, 0⟩, List.replicate 64 0,
      fun _ => 0⟩)).bind md5Final).map Prod.fst = some (rfcDigest (bytes "abc"))) :=
  md5_stream List.length_replicate (by decide)

/-! ## The text of the digest -/

/-- Two digits for every byte. -/
def rfcHex (digest : Bytes) : Bytes :=
  digest.flatMap fun c => [md5HexDigits.getD (c.toNat / 16) 0, md5HexDigits.getD (c.toNat % 16) 0]

/-- The digest of RFC 1321 for the message `abc`. -/
example : rfcHex (rfcDigest (bytes "abc")) = bytes "900150983cd24fb0d6963f7d28e17f72" := by
  decide +kernel

/-- The sign of the bytes does not show in their digits. -/
lemma md5HexConv_eq (hash : Bytes) : md5HexConv hash = rfcHex hash := by
  rw [md5HexConv, rfcHex]
  congr 1
  exact funext (forall_byte (by decide +kernel))

/-- **The text of the digest**; the length of the data is cut to an `unsigned int`. -/
lemma md5Hex_eq {ctx : Md5Ctx} (hctx : ctx.buffer.length = 64) (data : Bytes) :
    md5Hex ctx data = some (rfcHex (rfcDigest (data.take (data.length % 2 ^ 32)))) := by
  have hlen : (UInt32.ofNat data.length).toNat = data.length % 2 ^ 32 := UInt32.toNat_ofNat'
  have hread : Blocks.read data 0 (data.length % 2 ^ 32) =
      some (data.take (data.length % 2 ^ 32)) := if_pos (by omega)
  obtain ⟨ctx₁, hupdate, hctx₁⟩ := @md5Holds_update _ [] (data.take (data.length % 2 ^ 32))
    (md5Holds_init hctx) (by rw [List.length_take]; omega)
  obtain ⟨ctx₂, hfinal⟩ := md5Final_eq hctx₁
  rw [md5Hex, md5, hlen, hread]
  simp only [Option.bind_eq_bind, Option.bind_some]
  rw [hupdate]
  simp only [Option.bind_some]
  rw [hfinal, List.nil_append, ← md5HexConv_eq]
  rfl

end Meowbot
