import Meowbot.MyAtoi
import Meowbot.Lib.Blocks
import Meowbot.Lib.BlockFold

set_option relaxedAutoImplicit false
set_option autoImplicit false

/-!
# MD5 (`md5_impl.c`, `md5.cpp`)

The digest behind the command `!md5`, the choice of the answers that depend on the day and the
relay's choice of a bot. The implementation wants no 32-bit type: `MD5_u32plus` is
`unsigned long`, and what the additions and rotations leave above the lower 32 bits is carried
along. The stream comes in pieces of any length, through a buffer of one block.

## Main definitions

* `Meowbot.md5Steps`, `Meowbot.md5Block`, `Meowbot.md5Body` — `STEP` with its operands, and `body`.
* `Meowbot.md5Init`, `Meowbot.md5Update`, `Meowbot.md5Final` — `MD5_Init`, `MD5_Update`,
  `MD5_Final`.
* `Meowbot.md5`, `Meowbot.md5HexConv`, `Meowbot.md5Hex` — the functions of `md5.cpp`.
-/

namespace Meowbot

/-! ## The compression function -/

/-- `MD5_u32plus`: an `unsigned long`. -/
abbrev U32Plus := BitVec 64

/-- The basic functions. -/
inductive Md5Fun
  | F | G | H | I
  deriving DecidableEq

/-- `F`, `G`, `H` and `I`, for words of any width. -/
def Md5Fun.eval {w : ℕ} : Md5Fun → BitVec w → BitVec w → BitVec w → BitVec w
  | .F, x, y, z => z ^^^ (x &&& (y ^^^ z))
  | .G, x, y, z => y ^^^ (z &&& (x ^^^ y))
  | .H, x, y, z => x ^^^ y ^^^ z
  | .I, x, y, z => y ^^^ (x ||| ~~~z)

/-- The names of the registers. -/
inductive Md5Reg
  | a | b | c | d
  deriving DecidableEq

/-- The registers. -/
@[ext] structure Md5Regs (w : ℕ) where
  a : BitVec w
  b : BitVec w
  c : BitVec w
  d : BitVec w
  deriving DecidableEq

/-- A register. -/
def Md5Regs.get {w : ℕ} (r : Md5Regs w) : Md5Reg → BitVec w
  | .a => r.a
  | .b => r.b
  | .c => r.c
  | .d => r.d

/-- An assignment to a register. -/
def Md5Regs.set {w : ℕ} (r : Md5Regs w) (x : BitVec w) : Md5Reg → Md5Regs w
  | .a => { r with a := x }
  | .b => { r with b := x }
  | .c => { r with c := x }
  | .d => { r with d := x }

/-- `a += saved_a` and its like. -/
def Md5Regs.add {w : ℕ} (r saved : Md5Regs w) : Md5Regs w :=
  ⟨r.a + saved.a, r.b + saved.b, r.c + saved.c, r.d + saved.d⟩

/-- A word of the message: `SET(n)` reads it from the data and keeps it in `ctx->block`, `GET(n)`
takes it from there. -/
inductive Md5Word
  | set (n : Fin 16)
  | get (n : Fin 16)
  deriving DecidableEq

/-- The operands of one `STEP`: the function, the registers in their roles, the word of the block,
the constant and the rotation. -/
structure Md5Step where
  f : Md5Fun
  a : Md5Reg
  b : Md5Reg
  c : Md5Reg
  d : Md5Reg
  x : Md5Word
  t : ℕ
  s : ℕ
  deriving DecidableEq

/-- The operations of the four rounds, in the order of the source. The first round reads the words
from the data and keeps them in the block, the others take them from there. -/
def md5Steps : List Md5Step :=
  [ ⟨.F, .a, .b, .c, .d, .set 0, 0xd76aa478, 7⟩, ⟨.F, .d, .a, .b, .c, .set 1, 0xe8c7b756, 12⟩,
    ⟨.F, .c, .d, .a, .b, .set 2, 0x242070db, 17⟩, ⟨.F, .b, .c, .d, .a, .set 3, 0xc1bdceee, 22⟩,
    ⟨.F, .a, .b, .c, .d, .set 4, 0xf57c0faf, 7⟩, ⟨.F, .d, .a, .b, .c, .set 5, 0x4787c62a, 12⟩,
    ⟨.F, .c, .d, .a, .b, .set 6, 0xa8304613, 17⟩, ⟨.F, .b, .c, .d, .a, .set 7, 0xfd469501, 22⟩,
    ⟨.F, .a, .b, .c, .d, .set 8, 0x698098d8, 7⟩, ⟨.F, .d, .a, .b, .c, .set 9, 0x8b44f7af, 12⟩,
    ⟨.F, .c, .d, .a, .b, .set 10, 0xffff5bb1, 17⟩, ⟨.F, .b, .c, .d, .a, .set 11, 0x895cd7be, 22⟩,
    ⟨.F, .a, .b, .c, .d, .set 12, 0x6b901122, 7⟩, ⟨.F, .d, .a, .b, .c, .set 13, 0xfd987193, 12⟩,
    ⟨.F, .c, .d, .a, .b, .set 14, 0xa679438e, 17⟩, ⟨.F, .b, .c, .d, .a, .set 15, 0x49b40821, 22⟩,
    ⟨.G, .a, .b, .c, .d, .get 1, 0xf61e2562, 5⟩, ⟨.G, .d, .a, .b, .c, .get 6, 0xc040b340, 9⟩,
    ⟨.G, .c, .d, .a, .b, .get 11, 0x265e5a51, 14⟩, ⟨.G, .b, .c, .d, .a, .get 0, 0xe9b6c7aa, 20⟩,
    ⟨.G, .a, .b, .c, .d, .get 5, 0xd62f105d, 5⟩, ⟨.G, .d, .a, .b, .c, .get 10, 0x02441453, 9⟩,
    ⟨.G, .c, .d, .a, .b, .get 15, 0xd8a1e681, 14⟩, ⟨.G, .b, .c, .d, .a, .get 4, 0xe7d3fbc8, 20⟩,
    ⟨.G, .a, .b, .c, .d, .get 9, 0x21e1cde6, 5⟩, ⟨.G, .d, .a, .b, .c, .get 14, 0xc33707d6, 9⟩,
    ⟨.G, .c, .d, .a, .b, .get 3, 0xf4d50d87, 14⟩, ⟨.G, .b, .c, .d, .a, .get 8, 0x455a14ed, 20⟩,
    ⟨.G, .a, .b, .c, .d, .get 13, 0xa9e3e905, 5⟩, ⟨.G, .d, .a, .b, .c, .get 2, 0xfcefa3f8, 9⟩,
    ⟨.G, .c, .d, .a, .b, .get 7, 0x676f02d9, 14⟩, ⟨.G, .b, .c, .d, .a, .get 12, 0x8d2a4c8a, 20⟩,
    ⟨.H, .a, .b, .c, .d, .get 5, 0xfffa3942, 4⟩, ⟨.H, .d, .a, .b, .c, .get 8, 0x8771f681, 11⟩,
    ⟨.H, .c, .d, .a, .b, .get 11, 0x6d9d6122, 16⟩, ⟨.H, .b, .c, .d, .a, .get 14, 0xfde5380c, 23⟩,
    ⟨.H, .a, .b, .c, .d, .get 1, 0xa4beea44, 4⟩, ⟨.H, .d, .a, .b, .c, .get 4, 0x4bdecfa9, 11⟩,
    ⟨.H, .c, .d, .a, .b, .get 7, 0xf6bb4b60, 16⟩, ⟨.H, .b, .c, .d, .a, .get 10, 0xbebfbc70, 23⟩,
    ⟨.H, .a, .b, .c, .d, .get 13, 0x289b7ec6, 4⟩, ⟨.H, .d, .a, .b, .c, .get 0, 0xeaa127fa, 11⟩,
    ⟨.H, .c, .d, .a, .b, .get 3, 0xd4ef3085, 16⟩, ⟨.H, .b, .c, .d, .a, .get 6, 0x04881d05, 23⟩,
    ⟨.H, .a, .b, .c, .d, .get 9, 0xd9d4d039, 4⟩, ⟨.H, .d, .a, .b, .c, .get 12, 0xe6db99e5, 11⟩,
    ⟨.H, .c, .d, .a, .b, .get 15, 0x1fa27cf8, 16⟩, ⟨.H, .b, .c, .d, .a, .get 2, 0xc4ac5665, 23⟩,
    ⟨.I, .a, .b, .c, .d, .get 0, 0xf4292244, 6⟩, ⟨.I, .d, .a, .b, .c, .get 7, 0x432aff97, 10⟩,
    ⟨.I, .c, .d, .a, .b, .get 14, 0xab9423a7, 15⟩, ⟨.I, .b, .c, .d, .a, .get 5, 0xfc93a039, 21⟩,
    ⟨.I, .a, .b, .c, .d, .get 12, 0x655b59c3, 6⟩, ⟨.I, .d, .a, .b, .c, .get 3, 0x8f0ccc92, 10⟩,
    ⟨.I, .c, .d, .a, .b, .get 10, 0xffeff47d, 15⟩, ⟨.I, .b, .c, .d, .a, .get 1, 0x85845dd1, 21⟩,
    ⟨.I, .a, .b, .c, .d, .get 8, 0x6fa87e4f, 6⟩, ⟨.I, .d, .a, .b, .c, .get 15, 0xfe2ce6e0, 10⟩,
    ⟨.I, .c, .d, .a, .b, .get 6, 0xa3014314, 15⟩, ⟨.I, .b, .c, .d, .a, .get 13, 0x4e0811a1, 21⟩,
    ⟨.I, .a, .b, .c, .d, .get 4, 0xf7537e82, 6⟩, ⟨.I, .d, .a, .b, .c, .get 11, 0xbd3af235, 10⟩,
    ⟨.I, .c, .d, .a, .b, .get 2, 0x2ad7d2bb, 15⟩, ⟨.I, .b, .c, .d, .a, .get 9, 0xeb86d391, 21⟩ ]

/-- `STEP`: the new value of its first register. -/
def md5Op (f : Md5Fun) (a b c d x t : U32Plus) (s : ℕ) : U32Plus :=
  let a := a + (f.eval b c d + x + t)
  let a := (a <<< s) ||| ((a &&& 0xffffffff) >>> (32 - s))
  a + b

/-- A byte of the data, as an `MD5_u32plus`. -/
def md5Byte (data : Bytes) (i : ℕ) : U32Plus := (data.getD i 0).toBitVec.setWidth 64

/-- What `SET(n)` reads: four bytes in little-endian order. -/
def md5Set (data : Bytes) (n : Fin 16) : U32Plus :=
  md5Byte data (n * 4) ||| (md5Byte data (n * 4 + 1) <<< 8) |||
    (md5Byte data (n * 4 + 2) <<< 16) ||| (md5Byte data (n * 4 + 3) <<< 24)

/-- One `STEP`, on the registers and `ctx->block`. A word that is set is decoded from the data, with
its lowest byte first. -/
def md5Step (data : Bytes) (st : Md5Regs 64 × (Fin 16 → U32Plus)) (op : Md5Step) :
    Md5Regs 64 × (Fin 16 → U32Plus) :=
  let block := match op.x with
    | .set n => Function.update st.2 n (md5Set data n)
    | .get _ => st.2
  let x := match op.x with
    | .set n | .get n => block n
  (st.1.set (md5Op op.f (st.1.get op.a) (st.1.get op.b) (st.1.get op.c) (st.1.get op.d) x
    (.ofNat 64 op.t) op.s) op.a, block)

/-- One round of the loop of `body`, on a block of 64 bytes. -/
def md5Block (st : Md5Regs 64 × (Fin 16 → U32Plus)) (data : Bytes) :
    Md5Regs 64 × (Fin 16 → U32Plus) :=
  let (r, block) := md5Steps.foldl (md5Step data) st
  (r.add st.1, block)

/-- `MD5_CTX`. -/
structure Md5Ctx where
  lo : U32Plus
  hi : U32Plus
  regs : Md5Regs 64
  buffer : Bytes
  block : Fin 16 → U32Plus

/-- The loop of `body`: one round, and as many more as are asked for; there is no result where a
block is read outside of the data. -/
def md5BodyLoop (data : Bytes) : ℕ → ℕ → Md5Regs 64 × (Fin 16 → U32Plus) →
    Option (Md5Regs 64 × (Fin 16 → U32Plus))
  | 0, ptr, st => (Blocks.read data ptr 64).map (md5Block st)
  | more + 1, ptr, st => do
    let st ← (Blocks.read data ptr 64).map (md5Block st)
    md5BodyLoop data more (ptr + 64) st

/-- `body`, for a size that is a positive multiple of 64: `size -= 64` ends the loop with its last
block. -/
def md5Body (ctx : Md5Ctx) (data : Bytes) (size : U32Plus) : Option Md5Ctx := do
  let (regs, block) ← md5BodyLoop data (size.toNat / 64 - 1) 0 (ctx.regs, ctx.block)
  return { ctx with regs, block }

/-! ## The stream -/

/-- `memcpy(&buffer[pos], data, size)`. -/
def md5Memcpy (buffer : Bytes) (pos : ℕ) (data : Bytes) (size : ℕ) : Option Bytes := do
  Blocks.write buffer pos (← Blocks.read data 0 size)

/-- `MD5_Init`: the buffer and the block stay as they are. -/
def md5Init (ctx : Md5Ctx) : Md5Ctx :=
  { ctx with regs := ⟨0x67452301, 0xefcdab89, 0x98badcfe, 0x10325476⟩, lo := 0, hi := 0 }

/-- The end of `MD5_Update`: whole blocks from the data, and the rest into the buffer. The sizes are
those of the machine words of the source. -/
def md5Whole (ctx : Md5Ctx) (data : Bytes) (size : U32Plus) : Option Md5Ctx := do
  if size ≥ 64 then
    let whole := size &&& ~~~(0x3f : U32Plus)
    let ctx ← md5Body ctx data whole
    let size := size &&& 0x3f
    let buffer ← md5Memcpy ctx.buffer 0 (data.drop whole.toNat) size.toNat
    return { ctx with buffer }
  else
    let buffer ← md5Memcpy ctx.buffer 0 data size.toNat
    return { ctx with buffer }

/-- The counters of `MD5_Update`: 29 bits in `lo`, the rest in `hi`. -/
def md5Count (ctx : Md5Ctx) (size : U32Plus) : Md5Ctx :=
  let lo := (ctx.lo + size) &&& 0x1fffffff
  let hi := if lo < ctx.lo then ctx.hi + 1 else ctx.hi
  { ctx with lo, hi := hi + (size >>> 29) }

/-- `MD5_Update`; there is no result where a copy leaves the buffer or the data. If there are bytes
in the buffer they are filled up to a block first, or the data is added to them if it is too short
for that. -/
def md5Update (ctx : Md5Ctx) (data : Bytes) : Option Md5Ctx := do
  let size : U32Plus := .ofNat 64 data.length
  let used := ctx.lo &&& 0x3f
  let ctx := md5Count ctx size
  if used ≠ 0 then
    let free := 64 - used
    if size < free then
      let buffer ← md5Memcpy ctx.buffer used.toNat data size.toNat
      return { ctx with buffer }
    let buffer ← md5Memcpy ctx.buffer used.toNat data free.toNat
    let ctx ← md5Body { ctx with buffer } buffer 64
    md5Whole ctx (data.drop free.toNat) (size - free)
  else
    md5Whole ctx data size

/-- `x`, `x >> 8`, `x >> 16` and `x >> 24`, as bytes. -/
def md5Bytes (x : U32Plus) : Bytes :=
  [⟨x.setWidth 8⟩, ⟨(x >>> 8).setWidth 8⟩, ⟨(x >>> 16).setWidth 8⟩, ⟨(x >>> 24).setWidth 8⟩]

/-- The padding of `MD5_Final` behind `used` bytes: the buffer with the zeros in front of the
length. If the length has no room behind the first byte of the padding, this block is finished, and
another one is begun. -/
def md5Pad (ctx : Md5Ctx) (used : ℕ) : Option Md5Ctx := do
  let buffer ← Blocks.write ctx.buffer used [0x80]
  let used := used + 1
  let free := 64 - used
  if free < 8 then
    let buffer ← Blocks.write buffer used (List.replicate free 0)
    let ctx ← md5Body { ctx with buffer } buffer 64
    let buffer ← Blocks.write ctx.buffer 0 (List.replicate (64 - 8) 0)
    return { ctx with buffer }
  else
    let buffer ← Blocks.write buffer used (List.replicate (free - 8) 0)
    return { ctx with buffer }

/-- `MD5_Final`: the digest, and the context; `sizeof(ctx)` is the size of a pointer, so that the
`memset` at the end clears `lo` only. -/
def md5Final (ctx : Md5Ctx) : Option (Bytes × Md5Ctx) := do
  let ctx ← md5Pad ctx (ctx.lo &&& 0x3f).toNat
  let ctx := { ctx with lo := ctx.lo <<< 3 }
  let buffer ← Blocks.write ctx.buffer 56 (md5Bytes ctx.lo)
  let buffer ← Blocks.write buffer 60 (md5Bytes ctx.hi)
  let ctx ← md5Body { ctx with buffer } buffer 64
  let result := md5Bytes ctx.regs.a ++ md5Bytes ctx.regs.b ++ md5Bytes ctx.regs.c ++
    md5Bytes ctx.regs.d
  return (result, { ctx with lo := 0 })

/-- `md5`, with the context on the stack; `len` is an `unsigned int`. -/
def md5 (ctx : Md5Ctx) (data : Bytes) (len : UInt32) : Option Bytes := do
  let ctx ← md5Update (md5Init ctx) (← Blocks.read data 0 len.toNat)
  let (dest, _) ← md5Final ctx
  return dest

/-- The digits of `md5_hex_conv`. -/
def md5HexDigits : Bytes := bytes "0123456789abcdef"

/-- `md5_hex_conv`: the bytes are `char`, and the shift is one of an `int`. -/
def md5HexConv (hash : Bytes) : Bytes :=
  hash.flatMap fun c =>
    let j := charInt c
    [md5HexDigits.getD ((j >>> 4) &&& 0x0f).toNatClampNeg 0,
      md5HexDigits.getD (j &&& 0x0f).toNatClampNeg 0]

/-- `md5_hex`. -/
def md5Hex (ctx : Md5Ctx) (data : Bytes) : Option Bytes :=
  (md5 ctx data (.ofNat data.length)).map md5HexConv

end Meowbot
