import Meowbot.Basic

set_option relaxedAutoImplicit false
set_option autoImplicit false

/-!
# Base64 (`base64_impl.c`, `base64.cpp`)

Three bytes are written as four characters of six bits each, the last ones filled up with `=`. The
functions on `std::string` allocate a buffer, hand its size over as an `unsigned int`, and make a
string of what is in the buffer up to the first terminator; a decoded text gets a terminator at its
end first.

A write outside of a buffer has no result.

## Main definitions

* `Meowbot.base64Encode`, `Meowbot.base64Decode` — the functions on buffers.
* `Meowbot.base64EncodeS`, `Meowbot.base64DecodeS` — the functions on strings.
* `Meowbot.Base64RoundTrip` — a string is encoded and decoded to itself.

## Main results

* `Meowbot.base64DecodeLoop_encoded` — what is encoded is decoded to the same bytes.
* `Meowbot.base64RoundTrip_iff` — the functions on strings do so for the strings without a NUL that
  are not empty, and the encoding of which has a size.
-/

namespace Meowbot

/-! ## The source -/

/-- The table `codes`. -/
def base64Codes : Bytes := bytes "ABCDEFGHIJKLMNOPQRSTUVWXYZabcdefghijklmnopqrstuvwxyz0123456789+/"

/-- The table `map`: the value of each character of the alphabet, 254 for the padding, and 255 for a
character that is skipped. -/
def base64Map : Bytes :=
  [255, 255, 255, 255, 255, 255, 255, 255, 255, 255, 255, 255,
   255, 255, 255, 255, 255, 255, 255, 255, 255, 255, 255, 255,
   255, 255, 255, 255, 255, 255, 255, 255, 255, 255, 255, 255,
   255, 255, 255, 255, 255, 255, 255,  62, 255, 255, 255,  63,
    52,  53,  54,  55,  56,  57,  58,  59,  60,  61, 255, 255,
   255, 254, 255, 255, 255,   0,   1,   2,   3,   4,   5,   6,
     7,   8,   9,  10,  11,  12,  13,  14,  15,  16,  17,  18,
    19,  20,  21,  22,  23,  24,  25, 255, 255, 255, 255, 255,
   255,  26,  27,  28,  29,  30,  31,  32,  33,  34,  35,  36,
    37,  38,  39,  40,  41,  42,  43,  44,  45,  46,  47,  48,
    49,  50,  51, 255, 255, 255, 255, 255, 255, 255, 255, 255,
   255, 255, 255, 255, 255, 255, 255, 255, 255, 255, 255, 255,
   255, 255, 255, 255, 255, 255, 255, 255, 255, 255, 255, 255,
   255, 255, 255, 255, 255, 255, 255, 255, 255, 255, 255, 255,
   255, 255, 255, 255, 255, 255, 255, 255, 255, 255, 255, 255,
   255, 255, 255, 255, 255, 255, 255, 255, 255, 255, 255, 255,
   255, 255, 255, 255, 255, 255, 255, 255, 255, 255, 255, 255,
   255, 255, 255, 255, 255, 255, 255, 255, 255, 255, 255, 255,
   255, 255, 255, 255, 255, 255, 255, 255, 255, 255, 255, 255,
   255, 255, 255, 255, 255, 255, 255, 255, 255, 255, 255, 255,
   255, 255, 255, 255, 255, 255, 255, 255, 255, 255, 255, 255,
   255, 255, 255, 255]

/-- `codes[n & 0x3F]` -/
def base64Code (n : ℕ) : Byte := base64Codes.getD (n &&& 0x3F) 0

/-- The characters for the bytes of the input, the loop of `base64_encode` and the padding. Three
bytes give four characters; where one or two are left, the missing ones count as zero and are
written as `=`. -/
def base64Chars : Bytes → Bytes
  | a :: b :: c :: rest =>
    base64Code (a.toNat >>> 2) :: base64Code (((a.toNat &&& 3) <<< 4) + (b.toNat >>> 4)) ::
      base64Code (((b.toNat &&& 0xf) <<< 2) + (c.toNat >>> 6)) :: base64Code c.toNat ::
        base64Chars rest
  | [a, b] =>
    [base64Code (a.toNat >>> 2), base64Code (((a.toNat &&& 3) <<< 4) + (b.toNat >>> 4)),
      base64Code ((b.toNat &&& 0xf) <<< 2), '=']
  | [a] => [base64Code (a.toNat >>> 2), base64Code (((a.toNat &&& 3) <<< 4) + (0 >>> 4)), '=', '=']
  | [] => []

/-- `base64_encode` on a buffer with some room: the result, and the bytes in the buffer. -/
def base64Encode (input : Bytes) (inlen : UInt32) (room : ℕ) (outlen : UInt32) :
    Option (ℤ × Bytes) :=
  let len2 := 4 * ((inlen + 2) / 3)
  if outlen < len2 + 1 then some (-2, [])
  else
    let out := base64Chars (input.take inlen.toNat) ++ [0]
    if out.length ≤ room then some (0, out) else none

/-- `base64_encode` on a string. -/
def base64EncodeS (data : Bytes) : Option Bytes := do
  let size := UInt32.ofNat (4 * ((data.length + 2) / 3) + 1)
  let (ret, buf) ← base64Encode data (UInt32.ofNat data.length) size.toNat size
  if ret = 0 then some (cstr buf) else some []

/-- The bytes that `base64_decode` writes for four characters. -/
def base64Bytes (t : UInt32) (g : ℤ) : Bytes :=
  [((t >>> 16) &&& 255).toUInt8] ++ (if 1 < g then [((t >>> 8) &&& 255).toUInt8] else []) ++
    (if 2 < g then [(t &&& 255).toUInt8] else [])

/-- The loop of `base64_decode`, on what is left of the input: the result, and the bytes in the
buffer. The number `z` of the source is the length of `out`. -/
def base64DecodeLoop (room : ℕ) (outlen : UInt32) :
    UInt32 → ℕ → ℤ → Bytes → Bytes → Option (ℤ × Bytes)
  | _, y, _, out, [] => if y ≠ 0 then some (-1, out) else some (0, out)
  | t, y, g, out, x :: input =>
    let c := base64Map.getD (x.toNat &&& 0xFF) 0
    if c = 255 then base64DecodeLoop room outlen t y g out input
    else if c = 254 ∧ g - 1 < 0 then some (-1, out)
    else if c ≠ 254 ∧ g ≠ 3 then some (-1, out)
    else
      let (c, g) := if c = 254 then (0, g - 1) else (c, g)
      let t := (t <<< 6) ||| c.toUInt32
      if y + 1 = 4 then
        if outlen.toNat < out.length + g then some (-1, out)
        else
          let out := out ++ base64Bytes t g
          if out.length ≤ room then base64DecodeLoop room outlen 0 0 g out input else none
      else base64DecodeLoop room outlen t (y + 1) g out input

/-- `base64_decode` on a buffer with some room. -/
def base64Decode (input : Bytes) (inlen : UInt32) (room : ℕ) (outlen : UInt32) :
    Option (ℤ × Bytes) :=
  base64DecodeLoop room outlen 0 0 3 [] (input.take inlen.toNat)

/-- `base64_decode` on a string. -/
def base64DecodeS (data : Bytes) : Option Bytes := do
  let size := UInt32.ofNat data.length
  let (ret, buf) ← base64Decode data size size.toNat size
  if ret = 0 then
    -- the terminator is written
    if buf.length < size.toNat then some (cstr (buf ++ [0])) else none
  else some []

/-- **A string is encoded and decoded to itself**, without a write outside of a buffer. -/
def Base64RoundTrip (s : Bytes) : Prop := (base64EncodeS s).bind base64DecodeS = some s

/-! ## Encoding -/

/-- The number of characters. -/
lemma length_base64Chars (s : Bytes) : (base64Chars s).length = 4 * ((s.length + 2) / 3) := by
  fun_induction base64Chars s with
  | case1 a b c rest ih =>
    simp only [List.length_cons, ih]
    omega
  | case2 a b => simp
  | case3 a => simp
  | case4 => rfl

/-- **The characters are read back**: the table of the decoder has their numbers. -/
lemma base64Map_code {n : ℕ} (h : n < 64) :
    base64Map.getD ((base64Code n).toNat &&& 0xFF) 0 = UInt8.ofNat n ∧ base64Code n ≠ 0 := by
  have hcodes : ∀ n < 64, base64Map.getD ((base64Code n).toNat &&& 0xFF) 0 = UInt8.ofNat n ∧
      base64Code n ≠ 0 := by
    decide +kernel
  exact hcodes n h

/-- The last six bits of a number tell the character. -/
lemma base64Code_mod (n : ℕ) : base64Code n = base64Code (n % 64) := by
  rw [base64Code, base64Code, show 0x3F = 2 ^ 6 - 1 from rfl, Nat.and_two_pow_sub_one_eq_mod,
    Nat.and_two_pow_sub_one_eq_mod, Nat.mod_mod]

/-- The characters for three bytes. -/
lemma base64Chars_three (a b c : Byte) (rest : Bytes) :
    base64Chars (a :: b :: c :: rest) =
      base64Code (a.toNat / 4) :: base64Code (a.toNat % 4 * 16 + b.toNat / 16) ::
        base64Code (b.toNat % 16 * 4 + c.toNat / 64) :: base64Code (c.toNat % 64) ::
          base64Chars rest := by
  rw [base64Chars, base64Code_mod c.toNat, show 3 = 2 ^ 2 - 1 from rfl,
    show 0xf = 2 ^ 4 - 1 from rfl, Nat.and_two_pow_sub_one_eq_mod, Nat.and_two_pow_sub_one_eq_mod]
  simp only [Nat.shiftRight_eq_div_pow, Nat.shiftLeft_eq]

/-- The characters for two bytes. -/
lemma base64Chars_two (a b : Byte) :
    base64Chars [a, b] = [base64Code (a.toNat / 4), base64Code (a.toNat % 4 * 16 + b.toNat / 16),
      base64Code (b.toNat % 16 * 4), '='] := by
  rw [base64Chars, show 3 = 2 ^ 2 - 1 from rfl, show 0xf = 2 ^ 4 - 1 from rfl,
    Nat.and_two_pow_sub_one_eq_mod, Nat.and_two_pow_sub_one_eq_mod]
  simp only [Nat.shiftRight_eq_div_pow, Nat.shiftLeft_eq]

/-- The characters for one byte. -/
lemma base64Chars_one (a : Byte) :
    base64Chars [a] = [base64Code (a.toNat / 4), base64Code (a.toNat % 4 * 16), '=', '='] := by
  rw [base64Chars, show 3 = 2 ^ 2 - 1 from rfl, Nat.and_two_pow_sub_one_eq_mod]
  simp only [Nat.shiftRight_eq_div_pow, Nat.shiftLeft_eq]
  rfl

/-- The characters hold no terminator. -/
lemma zero_notMem_base64Chars (s : Bytes) : 0 ∉ base64Chars s := by
  have hcode : ∀ n, base64Code n ≠ 0 := fun n => by
    rw [base64Code_mod]
    exact (base64Map_code (Nat.mod_lt n (by omega))).2
  fun_induction base64Chars s with
  | case1 a b c rest ih => simp [ih, (hcode _).symm]
  | case2 a b => simp [(hcode _).symm]
  | case3 a => simp [(hcode _).symm]
  | case4 => simp

/-! ## Decoding -/

/-- One more number of six bits. -/
lemma shift_or_eq {m n : ℕ} (hm : m < 2 ^ 18) (hn : n < 64) :
    (UInt32.ofNat m <<< 6) ||| (UInt8.ofNat n).toUInt32 = UInt32.ofNat (m * 64 + n) := by
  rw [← UInt32.toNat_inj]
  simp only [UInt32.toNat_or, UInt32.toNat_shiftLeft, UInt8.toNat_toUInt32, UInt8.toNat_ofNat',
    UInt32.toNat_ofNat']
  rw [show UInt32.toNat 6 % 32 = 6 from rfl, Nat.mod_eq_of_lt (show m < 2 ^ 32 by omega),
    Nat.mod_eq_of_lt (show n < 2 ^ 8 by omega), Nat.mod_eq_of_lt (show m <<< 6 < 2 ^ 32 by
      rw [Nat.shiftLeft_eq]; omega), Nat.mod_eq_of_lt (show m * 64 + n < 2 ^ 32 by omega),
    ← Nat.shiftLeft_add_eq_or_of_lt hn, Nat.shiftLeft_eq]

/-- One of the bytes of 24 bits. -/
lemma byte_of_shift {m : ℕ} (hm : m < 2 ^ 24) :
    ((UInt32.ofNat m >>> 16) &&& 255).toUInt8 = UInt8.ofNat (m / 65536) ∧
      ((UInt32.ofNat m >>> 8) &&& 255).toUInt8 = UInt8.ofNat (m / 256) ∧
        (UInt32.ofNat m &&& 255).toUInt8 = UInt8.ofNat m := by
  simp only [← UInt8.toNat_inj, UInt32.toNat_toUInt8, UInt32.toNat_and, UInt32.toNat_shiftRight,
    UInt8.toNat_ofNat', UInt32.toNat_ofNat']
  rw [show UInt32.toNat 16 % 32 = 16 from rfl, show UInt32.toNat 8 % 32 = 8 from rfl,
    show UInt32.toNat 255 = 2 ^ 8 - 1 from rfl, Nat.and_two_pow_sub_one_eq_mod,
    Nat.and_two_pow_sub_one_eq_mod, Nat.and_two_pow_sub_one_eq_mod, Nat.shiftRight_eq_div_pow,
    Nat.shiftRight_eq_div_pow]
  omega

/-- **A character of the table** is one more number of six bits. -/
lemma base64DecodeLoop_code (room : ℕ) (outlen : UInt32) {m n : ℕ} (hm : m < 2 ^ 18) (hn : n < 64)
    (y : ℕ) (out input : Bytes) :
    base64DecodeLoop room outlen (UInt32.ofNat m) y 3 out (base64Code n :: input) =
      if y + 1 = 4 then
        if outlen.toNat < (out.length : ℤ) + 3 then some (-1, out)
        else if (out ++ base64Bytes (UInt32.ofNat (m * 64 + n)) 3).length ≤ room then
          base64DecodeLoop room outlen 0 0 3
            (out ++ base64Bytes (UInt32.ofNat (m * 64 + n)) 3) input
        else none
      else base64DecodeLoop room outlen (UInt32.ofNat (m * 64 + n)) (y + 1) 3 out input := by
  have hne : UInt8.ofNat n ≠ 255 ∧ UInt8.ofNat n ≠ 254 := by
    have hall : ∀ n < 64, UInt8.ofNat n ≠ 255 ∧ UInt8.ofNat n ≠ 254 := by decide
    exact hall n hn
  rw [base64DecodeLoop, (base64Map_code hn).1, if_neg hne.1, if_neg (fun h => hne.2 h.1),
    if_neg (fun h => h.2 rfl)]
  simp only [if_neg hne.2, shift_or_eq hm hn]

/-- **A padding character** is six bits of zero, and one byte less. -/
lemma base64DecodeLoop_pad (room : ℕ) (outlen : UInt32) {m : ℕ} (hm : m < 2 ^ 18) {g : ℤ}
    (hg : 0 ≤ g - 1) (y : ℕ) (out input : Bytes) :
    base64DecodeLoop room outlen (UInt32.ofNat m) y g out ('=' :: input) =
      if y + 1 = 4 then
        if outlen.toNat < (out.length : ℤ) + (g - 1) then some (-1, out)
        else if (out ++ base64Bytes (UInt32.ofNat (m * 64)) (g - 1)).length ≤ room then
          base64DecodeLoop room outlen 0 0 (g - 1)
            (out ++ base64Bytes (UInt32.ofNat (m * 64)) (g - 1)) input
        else none
      else base64DecodeLoop room outlen (UInt32.ofNat (m * 64)) (y + 1) (g - 1) out input := by
  have hmap : base64Map.getD (((('=' : Char) : Byte)).toNat &&& 0xFF) 0 = 254 := by decide
  have hshift : (UInt32.ofNat m <<< 6) ||| (0 : Byte).toUInt32 = UInt32.ofNat (m * 64) :=
    shift_or_eq hm (n := 0) (by omega)
  rw [base64DecodeLoop, hmap, if_neg (by decide), if_neg (by omega), if_neg (by simp)]
  simp only [if_true, hshift]

/-- The bytes of 24 bits, the last ones left out for padding. -/
lemma base64Bytes_eq {m : ℕ} (hm : m < 2 ^ 24) :
    base64Bytes (UInt32.ofNat m) 3 =
        [UInt8.ofNat (m / 65536), UInt8.ofNat (m / 256), UInt8.ofNat m] ∧
      base64Bytes (UInt32.ofNat m) 2 = [UInt8.ofNat (m / 65536), UInt8.ofNat (m / 256)] ∧
        base64Bytes (UInt32.ofNat m) 1 = [UInt8.ofNat (m / 65536)] := by
  obtain ⟨h16, h8, h0⟩ := byte_of_shift hm
  simp only [base64Bytes, h16, h8, h0]
  exact ⟨rfl, rfl, rfl⟩

/-- A byte from a number. -/
lemma ofNat_eq_of_mod {n : ℕ} {b : Byte} (h : n % 256 = b.toNat) : UInt8.ofNat n = b := by
  rw [← UInt8.toNat_inj, UInt8.toNat_ofNat']
  exact h

/-- Four characters for three bytes. -/
lemma base64DecodeLoop_three {room : ℕ} {outlen : UInt32} {out : Bytes}
    (hlen : out.length + 3 ≤ outlen.toNat) (hroom : out.length + 3 ≤ room) (a b c : Byte)
    (rest : Bytes) :
    base64DecodeLoop room outlen 0 0 3 out (base64Chars (a :: b :: c :: rest)) =
      base64DecodeLoop room outlen 0 0 3 (out ++ [a, b, c]) (base64Chars rest) := by
  have ha := a.toNat_lt
  have hb := b.toNat_lt
  have hc := c.toNat_lt
  rw [base64Chars_three, show (0 : UInt32) = UInt32.ofNat 0 from rfl,
    base64DecodeLoop_code room outlen (by omega) (by omega), if_neg (by omega),
    base64DecodeLoop_code room outlen (by omega) (by omega), if_neg (by omega),
    base64DecodeLoop_code room outlen (by omega) (by omega), if_neg (by omega),
    base64DecodeLoop_code room outlen (by omega) (by omega), if_pos rfl, if_neg (by omega)]
  rw [(base64Bytes_eq (by omega)).1, ofNat_eq_of_mod (b := a) (by omega),
    ofNat_eq_of_mod (b := b) (by omega), ofNat_eq_of_mod (b := c) (by omega),
    if_pos (by simpa using hroom)]
  rfl

/-- Four characters for two bytes at the end. -/
lemma base64DecodeLoop_two {room : ℕ} {outlen : UInt32} {out : Bytes}
    (hlen : out.length + 2 ≤ outlen.toNat) (hroom : out.length + 2 ≤ room) (a b : Byte) :
    base64DecodeLoop room outlen 0 0 3 out (base64Chars [a, b]) = some (0, out ++ [a, b]) := by
  have ha := a.toNat_lt
  have hb := b.toNat_lt
  rw [base64Chars_two, show (0 : UInt32) = UInt32.ofNat 0 from rfl,
    base64DecodeLoop_code room outlen (by omega) (by omega), if_neg (by omega),
    base64DecodeLoop_code room outlen (by omega) (by omega), if_neg (by omega),
    base64DecodeLoop_code room outlen (by omega) (by omega), if_neg (by omega),
    base64DecodeLoop_pad room outlen (by omega) (by omega), if_pos rfl, if_neg (by omega),
    show (3 : ℤ) - 1 = 2 from rfl]
  rw [(base64Bytes_eq (by omega)).2.1, ofNat_eq_of_mod (b := a) (by omega),
    ofNat_eq_of_mod (b := b) (by omega), if_pos (by simpa using hroom)]
  rfl

/-- Four characters for one byte at the end. -/
lemma base64DecodeLoop_one {room : ℕ} {outlen : UInt32} {out : Bytes}
    (hlen : out.length + 1 ≤ outlen.toNat) (hroom : out.length + 1 ≤ room) (a : Byte) :
    base64DecodeLoop room outlen 0 0 3 out (base64Chars [a]) = some (0, out ++ [a]) := by
  have ha := a.toNat_lt
  rw [base64Chars_one, show (0 : UInt32) = UInt32.ofNat 0 from rfl,
    base64DecodeLoop_code room outlen (by omega) (by omega), if_neg (by omega),
    base64DecodeLoop_code room outlen (by omega) (by omega), if_neg (by omega),
    base64DecodeLoop_pad room outlen (by omega) (by omega), if_neg (by omega),
    base64DecodeLoop_pad room outlen (by omega) (by omega), if_pos rfl, if_neg (by omega),
    show (3 : ℤ) - 1 - 1 = 1 from rfl]
  rw [(base64Bytes_eq (by omega)).2.2, ofNat_eq_of_mod (b := a) (by omega),
    if_pos (by simpa using hroom)]
  rfl

/-- **What is encoded is decoded** to the same bytes, in a buffer with room for them.

**Proof sketch.** Induction on the input, three bytes at a time. The four characters for them are
the digits in base 64 of a number of 24 bits, and the bytes are its digits in base 256. -/
lemma base64DecodeLoop_encoded {room : ℕ} {outlen : UInt32} (s : Bytes) {out : Bytes}
    (hlen : out.length + s.length ≤ outlen.toNat) (hroom : out.length + s.length ≤ room) :
    base64DecodeLoop room outlen 0 0 3 out (base64Chars s) = some (0, out ++ s) := by
  induction s using base64Chars.induct generalizing out with
  | case1 a b c rest ih =>
    simp only [List.length_cons] at hlen hroom
    have hshort : (out ++ [a, b, c]).length = out.length + 3 := by simp
    rw [base64DecodeLoop_three (by omega) (by omega), ih (by omega) (by omega), List.append_assoc]
    rfl
  | case2 a b => exact base64DecodeLoop_two hlen hroom a b
  | case3 a => exact base64DecodeLoop_one hlen hroom a
  | case4 => rw [base64Chars, base64DecodeLoop, if_neg (by omega), List.append_nil]

/-! ## Strings -/

/-- What is decoded holds no NUL, and its length is a size. -/
lemma of_base64DecodeS {data r : Bytes} (h : base64DecodeS data = some r) :
    0 ∉ r ∧ r.length < 2 ^ 32 := by
  obtain ⟨⟨ret, buf⟩, -, hr⟩ := Option.bind_eq_some_iff.mp h
  have hsize := (UInt32.ofNat data.length).toNat_lt
  simp only at hr
  split_ifs at hr with hret hroom
  · rw [← Option.some.inj hr]
    refine ⟨zero_notMem_cstr _, ?_⟩
    have hle : (cstr (buf ++ [0])).length ≤ (buf ++ [0]).length :=
      (List.takeWhile_sublist _).length_le
    rw [List.length_append, List.length_singleton] at hle
    omega
  · rw [← Option.some.inj hr]
    simp

/-- The encoding of a string has a size. -/
def Base64Fits (s : Bytes) : Prop := 4 * ((s.length + 2) / 3) + 1 < 2 ^ 32

/-- **The encoding of a string** that has a size.

**Proof sketch.** The condition makes all sizes machine words without a wrap, so the buffer has
exactly the room for the characters and the NUL behind them. -/
lemma base64EncodeS_eq {s : Bytes} (h : Base64Fits s) : base64EncodeS s = some (base64Chars s) := by
  rw [Base64Fits] at h
  have hinlen : (UInt32.ofNat s.length).toNat = s.length :=
    UInt32.toNat_ofNat_of_lt' (show s.length < 2 ^ 32 by omega)
  have hsize : (UInt32.ofNat (4 * ((s.length + 2) / 3) + 1)).toNat =
      4 * ((s.length + 2) / 3) + 1 := UInt32.toNat_ofNat_of_lt' h
  have hlen2 : 4 * ((UInt32.ofNat s.length + 2) / 3) + 1 =
      UInt32.ofNat (4 * ((s.length + 2) / 3) + 1) := by
    rw [← UInt32.toNat_inj, hsize]
    simp only [UInt32.toNat_add, UInt32.toNat_mul, UInt32.toNat_div, hinlen, UInt32.reduceToNat]
    rw [Nat.mod_eq_of_lt (show s.length + 2 < 2 ^ 32 by omega)]
    omega
  have hroom : (base64Chars s ++ [0]).length ≤ 4 * ((s.length + 2) / 3) + 1 := by
    rw [List.length_append, length_base64Chars, List.length_singleton]
  rw [base64EncodeS, base64Encode, hlen2, hinlen, hsize, List.take_length]
  simp only [if_neg (UInt32.lt_irrefl _), if_pos hroom, Option.bind_eq_bind, Option.bind_some,
    if_true]
  rw [cstr_append_zero (zero_notMem_base64Chars s)]

/-- The encoding of a string that has no size: bytes are written outside of the buffer, unless the
string is refused. -/
lemma base64EncodeS_of_not_fits {s : Bytes} (h : ¬ Base64Fits s) (hlen : s.length < 2 ^ 32) :
    base64EncodeS s = none ∨ base64EncodeS s = some [] := by
  have hinlen : (UInt32.ofNat s.length).toNat = s.length := UInt32.toNat_ofNat_of_lt' hlen
  have hsize := (UInt32.ofNat (4 * ((s.length + 2) / 3) + 1)).toNat_lt
  have hroom : ¬ (base64Chars s ++ [0]).length ≤
      (UInt32.ofNat (4 * ((s.length + 2) / 3) + 1)).toNat := by
    rw [Base64Fits] at h
    rw [List.length_append, length_base64Chars, List.length_singleton]
    omega
  rw [base64EncodeS, base64Encode, hinlen, List.take_length]
  simp only
  split_ifs with hsmall
  · exact .inr rfl
  · exact .inl rfl

/-- **What is encoded is decoded** to the same string, up to the first NUL. -/
lemma base64DecodeS_base64Chars {s : Bytes} (hs : s ≠ []) (h : Base64Fits s) :
    base64DecodeS (base64Chars s) = some (cstr (s ++ [0])) := by
  rw [Base64Fits] at h
  have hpos := List.length_pos_iff.mpr hs
  have hlen := length_base64Chars s
  have hsize : (UInt32.ofNat (base64Chars s).length).toNat = (base64Chars s).length :=
    UInt32.toNat_ofNat_of_lt' (show _ < 2 ^ 32 by rw [hlen]; omega)
  have hdecode : base64Decode (base64Chars s) (UInt32.ofNat (base64Chars s).length)
      (base64Chars s).length (UInt32.ofNat (base64Chars s).length) = some (0, s) := by
    rw [base64Decode, hsize, List.take_length]
    exact base64DecodeLoop_encoded s (by rw [hsize, hlen]; simp; omega) (by rw [hlen]; simp; omega)
  rw [base64DecodeS, hsize, hdecode]
  simp only [Option.bind_eq_bind, Option.bind_some, if_true]
  rw [if_pos (by omega)]

/-- An empty string is decoded in an empty buffer, so that the terminator is written outside. -/
lemma base64DecodeS_nil : base64DecodeS [] = none := rfl

/-- **A string is encoded and decoded to itself** exactly if it is not empty, holds no NUL, and its
encoding has a size.

**Proof sketch.** An empty string is decoded in a buffer of no size. A NUL ends the string that is
made of the buffer. If the size of the encoding is too large for an `unsigned int`, either the
buffer is too small, or the length of the string is no `unsigned int`, and then no result has this
length. -/
theorem base64RoundTrip_iff (s : Bytes) :
    Base64RoundTrip s ↔ s ≠ [] ∧ 0 ∉ s ∧ Base64Fits s := by
  constructor
  · intro h
    obtain ⟨e, he, hd⟩ := Option.bind_eq_some_iff.mp h
    obtain ⟨hzero, hlen⟩ := of_base64DecodeS hd
    have hfits : Base64Fits s := by
      by_contra hnot
      obtain hnone | hempty := base64EncodeS_of_not_fits hnot hlen
      · rw [hnone] at he
        cases he
      · rw [hempty] at he
        rw [← Option.some.inj he, base64DecodeS_nil] at hd
        cases hd
    refine ⟨?_, hzero, hfits⟩
    rintro rfl
    rw [base64EncodeS_eq hfits] at he
    rw [← Option.some.inj he, base64Chars, base64DecodeS_nil] at hd
    cases hd
  · rintro ⟨hs, hzero, hfits⟩
    rw [Base64RoundTrip, base64EncodeS_eq hfits, Option.bind_some,
      base64DecodeS_base64Chars hs hfits, cstr_append_zero hzero]

/-- **The empty string**, and a string of one NUL. -/
theorem not_base64RoundTrip :
    (base64EncodeS [] = some [] ∧ base64DecodeS [] = none) ∧
      (base64EncodeS [0] = some (bytes "AA==") ∧ base64DecodeS (bytes "AA==") = some []) ∧
        ¬ Base64RoundTrip [] ∧ ¬ Base64RoundTrip [0] := by
  have hempty : base64EncodeS [] = some [] := rfl
  have hencode : base64EncodeS [0] = some (bytes "AA==") := by
    rw [base64EncodeS_eq (show Base64Fits [0] by unfold Base64Fits; decide)]
    decide
  have hdecode : base64DecodeS (bytes "AA==") = some [] := by decide +kernel
  refine ⟨⟨hempty, rfl⟩, ⟨hencode, hdecode⟩, ?_, ?_⟩
  · rw [Base64RoundTrip, hempty]
    simp [base64DecodeS_nil]
  · rw [Base64RoundTrip, hencode, Option.bind_some, hdecode]
    simp

end Meowbot
