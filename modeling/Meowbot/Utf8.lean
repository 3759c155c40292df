import Meowbot.Basic

set_option relaxedAutoImplicit false
set_option autoImplicit false

/-!
# UTF-8 (`utf8_impl.c`, `utf8.cpp`)

A code point is written in one to four bytes, and read from them by the same division into classes.
The encoding itself is that of the core library, `String.utf8EncodeChar`: a list of Unicode scalar
values is a list of characters, and a well-formed text is the concatenation of their encodings. In
the class of four bytes the source shifts the leading bits by 15 places instead of 18, when it
writes as well as when it reads.

## Main definitions

* `Meowbot.utf8Encode`, `Meowbot.utf8EncodeS` — the encoder.
* `Meowbot.utf8DecodeV2`, `Meowbot.utf8DecodeS` — the decoder.
* `Meowbot.utf8GetsizeChar`, `Meowbot.utf8SplitChars` — where a text is split.
* `Meowbot.utf8Text`, `Meowbot.utf8Chars?` — the encoding of a list of characters, and the list of
  an encoding.

## Main results

* `Meowbot.utf8EncodeS_text_iff` — which lists are encoded as they should be.
* `Meowbot.utf8SplitChars_text` — a well-formed text is split into its characters.
* `Meowbot.utf8DecodeS_text_iff` — which texts are decoded as they should be.
-/

namespace Meowbot

/-! ## The source -/

/-- The assignment of an `unsigned int` to a `char`. -/
def toChar (n : UInt32) : Byte := n.toUInt8

/-- The bytes that `utf8_encode` puts in `utf8buf`, none for a value that is not a scalar value. The
first of four bytes is made with a shift by 15, as the source has it. -/
def utf8Buf (unicodeValue : UInt32) : Bytes :=
  if unicodeValue ≤ 0x00007F then [toChar (unicodeValue &&& 0x7F)]
  else if unicodeValue ≥ 0x000080 ∧ unicodeValue ≤ 0x0007FF then
    [toChar ((0xC0 : UInt32) ||| (unicodeValue >>> 6)),
      toChar ((0x80 : UInt32) ||| (unicodeValue &&& 0x3F))]
  else if (unicodeValue ≥ 0x000800 ∧ unicodeValue ≤ 0x00D7FF) ∨
      (unicodeValue ≥ 0x00E000 ∧ unicodeValue ≤ 0x00FFFF) then
    [toChar ((0xE0 : UInt32) ||| (unicodeValue >>> 12)),
      toChar ((0x80 : UInt32) ||| ((unicodeValue >>> 6) &&& 0x3F)),
      toChar ((0x80 : UInt32) ||| (unicodeValue &&& 0x3F))]
  else if unicodeValue ≥ 0x010000 ∧ unicodeValue ≤ 0x10FFFF then
    [toChar ((0xF0 : UInt32) ||| (unicodeValue >>> 15)),
      toChar ((0x80 : UInt32) ||| ((unicodeValue >>> 12) &&& 0x3F)),
      toChar ((0x80 : UInt32) ||| ((unicodeValue >>> 6) &&& 0x3F)),
      toChar ((0x80 : UInt32) ||| (unicodeValue &&& 0x3F))]
  else []

/-- `utf8_encode`: the result, and what is written to a destination of some size. -/
def utf8Encode (unicodeValue : UInt32) (size : ℕ) : ℤ × Bytes :=
  let utf8buf := utf8Buf unicodeValue
  if utf8buf = [] then (0, [])
  else if size < utf8buf.length then (-utf8buf.length, [])
  else (utf8buf.length, utf8buf)

/-- `utf8_encode_s` -/
def utf8EncodeS (unicode : UInt32) : Bytes :=
  let r := utf8Encode unicode 8
  r.2.take r.1.toNat

/-- A byte of a string, the terminator and what is behind it being zero. -/
def charAt (p : Bytes) (i : ℕ) : Byte := p.getD i 0

/-- `utf8_decode_v2`: the code point and `charlen`. Later bytes are tested for NUL only; the first
of four is moved by 15 places, as the source has it. -/
def utf8DecodeV2 (utf8char : Bytes) (size : ℕ) : UInt32 × ℕ :=
  let c := charAt utf8char
  let bits (i : ℕ) (mask : Byte) : UInt32 := (c i &&& mask).toUInt32
  if size = 0 ∨ c 0 = 0 then (0xFFFFFFFF, 0)
  else if c 0 &&& 0x80 = 0x00 then (bits 0 0x7F, 1)
  else if c 0 &&& 0xE0 = 0xC0 then
    (if size < 2 ∨ c 1 = 0 then 0xFFFFFFFF else bits 0 0x1F <<< 6 ||| bits 1 0x3F, 2)
  else if c 0 &&& 0xF0 = 0xE0 then
    (if size < 3 ∨ c 1 = 0 ∨ c 2 = 0 then 0xFFFFFFFF
      else bits 0 0x0F <<< 12 ||| bits 1 0x3F <<< 6 ||| bits 2 0x3F, 3)
  else if c 0 &&& 0xF8 = 0xF0 then
    (if size < 4 ∨ c 1 = 0 ∨ c 2 = 0 ∨ c 3 = 0 then 0xFFFFFFFF
      else bits 0 0x07 <<< 15 ||| bits 1 0x3F <<< 12 ||| bits 2 0x3F <<< 6 ||| bits 3 0x3F, 4)
  else (0xFFFFFFFF, 0)

/-- `(size_t)-1` -/
def sizeMax : ℕ := 2 ^ 64 - 1

/-- `utf8_decode_s` -/
def utf8DecodeS (utf8Str : Bytes) : UInt32 := (utf8DecodeV2 (cstr utf8Str) sizeMax).1

/-- `utf8_getsize_char_nc`: the number of bytes that the first one announces, zero at the end of the
string, and -1 for a byte that begins no character. -/
def utf8GetsizeCharNc (utf8char : Bytes) : ℤ :=
  let c := charAt utf8char 0
  if c = 0 then 0
  else if c &&& 0x80 = 0x00 then 1
  else if c &&& 0xE0 = 0xC0 then 2
  else if c &&& 0xF0 = 0xE0 then 3
  else if c &&& 0xF8 = 0xF0 then 4
  else -1

/-- `utf8_getsize_char` -/
def utf8GetsizeChar (utf8char : Bytes) : ℤ :=
  let len := utf8GetsizeCharNc utf8char
  let broken (i : ℕ) : Bool := charAt utf8char i = 0 || charAt utf8char i &&& 0x80 ≠ 0x80
  if (List.range' 1 (len.toNat - 1)).any broken then -len else len

/-- An empty string has no characters. -/
lemma utf8GetsizeChar_nil : utf8GetsizeChar [] = 0 := rfl

/-- The loop of `utf8_split_chars`, from a place in the string on. It ends at the first place that
begins no character, which may be the end. -/
def utf8SplitLoop (p : Bytes) : List Bytes :=
  let len := utf8GetsizeChar p
  if 0 < len then p.take len.toNat :: utf8SplitLoop (p.drop len.toNat) else []
termination_by p.length
decreasing_by
  have hp : p ≠ [] := by
    rintro rfl
    exact absurd ‹0 < len› (by decide)
  have := List.length_pos_iff.mpr hp
  rw [List.length_drop]
  omega

/-- `utf8_split_chars` -/
def utf8SplitChars (str : Bytes) : List Bytes := utf8SplitLoop (cstr str)

/-- The encoding of a list of characters. -/
def utf8Text (cs : List Char) : Bytes := cs.flatMap String.utf8EncodeChar

/-- The bytes of a text. -/
def utf8Bytes (s : String) : Bytes := utf8Text s.toList

/-- A text with a first character. -/
lemma utf8Text_cons (x : Char) (xs : List Char) :
    utf8Text (x :: xs) = String.utf8EncodeChar x ++ utf8Text xs := List.flatMap_cons

/-- The text of more characters. -/
lemma utf8Text_append (xs ys : List Char) : utf8Text (xs ++ ys) = utf8Text xs ++ utf8Text ys :=
  List.flatMap_append

/-- Two lists of characters with one encoding are one list. -/
lemma utf8Text_injective {cs cs' : List Char} (h : utf8Text cs = utf8Text cs') : cs = cs' := by
  apply String.ofList_injective
  rw [← String.toByteArray_inj, String.toByteArray_ofList, String.toByteArray_ofList]
  exact congrArg List.toByteArray h

/-- The characters of a well-formed text. -/
def utf8Chars? (s : Bytes) : Option (List Char) :=
  s.toByteArray.utf8Decode?.map Array.toList

/-- A well-formed text has its characters. -/
@[simp] lemma utf8Chars?_utf8Text (cs : List Char) : utf8Chars? (utf8Text cs) = some cs := by
  have h : (utf8Text cs).toByteArray = cs.utf8Encode := rfl
  rw [utf8Chars?, h, List.utf8Decode?_utf8Encode]
  rfl

/-- A text that has characters is their encoding. -/
lemma utf8Chars?_eq_some_iff {s : Bytes} {cs : List Char} :
    utf8Chars? s = some cs ↔ s = utf8Text cs := by
  constructor
  · intro h
    have hsome : s.toByteArray.utf8Decode?.isSome := by
      rw [utf8Chars?] at h
      obtain ⟨a, ha, -⟩ := Option.map_eq_some_iff.mp h
      rw [ha]
      rfl
    obtain ⟨l, hl⟩ := ByteArray.isSome_utf8Decode?_iff.mp hsome
    have hs : s = utf8Text l := by
      have hdata := congrArg (fun b : ByteArray => b.data.toList) hl
      simpa [List.utf8Encode, utf8Text] using hdata
    rw [hs, utf8Chars?_utf8Text] at h
    rw [hs, Option.some.inj h]
  · rintro rfl
    exact utf8Chars?_utf8Text cs

/-- A code point in front of the surrogates is that of a character. -/
lemma toNat_charOfNat {c : ℕ} (h : c < 0xD800) : (Char.ofNat c).toNat = c := by
  rw [Char.ofNat, dif_pos (Or.inl h)]
  rfl

/-! ## The bytes of a character -/

/-- The first byte of a character of two bytes. -/
def lead2 (w : ℕ) : Byte := UInt8.ofNat (w + 0xC0)

/-- The first byte of a character of three bytes. -/
def lead3 (w : ℕ) : Byte := UInt8.ofNat (w + 0xE0)

/-- The first byte of a character of four bytes. -/
def lead4 (w : ℕ) : Byte := UInt8.ofNat (w + 0xF0)

/-- A later byte of a character. -/
def tailByte (x : ℕ) : Byte := UInt8.ofNat (x + 0x80)

/-- **The four classes**: the digits of the code point of a character, and its bytes.

**Proof sketch.** By the size of the code point. The digits are its quotient and remainders by
powers of 64, and the bytes are those of the encoder of the standard library. -/
lemma utf8EncodeChar_cases (c : Char) :
    (c.val.toNat < 0x80 ∧ String.utf8EncodeChar c = [UInt8.ofNat c.val.toNat]) ∨
    (∃ w < 0x20, ∃ x < 0x40, c.val.toNat = w * 0x40 + x ∧ 0x80 ≤ c.val.toNat ∧
      String.utf8EncodeChar c = [lead2 w, tailByte x]) ∨
    (∃ w < 0x10, ∃ x < 0x40, ∃ y < 0x40, c.val.toNat = w * 0x1000 + x * 0x40 + y ∧
      0x800 ≤ c.val.toNat ∧ (c.val.toNat ≤ 0xD7FF ∨ 0xE000 ≤ c.val.toNat) ∧
      String.utf8EncodeChar c = [lead3 w, tailByte x, tailByte y]) ∨
    (∃ w < 5, ∃ x < 0x40, ∃ y < 0x40, ∃ z < 0x40,
      c.val.toNat = w * 0x40000 + x * 0x1000 + y * 0x40 + z ∧ 0x10000 ≤ c.val.toNat ∧
      c.val.toNat ≤ 0x10FFFF ∧
      String.utf8EncodeChar c = [lead4 w, tailByte x, tailByte y, tailByte z]) := by
  have hvalid : c.val.toNat < 0xD800 ∨ 0xDFFF < c.val.toNat ∧ c.val.toNat < 0x110000 := c.valid
  generalize hv : c.val.toNat = v at hvalid ⊢
  rcases Nat.lt_or_ge v 0x80 with h1 | h1
  · refine .inl ⟨h1, ?_⟩
    rw [String.utf8EncodeChar, hv]
    exact if_pos (by omega)
  rcases Nat.lt_or_ge v 0x800 with h2 | h2
  · refine .inr (.inl ⟨v / 64 % 0x20, by omega, v % 0x40, by omega, by omega, h1, ?_⟩)
    simp only [String.utf8EncodeChar, hv]
    rw [if_neg (by omega), if_pos (by omega)]
    rfl
  rcases Nat.lt_or_ge v 0x10000 with h3 | h3
  · refine .inr (.inr (.inl ⟨v / 4096 % 0x10, by omega, v / 64 % 0x40, by omega, v % 0x40, by omega,
      by omega, h2, by omega, ?_⟩))
    simp only [String.utf8EncodeChar, hv]
    rw [if_neg (by omega), if_neg (by omega), if_pos (by omega)]
    rfl
  · refine .inr (.inr (.inr ⟨v / 262144 % 0x08, by omega, v / 4096 % 0x40, by omega, v / 64 % 0x40,
      by omega, v % 0x40, by omega, by omega, h3, by omega, ?_⟩))
    simp only [String.utf8EncodeChar, hv]
    rw [if_neg (by omega), if_neg (by omega), if_neg (by omega)]
    rfl

/-- A scalar value below `0x80` is a byte. -/
lemma toChar_ascii {v : UInt32} (h : v.toNat < 0x80) :
    toChar (v &&& 0x7F) = UInt8.ofNat v.toNat := by
  have hand : v.toNat &&& 127 = v.toNat % 128 := Nat.and_two_pow_sub_one_eq_mod _ 7
  apply UInt8.toNat_inj.mp
  simp only [toChar, UInt32.toNat_toUInt8, UInt32.toNat_and, UInt32.reduceToNat, hand,
    UInt8.toNat_ofNat']
  omega

/-- A byte that is no first byte. -/
lemma toChar_tail {w : UInt32} {x : ℕ} (hx : w.toNat % 0x40 = x) :
    toChar ((0x80 : UInt32) ||| (w &&& 0x3F)) = tailByte x := by
  have hor : ∀ x < 64, 128 ||| x = x + 128 := by decide
  have hand : w.toNat &&& 63 = w.toNat % 64 := Nat.and_two_pow_sub_one_eq_mod _ 6
  apply UInt8.toNat_inj.mp
  simp only [toChar, tailByte, UInt32.toNat_toUInt8, UInt32.toNat_or, UInt32.toNat_and,
    UInt32.reduceToNat, hand, hx, hor x (by omega), UInt8.toNat_ofNat']

/-- A first byte of two bytes. -/
lemma toChar_lead2 {n : UInt32} {w : ℕ} (hn : n.toNat = w) (hw : w < 0x20) :
    toChar ((0xC0 : UInt32) ||| n) = lead2 w := by
  have hor : ∀ w < 32, 192 ||| w = w + 192 := by decide
  apply UInt8.toNat_inj.mp
  simp only [toChar, lead2, UInt32.toNat_toUInt8, UInt32.toNat_or, UInt32.reduceToNat, hn, hor w hw,
    UInt8.toNat_ofNat']

/-- A first byte of three bytes. -/
lemma toChar_lead3 {n : UInt32} {w : ℕ} (hn : n.toNat = w) (hw : w < 0x10) :
    toChar ((0xE0 : UInt32) ||| n) = lead3 w := by
  have hor : ∀ w < 16, 224 ||| w = w + 224 := by decide
  apply UInt8.toNat_inj.mp
  simp only [toChar, lead3, UInt32.toNat_toUInt8, UInt32.toNat_or, UInt32.reduceToNat, hn, hor w hw,
    UInt8.toNat_ofNat']

/-- **The first byte of four bytes** has three bits of the code point too many, and is right only by
chance. -/
lemma toChar_lead4 {n : UInt32} {v : ℕ} (hn : n.toNat = v / 0x8000) (hge : 0x10000 ≤ v)
    (hle : v ≤ 0x10FFFF) :
    toChar ((0xF0 : UInt32) ||| n) = lead4 (v / 0x40000) ↔ 0x90000 ≤ v ∧ v < 0x98000 := by
  have hor : ∀ n < 34, 2 ≤ n → ((240 ||| n) % 256 = (n / 8 + 240) % 256 ↔ n = 18) := by decide
  have hdiv : v / 0x40000 = v / 0x8000 / 8 := by rw [Nat.div_div_eq_div_mul]
  rw [← UInt8.toNat_inj]
  simp only [toChar, lead4, UInt32.toNat_toUInt8, UInt32.toNat_or, hn, hdiv]
  refine (hor (v / 0x8000) (by omega) (by omega)).trans ?_
  omega

/-! ## The encoder -/

/-- The destination is large enough. -/
lemma utf8EncodeS_eq (unicode : UInt32) : utf8EncodeS unicode = utf8Buf unicode := by
  have hlen : (utf8Buf unicode).length ≤ 4 := by
    unfold utf8Buf
    split_ifs <;> simp
  rw [utf8EncodeS, utf8Encode]
  by_cases h : utf8Buf unicode = []
  · rw [if_pos h, h]
    rfl
  · rw [if_neg h, if_neg (by omega)]
    simp

/-- The number of bytes is right. -/
lemma length_utf8EncodeS (c : Char) :
    (utf8EncodeS c.val).length = (String.utf8EncodeChar c).length := by
  rw [utf8EncodeS_eq, utf8Buf]
  simp only [ge_iff_le, UInt32.le_iff_toNat_le, UInt32.reduceToNat]
  rcases utf8EncodeChar_cases c with ⟨h, henc⟩ | ⟨w, hw, x, hx, hv, hge, henc⟩ |
    ⟨w, hw, x, hx, y, hy, hv, hge, hnot, henc⟩ | ⟨w, hw, x, hx, y, hy, z, hz, hv, hge, hle, henc⟩
  · rw [henc, if_pos (by omega)]
    rfl
  · rw [henc, if_neg (by omega), if_pos (by omega)]
    rfl
  · rw [henc, if_neg (by omega), if_neg (by omega), if_pos (by omega)]
    rfl
  · rw [henc, if_neg (by omega), if_neg (by omega), if_neg (by omega), if_pos (by omega)]
    rfl

/-- The scalar values that are encoded as they should be. -/
def Utf8Encodable (c : Char) : Prop :=
  c.val.toNat < 0x10000 ∨ 0x90000 ≤ c.val.toNat ∧ c.val.toNat < 0x98000

instance (c : Char) : Decidable (Utf8Encodable c) :=
  inferInstanceAs (Decidable (c.val.toNat < 0x10000 ∨ _))

/-- **One character.**

**Proof sketch.** By the four classes. In the first three the shifts give the digits; in the fourth
the first byte is made from a shift by 15 in place of 18, which is the right one only if the digit
that it takes from is as it should be. -/
lemma utf8EncodeS_char_iff (c : Char) :
    utf8EncodeS c.val = String.utf8EncodeChar c ↔ Utf8Encodable c := by
  rw [utf8EncodeS_eq, utf8Buf, Utf8Encodable]
  simp only [ge_iff_le, UInt32.le_iff_toNat_le, UInt32.reduceToNat]
  have hshift (k : UInt32) (hk : k.toNat < 32) :
      (c.val >>> k).toNat = c.val.toNat / 2 ^ k.toNat := by
    rw [UInt32.toNat_shiftRight, Nat.mod_eq_of_lt hk, Nat.shiftRight_eq_div_pow]
  have h6 : (c.val >>> 6).toNat = c.val.toNat / 0x40 := hshift 6 (by decide)
  have h12 : (c.val >>> 12).toNat = c.val.toNat / 0x1000 := hshift 12 (by decide)
  have h15 : (c.val >>> 15).toNat = c.val.toNat / 0x8000 := hshift 15 (by decide)
  rcases utf8EncodeChar_cases c with ⟨h, henc⟩ | ⟨w, hw, x, hx, hv, hge, henc⟩ |
    ⟨w, hw, x, hx, y, hy, hv, hge, hnot, henc⟩ | ⟨w, hw, x, hx, y, hy, z, hz, hv, hge, hle, henc⟩
  · rw [henc, if_pos (by omega), toChar_ascii h]
    exact iff_of_true rfl (.inl (by omega))
  · rw [henc, if_neg (by omega), if_pos (by omega), toChar_lead2 (h6.trans (by omega)) hw,
      toChar_tail (x := x) (by omega)]
    exact iff_of_true rfl (.inl (by omega))
  · rw [henc, if_neg (by omega), if_neg (by omega), if_pos (by omega),
      toChar_lead3 (h12.trans (by omega)) hw, toChar_tail (x := x) (by omega),
      toChar_tail (x := y) (by omega)]
    exact iff_of_true rfl (.inl (by omega))
  · have hw' : w = c.val.toNat / 0x40000 := by omega
    rw [henc, if_neg (by omega), if_neg (by omega), if_neg (by omega), if_pos (by omega),
      toChar_tail (x := x) (by omega), toChar_tail (x := y) (by omega),
      toChar_tail (x := z) (by omega), List.cons.injEq, hw', toChar_lead4 h15 hge hle,
      and_iff_left rfl]
    exact ⟨.inr, fun h => h.resolve_left (by omega)⟩

/-- Two texts agree when their characters do, if these have the same lengths. -/
lemma flatMap_eq_iff {α β : Type} {f g : α → List β} (hlen : ∀ a, (f a).length = (g a).length)
    (l : List α) : l.flatMap f = l.flatMap g ↔ ∀ a ∈ l, f a = g a := by
  induction l with
  | nil => simp
  | cons a l ih =>
    rw [List.flatMap_cons, List.flatMap_cons, List.forall_mem_cons, ← ih]
    exact ⟨fun h => List.append_inj h (hlen a), fun ⟨ha, hl⟩ => by rw [ha, hl]⟩

/-- **The encoder is right** on a list of characters exactly when each of them is either in the
classes of one to three bytes or among the few of four bytes for which the wrong shift makes no
difference.

**Proof sketch.** The lengths are right in any case, so the texts agree if and only if they agree
character by character. -/
theorem utf8EncodeS_text_iff (cs : List Char) :
    cs.flatMap (fun c => utf8EncodeS c.val) = utf8Text cs ↔ ∀ c ∈ cs, Utf8Encodable c :=
  (flatMap_eq_iff length_utf8EncodeS cs).trans
    (forall₂_congr fun c _ => utf8EncodeS_char_iff c)

/-- **The first character beyond the basic plane** is written with a wrong first byte. -/
theorem not_utf8EncodeS_text :
    utf8EncodeS 0x10000 = [0xF2, 0x90, 0x80, 0x80] ∧
      [Char.ofNat 0x10000].flatMap (fun c => utf8EncodeS c.val) ≠
        utf8Text [Char.ofNat 0x10000] := by
  decide

/-! ## Where a text is split -/

/-- A later byte is known as such, and shows its digit. -/
lemma tailByte_spec : ∀ x < 0x40,
    tailByte x ≠ 0 ∧ tailByte x &&& 0x80 = 0x80 ∧ (tailByte x &&& 0x3F).toUInt32.toNat = x := by
  decide

/-- A byte of an ASCII character is known as such. -/
lemma ascii_spec : ∀ v < 0x80, v ≠ 0 → UInt8.ofNat v ≠ 0 ∧ UInt8.ofNat v &&& 0x80 = 0x00 ∧
    (UInt8.ofNat v &&& 0x7F).toUInt32.toNat = v := by
  decide

/-- The first byte of two is known as such, and shows its digit. -/
lemma lead2_spec : ∀ w < 0x20, lead2 w ≠ 0 ∧ lead2 w &&& 0x80 ≠ 0x00 ∧ lead2 w &&& 0xE0 = 0xC0 ∧
    (lead2 w &&& 0x1F).toUInt32.toNat = w := by
  decide

/-- The first byte of three is known as such, and shows its digit. -/
lemma lead3_spec : ∀ w < 0x10, lead3 w ≠ 0 ∧ lead3 w &&& 0x80 ≠ 0x00 ∧ lead3 w &&& 0xE0 ≠ 0xC0 ∧
    lead3 w &&& 0xF0 = 0xE0 ∧ (lead3 w &&& 0x0F).toUInt32.toNat = w := by
  decide

/-- The first byte of four is known as such, and shows its digit. -/
lemma lead4_spec : ∀ w < 5, lead4 w ≠ 0 ∧ lead4 w &&& 0x80 ≠ 0x00 ∧ lead4 w &&& 0xE0 ≠ 0xC0 ∧
    lead4 w &&& 0xF0 ≠ 0xE0 ∧ lead4 w &&& 0xF8 = 0xF0 ∧
      (lead4 w &&& 0x07).toUInt32.toNat = w := by
  decide

/-- The size of a character is read off its first byte, if the later ones are there. -/
lemma utf8GetsizeChar_of_tails {p : Bytes} {len : ℤ} (hlen : utf8GetsizeCharNc p = len)
    (htails : ∀ i, 1 ≤ i → i < len.toNat → ∃ x < 0x40, charAt p i = tailByte x) :
    utf8GetsizeChar p = len := by
  rw [utf8GetsizeChar]
  simp only [hlen]
  refine if_neg ?_
  rw [List.any_eq_true]
  rintro ⟨i, hi, hbroken⟩
  obtain ⟨hge, hlt⟩ := List.mem_range'_1.mp hi
  obtain ⟨x, hx, hbyte⟩ := htails i hge (by omega)
  obtain ⟨hne, htail, -⟩ := tailByte_spec x hx
  simp [hbyte, hne, htail] at hbroken

/-- **A character at the start** of a text is measured.

**Proof sketch.** By the four classes: the first byte says how many bytes there are, and those
behind it are tail bytes. -/
lemma utf8GetsizeChar_text {c : Char} (hc : c.val ≠ 0) (rest : Bytes) :
    utf8GetsizeChar (String.utf8EncodeChar c ++ rest) = (String.utf8EncodeChar c).length := by
  have hne : c.val.toNat ≠ 0 := fun h => hc (UInt32.toNat_inj.mp h)
  apply utf8GetsizeChar_of_tails
  · rcases utf8EncodeChar_cases c with ⟨h, henc⟩ | ⟨w, hw, x, hx, hv, hge, henc⟩ |
      ⟨w, hw, x, hx, y, hy, hv, hge, hnot, henc⟩ | ⟨w, hw, x, hx, y, hy, z, hz, hv, hge, hle, henc⟩
    · obtain ⟨h0, h1, -⟩ := ascii_spec _ h hne
      rw [henc, utf8GetsizeCharNc]
      exact (if_neg h0).trans (if_pos h1)
    · obtain ⟨h0, h1, h2, -⟩ := lead2_spec w hw
      rw [henc, utf8GetsizeCharNc]
      exact (if_neg h0).trans ((if_neg h1).trans (if_pos h2))
    · obtain ⟨h0, h1, h2, h3, -⟩ := lead3_spec w hw
      rw [henc, utf8GetsizeCharNc]
      exact (if_neg h0).trans ((if_neg h1).trans ((if_neg h2).trans (if_pos h3)))
    · obtain ⟨h0, h1, h2, h3, h4, -⟩ := lead4_spec w hw
      rw [henc, utf8GetsizeCharNc]
      exact (if_neg h0).trans
        ((if_neg h1).trans ((if_neg h2).trans ((if_neg h3).trans (if_pos h4))))
  · intro i hge hlt
    rw [Int.toNat_natCast] at hlt
    rcases utf8EncodeChar_cases c with ⟨-, henc⟩ | ⟨w, -, x, hx, -, -, henc⟩ |
      ⟨w, -, x, hx, y, hy, -, -, -, henc⟩ | ⟨w, -, x, hx, y, hy, z, hz, -, -, -, henc⟩
    · rw [henc, List.length_singleton] at hlt
      omega
    · rw [henc] at hlt ⊢
      match i, hge, hlt with
      | 1, _, _ => exact ⟨x, hx, rfl⟩
    · rw [henc] at hlt ⊢
      match i, hge, hlt with
      | 1, _, _ => exact ⟨x, hx, rfl⟩
      | 2, _, _ => exact ⟨y, hy, rfl⟩
    · rw [henc] at hlt ⊢
      match i, hge, hlt with
      | 1, _, _ => exact ⟨x, hx, rfl⟩
      | 2, _, _ => exact ⟨y, hy, rfl⟩
      | 3, _, _ => exact ⟨z, hz, rfl⟩

/-- No character but NUL has a NUL in its encoding. -/
lemma zero_notMem_utf8EncodeChar {c : Char} (hc : c.val ≠ 0) : 0 ∉ String.utf8EncodeChar c := by
  have hne : c.val.toNat ≠ 0 := fun h => hc (UInt32.toNat_inj.mp h)
  rcases utf8EncodeChar_cases c with ⟨h, henc⟩ | ⟨w, hw, x, hx, -, -, henc⟩ |
    ⟨w, hw, x, hx, y, hy, -, -, -, henc⟩ | ⟨w, hw, x, hx, y, hy, z, hz, -, -, -, henc⟩
  · rw [henc, List.mem_singleton]
    exact fun h0 => (ascii_spec _ h hne).1 h0.symm
  · simp [henc, (lead2_spec w hw).1.symm, (tailByte_spec x hx).1.symm]
  · simp [henc, (lead3_spec w hw).1.symm, (tailByte_spec x hx).1.symm, (tailByte_spec y hy).1.symm]
  · simp [henc, (lead4_spec w hw).1.symm, (tailByte_spec x hx).1.symm, (tailByte_spec y hy).1.symm,
      (tailByte_spec z hz).1.symm]

/-- A text without the character NUL contains no NUL, and the other way round. -/
lemma zero_mem_utf8Text_iff (cs : List Char) : 0 ∈ utf8Text cs ↔ ∃ c ∈ cs, c.val = 0 := by
  rw [utf8Text, List.mem_flatMap]
  refine exists_congr fun c => and_congr_right fun _ => ⟨fun h => ?_, fun h => ?_⟩
  · by_contra hc
    exact zero_notMem_utf8EncodeChar hc h
  · obtain rfl : c = '\x00' := Char.ext h
    decide

/-- **A well-formed text is split into its characters.** -/
lemma utf8SplitChars_text {cs : List Char} (h : 0 ∉ utf8Text cs) :
    utf8SplitChars (utf8Text cs) = cs.map String.utf8EncodeChar := by
  rw [utf8SplitChars, cstr_eq_self h]
  induction cs with
  | nil =>
    rw [utf8Text, List.flatMap_nil, utf8SplitLoop, utf8GetsizeChar_nil]
    rfl
  | cons c cs ih =>
    rw [zero_mem_utf8Text_iff] at h ih
    push Not at h ih
    obtain ⟨hc, hcs⟩ := List.forall_mem_cons.mp h
    have hpos : (0 : ℤ) < (String.utf8EncodeChar c).length := by
      rw [String.length_utf8EncodeChar]
      exact_mod_cast c.utf8Size_pos
    have htext : utf8Text (c :: cs) = String.utf8EncodeChar c ++ utf8Text cs := List.flatMap_cons
    rw [utf8SplitLoop, htext, utf8GetsizeChar_text hc, if_pos hpos, Int.toNat_natCast,
      List.take_left, List.drop_left, ih hcs, List.map_cons]

/-! ## The decoder -/

/-- The digits of a code point, put together. -/
lemma lor_digits (x : ℕ) {y z : ℕ} (hy : y < 0x40) (hz : z < 0x40) :
    x <<< 12 ||| y <<< 6 ||| z = x * 0x1000 + y * 0x40 + z := by
  have hlow : y <<< 6 ||| z = y * 0x40 + z := by
    rw [← Nat.shiftLeft_add_eq_or_of_lt (by omega), Nat.shiftLeft_eq]
  rw [Nat.or_assoc, hlow, ← Nat.shiftLeft_add_eq_or_of_lt (by omega), Nat.shiftLeft_eq]
  omega

/-- **The digits of four bytes**: the first one comes too low, which does no harm if it is zero. -/
lemma lor_digits_iff {w r : ℕ} (hw : w < 5) (hr : r < 0x40000) :
    w <<< 15 ||| r = w * 0x40000 + r ↔ w = 0 := by
  constructor
  · intro h
    have hlt : w <<< 15 ||| r < 2 ^ 18 := by
      refine Nat.or_lt_two_pow ?_ (by omega)
      rw [Nat.shiftLeft_eq]
      omega
    omega
  · rintro rfl
    simp

/-- Bits at their place, which is far below the end of an `unsigned int`. -/
lemma toNat_bits {b : Byte} {mask : Byte} {w : ℕ} (hb : (b &&& mask).toUInt32.toNat = w)
    (hw : w < 0x40) {k : UInt32} (hk : k.toNat ≤ 15) :
    ((b &&& mask).toUInt32 <<< k).toNat = w <<< k.toNat := by
  have hpow : 2 ^ k.toNat ≤ 2 ^ 15 := Nat.pow_le_pow_right (by decide) hk
  have hlt : w * 2 ^ k.toNat ≤ 0x3F * 2 ^ 15 := Nat.mul_le_mul (by omega) hpow
  have hmod : k.toNat % 32 = k.toNat := Nat.mod_eq_of_lt (by omega)
  rw [UInt32.toNat_shiftLeft, hb, hmod, Nat.shiftLeft_eq, Nat.mod_eq_of_lt (by omega)]

/-- **One character**: the bits of the first of four bytes are put 15 places to the left.

**Proof sketch.** By the four classes. In the first three the digits are put together as they were
taken apart, and the code point is below 2^18; in the fourth the first digit is shifted by 15, over
the second one. -/
lemma toNat_utf8DecodeS {c : Char} (hc : c.val ≠ 0) :
    (utf8DecodeS (String.utf8EncodeChar c)).toNat =
      (c.val.toNat / 0x40000) <<< 15 ||| c.val.toNat % 0x40000 := by
  have hne : c.val.toNat ≠ 0 := fun h => hc (UInt32.toNat_inj.mp h)
  have hsize : ∀ n ≤ 4, ¬ sizeMax < n := fun n hn => by
    rw [sizeMax]
    omega
  have hsize0 : sizeMax ≠ 0 := by decide
  have hsmall : c.val.toNat < 0x40000 →
      (c.val.toNat / 0x40000) <<< 15 ||| c.val.toNat % 0x40000 = c.val.toNat := by
    intro hlt
    rw [Nat.div_eq_of_lt hlt, Nat.mod_eq_of_lt hlt, Nat.zero_shiftLeft, Nat.zero_or]
  rw [utf8DecodeS, cstr_eq_self (zero_notMem_utf8EncodeChar hc), utf8DecodeV2]
  rcases utf8EncodeChar_cases c with ⟨h, henc⟩ | ⟨w, hw, x, hx, hv, hge, henc⟩ |
    ⟨w, hw, x, hx, y, hy, hv, hge, hnot, henc⟩ | ⟨w, hw, x, hx, y, hy, z, hz, hv, hge, hle, henc⟩
  · obtain ⟨h0, h1, hdigit⟩ := ascii_spec _ h hne
    rw [henc, hsmall (by omega)]
    simp only [charAt, List.getD_cons_zero, hsize0, h0, h1, or_false, if_true, if_false]
    exact hdigit
  · obtain ⟨h0, h1, h2, hdigit⟩ := lead2_spec w hw
    obtain ⟨hx0, -, hxdigit⟩ := tailByte_spec x hx
    have hlow : w <<< 6 ||| x = w * 0x40 + x := by
      rw [← Nat.shiftLeft_add_eq_or_of_lt (by omega), Nat.shiftLeft_eq]
    rw [henc, hsmall (by omega)]
    simp only [charAt, List.getD_cons_zero, List.getD_cons_succ, h0, h1, h2, hx0,
      hsize0, hsize 2 (by decide), or_false, if_true, if_false]
    rw [UInt32.toNat_or, toNat_bits hdigit (by omega) (by decide), hxdigit]
    exact hlow.trans hv.symm
  · obtain ⟨h0, h1, h2, h3, hdigit⟩ := lead3_spec w hw
    obtain ⟨hx0, -, hxdigit⟩ := tailByte_spec x hx
    obtain ⟨hy0, -, hydigit⟩ := tailByte_spec y hy
    rw [henc, hsmall (by omega)]
    simp only [charAt, List.getD_cons_zero, List.getD_cons_succ, h0, h1, h2, h3, hx0, hy0,
      hsize0, hsize 3 (by decide), or_false, if_true, if_false]
    rw [UInt32.toNat_or, UInt32.toNat_or, toNat_bits hdigit (by omega) (by decide),
      toNat_bits hxdigit hx (by decide), hydigit]
    exact (lor_digits w hx hy).trans hv.symm
  · obtain ⟨h0, h1, h2, h3, h4, hdigit⟩ := lead4_spec w hw
    obtain ⟨hx0, -, hxdigit⟩ := tailByte_spec x hx
    obtain ⟨hy0, -, hydigit⟩ := tailByte_spec y hy
    obtain ⟨hz0, -, hzdigit⟩ := tailByte_spec z hz
    rw [henc, show c.val.toNat / 0x40000 = w by omega,
      show c.val.toNat % 0x40000 = x * 0x1000 + y * 0x40 + z by omega]
    simp only [charAt, List.getD_cons_zero, List.getD_cons_succ, h0, h1, h2, h3, h4, hx0, hy0, hz0,
      hsize0, hsize 4 (by decide), or_false, if_true, if_false]
    rw [UInt32.toNat_or, UInt32.toNat_or, UInt32.toNat_or,
      toNat_bits hdigit (by omega) (by decide), toNat_bits hxdigit hx (by decide),
      toNat_bits hydigit hy (by decide), hzdigit, ← lor_digits x hy hz]
    show w <<< 15 ||| x <<< 12 ||| y <<< 6 ||| z = _
    simp only [Nat.or_assoc]

/-- One character is read back below `U+40000`. -/
lemma utf8DecodeS_char_iff {c : Char} (hc : c.val ≠ 0) :
    utf8DecodeS (String.utf8EncodeChar c) = c.val ↔ c.val.toNat < 0x40000 := by
  have hlt : c.val.toNat < 0x110000 := by
    have hvalid : c.val.toNat < 0xD800 ∨ 0xDFFF < c.val.toNat ∧ c.val.toNat < 0x110000 := c.valid
    omega
  have hiff := lor_digits_iff (show c.val.toNat / 0x40000 < 5 by omega)
    (show c.val.toNat % 0x40000 < 0x40000 from Nat.mod_lt _ (by decide))
  rw [← UInt32.toNat_inj, toNat_utf8DecodeS hc]
  rw [show c.val.toNat / 0x40000 * 0x40000 + c.val.toNat % 0x40000 = c.val.toNat by omega] at hiff
  rw [hiff]
  omega

/-- **The decoder is right** on a well-formed text without NUL exactly when the text has no
character from `U+40000` on. In any case the text is split into its characters, which together are
the text.

**Proof sketch.** The pieces are the encodings of the characters. A character of four bytes is read
back if and only if its first digit is zero, since that digit is put at the wrong place. -/
theorem utf8DecodeS_text_iff {cs : List Char} (h : 0 ∉ utf8Text cs) :
    ((utf8SplitChars (utf8Text cs)).map utf8DecodeS = cs.map Char.val ∧
      (utf8SplitChars (utf8Text cs)).flatten = utf8Text cs) ↔ ∀ c ∈ cs, c.val.toNat < 0x40000 := by
  have hchars : ∀ c ∈ cs, c.val ≠ 0 := by
    intro c hc h0
    exact h ((zero_mem_utf8Text_iff cs).mpr ⟨c, hc, h0⟩)
  have hjoined : (cs.map String.utf8EncodeChar).flatten = utf8Text cs := List.flatMap_def.symm
  rw [utf8SplitChars_text h, List.map_map, and_iff_left hjoined, List.map_inj_left]
  exact forall₂_congr fun c hc => utf8DecodeS_char_iff (hchars c hc)

/-- Korean text, and a character outside of the basic plane. -/
theorem utf8DecodeS_text_korean :
    (utf8SplitChars (utf8Text ['한', '글', '😀'])).map utf8DecodeS = [0xD55C, 0xAE00, 0x1F600] := by
  have hnul : 0 ∉ utf8Text ['한', '글', '😀'] := by decide
  exact ((utf8DecodeS_text_iff hnul).mpr (by simp)).1

/-- **A character from `U+40000` on** is read as another one. -/
theorem not_utf8DecodeS_text :
    0 ∉ utf8Text [Char.ofNat 0x40000] ∧
      (utf8SplitChars (utf8Text [Char.ofNat 0x40000])).map utf8DecodeS = [0x8000] ∧
      [Char.ofNat 0x40000].map Char.val ≠ [0x8000] := by
  have hnul : 0 ∉ utf8Text [Char.ofNat 0x40000] := by decide
  refine ⟨hnul, ?_, by decide⟩
  rw [utf8SplitChars_text hnul]
  decide

end Meowbot
