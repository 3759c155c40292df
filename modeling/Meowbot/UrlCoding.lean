import Meowbot.Lib.Pieces
import Meowbot.MyAtoi

set_option relaxedAutoImplicit false
set_option autoImplicit false

/-!
# URL coding (`etc.cpp`)

`urlencode` writes a byte as it is, or as `%` and two hexadecimal digits; `urldecode` reads the two
bytes behind a `%` with `my_atoi`, whatever they are. Both count the bytes that they write, and give
up where the count reaches the size of the destination, which is an `int`. The functions on
`std::string` compute a size that is large enough as an `unsigned int`, and hand it over as an
`int`.

A string lies at the end of the memory: a read behind its terminator has no result.

## Main definitions

* `Meowbot.urlencodeS`, `Meowbot.urldecode`, `Meowbot.urldecodeS` — the source.
* `Meowbot.UrlText` — the texts of unreserved characters and escapes.
* `Meowbot.UrlRoundTrip` — a text is encoded well, and decoded to the same text.
* `Meowbot.BrokenEscape` — there is an escape at the end of a string with less than two digits.

## Main results

* `Meowbot.urlRoundTrip_iff` — a text is decoded to itself if its encoding fits the size.
* `Meowbot.isSome_urldecode_iff` — nothing is read behind the terminator, except for an escape that
  is broken off.
-/

namespace Meowbot

/-! ## The source -/

/-- The macro `RANGE`. -/
def inRange (min max val : Byte) : Bool := min ≤ val && val ≤ max

/-- A byte that `urlencode` writes as it is. -/
def isSafe (c : Byte) : Bool :=
  inRange '0' '9' c || inRange 'A' 'Z' c || inRange 'a' 'z' c || c == '-' || c == '_' || c == '.' ||
    c == '*'

/-- A digit that `%x` prints. -/
def hexDigit (n : ℕ) : Byte := if n < 10 then UInt8.ofNat (48 + n) else UInt8.ofNat (87 + n)

/-- What `%%%02x` prints for a byte. -/
def escape (c : Byte) : Bytes := ['%', hexDigit (c.toNat / 16), hexDigit (c.toNat % 16)]

/-- The loop of `urlencode` on a C string: the value of `dlen` behind it, and what is written. It is
compared with the size as an `int`, before the byte is written, and at the end of the room the
result is -1. -/
def urlencodeLoop (size : Int32) : Int32 → Bytes → Int32 × Bytes
  | dlen, [] => (dlen, [])
  | dlen, c :: sp =>
    if isSafe c then
      let dlen := dlen + 1
      if dlen ≥ size then (-1, [])
      else
        let r := urlencodeLoop size dlen sp
        (r.1, c :: r.2)
    else
      let dlen := dlen + 3
      if dlen ≥ size then (-1, [])
      else
        let r := urlencodeLoop size dlen sp
        (r.1, escape c ++ r.2)

/-- `urlencode` on a C string. -/
def urlencode (str : Bytes) (size : Int32) : Int32 × Bytes := urlencodeLoop size 0 str

/-- `urlencode` on a `std::string`. -/
def urlencodeS (str : Bytes) : Bytes :=
  let bufsize := Int32.ofNat (str.length * 4 + 1)
  let r := urlencode (cstr str) bufsize
  if r.1 > 0 then cstr r.2 else []

/-- The byte that an escape stands for. -/
def escapedByte (h l : Byte) : Byte := (myAtoi ['0', 'x', h, l]).toInt8.toUInt8

/-- The loop of `urldecode`, on the memory from a place on: the value of `dlen` behind it, and what
is written. -/
def urldecodeLoop (size : Int32) : Int32 → Bytes → Option (Int32 × Bytes)
  | _, [] => none
  | dlen, c :: sp =>
    if c = 0 then some (dlen, [])
    else if c = '%' then
      let dlen := dlen + 1
      if dlen ≥ size then some (-1, [])
      else match sp with
        | h :: l :: sp => (urldecodeLoop size dlen sp).map fun r => (r.1, escapedByte h l :: r.2)
        | _ => none
    else
      let dlen := dlen + 1
      if dlen ≥ size then some (-1, [])
      else (urldecodeLoop size dlen sp).map fun r => (r.1, c :: r.2)

/-- `urldecode` on the memory from a string on. -/
def urldecode (str : Bytes) (size : Int32) : Option (Int32 × Bytes) := urldecodeLoop size 0 str

/-- `urldecode` on a `std::string`. -/
def urldecodeS (str : Bytes) : Option Bytes :=
  let bufsize := Int32.ofNat (str.length + 1)
  (urldecode (str ++ [0]) bufsize).map fun r => if r.1 > 0 then cstr r.2 else []

/-! ## Encoded texts -/

/-- An unreserved character: a letter, a digit or a mark. -/
def IsUnreserved (c : Byte) : Prop :=
  (alnumValue c).isSome ∨ c ∈ bytes "-_.!~*'()"

/-- **A text of unreserved characters and escapes.** -/
inductive UrlText : Bytes → Prop
  | nil : UrlText []
  | char {c : Byte} {str : Bytes} : IsUnreserved c → UrlText str → UrlText (c :: str)
  | escape {h l : Byte} {str : Bytes} : (digit 16 h).isSome → (digit 16 l).isSome → UrlText str →
      UrlText ('%' :: h :: l :: str)

/-- The encoding of a byte. -/
def encodeByte (c : Byte) : Bytes := if isSafe c then [c] else escape c

/-- The encoding of a string, without a limit. -/
def encodedText (str : Bytes) : Bytes := str.flatMap encodeByte

/-- **A text is encoded well, and decoded to itself.** -/
structure UrlRoundTrip (str : Bytes) : Prop where
  wellFormed : UrlText (urlencodeS str)
  decode : urldecodeS (urlencodeS str) = some str

/-- A byte that is written as it is is unreserved, and no terminator and no `%`. -/
lemma isUnreserved_of_isSafe {c : Byte} (h : isSafe c = true) :
    IsUnreserved c ∧ c ≠ 0 ∧ c ≠ '%' := by
  have hbytes : ∀ c, isSafe c = true →
      ((alnumValue c).isSome ∨ c ∈ bytes "-_.!~*'()") ∧ c ≠ 0 ∧ c ≠ '%' :=
    forall_byte (by decide +kernel)
  exact hbytes c h

/-- **The digits of an escape** are read as the byte. -/
lemma escapedByte_hexDigit (c : Byte) :
    escapedByte (hexDigit (c.toNat / 16)) (hexDigit (c.toNat % 16)) = c := by
  revert c
  exact forall_byte (by decide +kernel)

/-- A digit that is printed is one of base 16. -/
lemma isSome_digit_hexDigit {n : ℕ} (h : n < 16) :
    (digit 16 (hexDigit n)).isSome ∧ hexDigit n ≠ 0 := by
  have hdigits : ∀ n < 16, (digit 16 (hexDigit n)).isSome ∧ hexDigit n ≠ 0 := by
    decide
  exact hdigits n h

/-- **The encoding of a string** is made of unreserved characters and escapes. -/
lemma urlText_encodedText (str : Bytes) : UrlText (encodedText str) := by
  induction str with
  | nil => exact .nil
  | cons c str ih =>
    have hlt := c.toNat_lt
    rw [encodedText, List.flatMap_cons, encodeByte]
    split_ifs with hc
    · exact .char (isUnreserved_of_isSafe hc).1 ih
    · exact .escape (isSome_digit_hexDigit (by omega)).1 (isSome_digit_hexDigit (by omega)).1 ih

/-- The encoding of a string holds no terminator. -/
lemma zero_notMem_encodedText (str : Bytes) : 0 ∉ encodedText str := by
  intro h
  obtain ⟨c, -, hc⟩ := List.mem_flatMap.mp h
  have hlt := c.toNat_lt
  rw [encodeByte] at hc
  split_ifs at hc with hsafe
  · exact (isUnreserved_of_isSafe hsafe).2.1 (List.mem_singleton.mp hc).symm
  · have hhigh := (isSome_digit_hexDigit (show c.toNat / 16 < 16 by omega)).2
    have hlow := (isSome_digit_hexDigit (show c.toNat % 16 < 16 by omega)).2
    rw [escape, List.mem_cons, List.mem_cons, List.mem_singleton] at hc
    obtain h0 | h0 | h0 := hc
    · revert h0
      decide
    · exact hhigh h0.symm
    · exact hlow h0.symm

/-- A string is no longer than its encoding. -/
lemma length_le_length_encodedText (str : Bytes) : str.length ≤ (encodedText str).length := by
  induction str with
  | nil => exact le_rfl
  | cons c str ih =>
    have hpos : 1 ≤ (encodeByte c).length := by
      rw [encodeByte]
      split_ifs <;> simp [escape]
    rw [encodedText, List.flatMap_cons, List.length_append, List.length_cons]
    rw [encodedText] at ih
    omega

/-! ## Encoding -/

/-- One round of the loop of `urlencode`. -/
lemma urlencodeLoop_cons (size dlen : Int32) (c : Byte) (sp : Bytes) :
    urlencodeLoop size dlen (c :: sp) =
      if dlen + Int32.ofNat (encodeByte c).length ≥ size then (-1, [])
      else ((urlencodeLoop size (dlen + Int32.ofNat (encodeByte c).length) sp).1,
        encodeByte c ++ (urlencodeLoop size (dlen + Int32.ofNat (encodeByte c).length) sp).2) := by
  rw [urlencodeLoop, encodeByte]
  by_cases hc : isSafe c
  · rw [if_pos hc, if_pos hc]
    rfl
  · rw [if_neg hc, if_neg hc]
    rfl

/-- A count reaches the size. -/
lemma int32_le_iff {m n : ℕ} (hm : m ≤ int32Max) (hn : n ≤ int32Max) :
    Int32.ofNat m ≤ Int32.ofNat n ↔ m ≤ n := by
  rw [int32Max] at hm hn
  exact Int32.ofNat_le_iff_le (by omega) (by omega)

/-- **The loop of `urlencode`** writes the encoding, if it stays below the size.

**Proof sketch.** By induction on the bytes. Each of them takes at most three places; the loop fails
at the first one that does not fit, and if one does not the whole encoding does not. -/
lemma urlencodeLoop_eq {n d : ℕ} (hn : n + 2 ≤ int32Max) (hd : d < n) (s : Bytes) :
    (d + (encodedText s).length < n →
      urlencodeLoop (Int32.ofNat n) (Int32.ofNat d) s =
        (Int32.ofNat (d + (encodedText s).length), encodedText s)) ∧
    (¬ d + (encodedText s).length < n →
      (urlencodeLoop (Int32.ofNat n) (Int32.ofNat d) s).1 = -1) := by
  induction s generalizing d with
  | nil => exact ⟨fun _ => rfl, fun h => absurd hd h⟩
  | cons c s ih =>
    have hk : (encodeByte c).length ≤ 3 := by
      rw [encodeByte]
      split_ifs <;> simp [escape]
    have hlen : (encodedText (c :: s)).length = (encodeByte c).length + (encodedText s).length := by
      rw [encodedText, List.flatMap_cons, List.length_append, encodedText]
    have hiff : Int32.ofNat (d + (encodeByte c).length) ≥ Int32.ofNat n ↔
        n ≤ d + (encodeByte c).length := int32_le_iff (by omega) (by omega)
    rw [urlencodeLoop_cons, ← Int32.ofNat_add, hlen]
    by_cases hfull : n ≤ d + (encodeByte c).length
    · rw [if_pos (hiff.mpr hfull)]
      exact ⟨fun h => by omega, fun _ => rfl⟩
    · obtain ⟨hfits, hlong⟩ := ih (show d + (encodeByte c).length < n by omega)
      rw [if_neg (fun h => hfull (hiff.mp h)), ← add_assoc]
      refine ⟨fun h => ?_, hlong⟩
      rw [hfits h]
      rfl

/-- A destination of no size holds no byte. -/
lemma urlencodeLoop_eq_neg {size : Int32} (h : size ≤ 0) (c : Byte) (s : Bytes) :
    (urlencodeLoop size 0 (c :: s)).1 = -1 := by
  have hfull : ∀ k ≤ 3, 0 + Int32.ofNat k ≥ size := by
    intro k hk
    rw [Int32.zero_add]
    refine Int32.le_trans h ?_
    rw [show (0 : Int32) = Int32.ofNat 0 from rfl, int32_le_iff (by simp [int32Max]) (by
      rw [int32Max]; omega)]
    omega
  rw [urlencodeLoop_cons, if_pos]
  refine hfull _ ?_
  rw [encodeByte]
  split_ifs <;> simp [escape]

/-- **A text fits the size** that `urlencode` is given: the encoding is shorter. -/
def UrlFits (str : Bytes) : Prop :=
  str = [] ∨ ((encodedText str).length : ℤ) < (Int32.ofNat (str.length * 4 + 1)).toInt

/-- An `int` that is not negative is a number. -/
lemma exists_int32_ofNat {n : Int32} (h : 0 ≤ n.toInt) :
    ∃ k : ℕ, n = Int32.ofNat k ∧ (k : ℤ) = n.toInt ∧ k ≤ int32Max := by
  have hlt := n.toInt_lt
  have hk : (n.toInt.toNat : ℤ) = n.toInt := Int.toNat_of_nonneg h
  refine ⟨n.toInt.toNat, ?_, hk, ?_⟩
  · rw [← Int32.ofInt_eq_ofNat, hk, Int32.ofInt_toInt]
  · rw [int32Max]
    omega

/-- A count is positive. -/
lemma int32_pos_iff {n : ℕ} (hn : n ≤ int32Max) : Int32.ofNat n > 0 ↔ 0 < n := by
  rw [int32Max] at hn
  exact Int32.ofNat_lt_iff_lt (show 0 < 2 ^ 31 by decide) (by omega)

/-- **The encoding of a text** that fits, and the empty text for another.

**Proof sketch.** The size is four times the length and one more, as an `int`. If it is positive the
loop decides, and its encoding has at most three bytes for each of the text; otherwise `urlencode`
fails at once. -/
lemma urlencodeS_eq {str : Bytes} (h0 : 0 ∉ str) :
    (UrlFits str → urlencodeS str = encodedText str) ∧ (¬ UrlFits str → urlencodeS str = []) := by
  cases str with
  | nil => exact ⟨fun _ => rfl, fun h => absurd (.inl rfl) h⟩
  | cons c s =>
    rw [urlencodeS, cstr_eq_self h0, urlencode, UrlFits]
    by_cases hpos : 0 < (Int32.ofNat ((c :: s).length * 4 + 1)).toInt
    · obtain ⟨n, hsize, hn, hmax⟩ := exists_int32_ofNat hpos.le
      have hmod : (c :: s).length * 4 + 1 ≡ n [MOD 2 ^ 32] := int32_ofNat_eq_iff.mp hsize
      have hfour : n + 2 ≤ int32Max := by
        rw [Nat.ModEq] at hmod
        rw [int32Max] at hmax ⊢
        omega
      obtain ⟨hfits, hlong⟩ := urlencodeLoop_eq hfour (show 0 < n by omega) (c :: s)
      rw [zero_add] at hfits hlong
      rw [← hn, hsize]
      constructor
      · rintro (hnil | hlt)
        · cases hnil
        · have hlt : (encodedText (c :: s)).length < n := by exact_mod_cast hlt
          have hle := length_le_length_encodedText (c :: s)
          rw [List.length_cons] at hle
          have hr : urlencodeLoop (Int32.ofNat n) 0 (c :: s) =
              (Int32.ofNat (encodedText (c :: s)).length, encodedText (c :: s)) := hfits hlt
          simp only [hr]
          rw [if_pos ((int32_pos_iff (by omega)).mpr (by omega)),
            cstr_eq_self (zero_notMem_encodedText _)]
      · intro hnot
        have hr : (urlencodeLoop (Int32.ofNat n) 0 (c :: s)).1 = -1 :=
          hlong fun h => hnot (.inr (by exact_mod_cast h))
        simp only [hr]
        rw [if_neg (by decide)]
    · have hsize : Int32.ofNat ((c :: s).length * 4 + 1) ≤ 0 := by
        rw [Int32.le_iff_toInt_le]
        exact not_lt.mp hpos
      have hr := urlencodeLoop_eq_neg hsize c s
      constructor
      · rintro (hnil | hlt)
        · cases hnil
        · omega
      · intro
        simp only [hr]
        rw [if_neg (by decide)]

/-! ## Decoding -/

/-- **The loop of `urldecode`** on an encoding reads it back.

**Proof sketch.** By induction on the text. A byte that was written as it is, is one that is read as
it is; one that was escaped is read back from its two digits. Either takes one place of the result.
-/
lemma urldecodeLoop_encodedText {n d : ℕ} (hn : n ≤ int32Max) {s : Bytes} (h0 : 0 ∉ s)
    (hd : d + s.length < n) :
    urldecodeLoop (Int32.ofNat n) (Int32.ofNat d) (encodedText s ++ [0]) =
      some (Int32.ofNat (d + s.length), s) := by
  induction s generalizing d with
  | nil => rfl
  | cons c s ih =>
    obtain ⟨hc, hs⟩ := List.ne_and_not_mem_of_not_mem_cons h0
    rw [List.length_cons] at hd
    have hfull : ¬ Int32.ofNat (d + 1) ≥ Int32.ofNat n := by
      rw [ge_iff_le, int32_le_iff (by omega) (by omega)]
      omega
    have hnext := ih hs (show d + 1 + s.length < n by omega)
    have hone : Int32.ofNat d + 1 = Int32.ofNat (d + 1) := (Int32.ofNat_add d 1).symm
    rw [encodedText, List.flatMap_cons, List.append_assoc, ← encodedText, encodeByte,
      List.length_cons, show d + (s.length + 1) = d + 1 + s.length by omega]
    split_ifs with hsafe
    · obtain ⟨-, hzero, hpercent⟩ := isUnreserved_of_isSafe hsafe
      rw [List.singleton_append, urldecodeLoop, if_neg hzero, if_neg hpercent]
      simp only [hone]
      rw [if_neg hfull, hnext]
      rfl
    · rw [escape, List.cons_append, List.cons_append, List.singleton_append, urldecodeLoop,
        if_neg (by decide), if_pos rfl]
      simp only [hone]
      rw [if_neg hfull, hnext, escapedByte_hexDigit]
      rfl

/-- The encoding of a text is decoded to the text. -/
lemma urldecodeS_encodedText {s : Bytes} (h0 : 0 ∉ s) (hlen : (encodedText s).length < int32Max) :
    urldecodeS (encodedText s) = some s := by
  have hle := length_le_length_encodedText s
  have hr := urldecodeLoop_encodedText (n := (encodedText s).length + 1) (d := 0) hlen h0 (by omega)
  rw [zero_add] at hr
  have hr : urldecode (encodedText s ++ [0]) (Int32.ofNat ((encodedText s).length + 1)) =
    some (Int32.ofNat s.length, s) := hr
  rw [urldecodeS, hr, Option.map_some]
  by_cases hs : s.length = 0
  · rw [List.length_eq_zero_iff.mp hs]
    rfl
  · rw [if_pos ((int32_pos_iff (by omega)).mpr (by omega)), cstr_eq_self h0]

/-- **A text is decoded to itself** exactly if its encoding fits the size that `urlencode` is given.

**Proof sketch.** The encoding of a text that fits holds the bytes that stand for themselves, and
escapes of two digits, which are read one after the other. Of a text that does not fit there is
nothing left. -/
theorem urlRoundTrip_iff {str : Bytes} (h0 : 0 ∉ str) : UrlRoundTrip str ↔ UrlFits str := by
  obtain ⟨hfits, hlong⟩ := urlencodeS_eq h0
  constructor
  · rintro ⟨-, hdecode⟩
    by_contra hnot
    rw [hlong hnot] at hdecode
    exact hnot (.inl (Option.some.inj hdecode).symm)
  · intro h
    refine ⟨by rw [hfits h]; exact urlText_encodedText str, ?_⟩
    rw [hfits h]
    refine urldecodeS_encodedText h0 ?_
    obtain rfl | hlt := h
    · decide
    · have := (Int32.ofNat (str.length * 4 + 1)).toInt_lt
      rw [int32Max]
      omega

/-- A text with bytes of both kinds. -/
theorem urlRoundTrip_text : UrlRoundTrip (bytes "50% off") :=
  (urlRoundTrip_iff (by decide)).mpr (.inr (by decide))

/-- **A text of half a gigabyte**: the size is no `int`, and nothing is encoded.

**Proof sketch.** Four times the length and one more wraps to a negative `int`, so the text does not
fit, and nothing is encoded. -/
theorem not_urlRoundTrip_long :
    0 ∉ List.replicate 536870912 (97 : Byte) ∧ urlencodeS (List.replicate 536870912 97) = [] ∧
      ¬ UrlRoundTrip (List.replicate 536870912 97) := by
  have h0 : 0 ∉ List.replicate 536870912 (97 : Byte) := by
    intro h
    exact absurd (List.eq_of_mem_replicate h) (by decide)
  have hnil : List.replicate 536870912 (97 : Byte) ≠ [] := by
    intro h
    have := congrArg List.length h
    rw [List.length_replicate] at this
    cases this
  have hnot : ¬ UrlFits (List.replicate 536870912 97) := by
    rintro (h | h)
    · exact hnil h
    · rw [List.length_replicate, show (Int32.ofNat (536870912 * 4 + 1)).toInt = -2147483647 by
        decide] at h
      omega
  have hempty := (urlencodeS_eq h0).2 hnot
  refine ⟨h0, hempty, fun h => ?_⟩
  have hdecode := h.decode
  rw [hempty] at hdecode
  exact hnil (Option.some.inj hdecode).symm

/-! ## Reading escapes -/

/-- The number of bytes behind the first of an escape, and of another byte. -/
def escapeSize (c : Byte) : Option ℕ := if c = '%' then some 2 else some 0

/-- **An escape is broken off** at the end of a string, and the loop comes there with a count below
the size: in front of the escape there are bytes and whole escapes only. -/
def BrokenFrom (size : Int32) (dlen : ℕ) (str : Bytes) : Prop :=
  ∃ (ps : List Bytes) (t : Bytes), (∀ p ∈ ps, Pieces.IsPiece escapeSize (fun _ => True) p) ∧
    str = ps.flatten ++ ('%' : Byte) :: t ∧ t.length ≤ 1 ∧ (dlen + ps.length + 1 : ℕ) < size.toInt

/-- An escape is broken off at the end of a string. -/
def BrokenEscape (str : Bytes) (size : Int32) : Prop := BrokenFrom size 0 str

/-- No escape is read if the count reaches the size. -/
lemma lt_of_brokenFrom {size : Int32} {d : ℕ} {str : Bytes} (h : BrokenFrom size d str) :
    (d + 1 : ℕ) < size.toInt := by
  obtain ⟨ps, t, -, -, -, hlt⟩ := h
  omega

/-- An empty string has no escapes. -/
lemma not_brokenFrom_nil (size : Int32) (d : ℕ) : ¬ BrokenFrom size d [] := by
  rintro ⟨ps, t, -, hstr, -⟩
  simp at hstr

/-- **A piece in front** of a string is read over, with one byte to be written. -/
lemma brokenFrom_append {size : Int32} {d : ℕ} {p str : Bytes}
    (hp : Pieces.IsPiece escapeSize (fun _ => True) p) (h : BrokenFrom size (d + 1) str) :
    BrokenFrom size d (p ++ str) := by
  obtain ⟨ps, t, hps, rfl, ht, hlt⟩ := h
  refine ⟨p :: ps, t, List.forall_mem_cons.mpr ⟨hp, hps⟩, by simp, ht, ?_⟩
  rw [List.length_cons]
  omega

/-- A byte that is no `%` in front of a string. -/
lemma brokenFrom_char {size : Int32} {d : ℕ} {c : Byte} (hc : c ≠ '%') (str : Bytes) :
    BrokenFrom size d (c :: str) ↔ BrokenFrom size (d + 1) str := by
  constructor
  · rintro ⟨ps, t, hps, hstr, ht, hlt⟩
    match ps, hps, hstr, hlt with
    | [], _, hstr, _ => exact absurd (List.cons.inj hstr).1 hc
    | [] :: ps, hps, _, _ => exact (hps [] List.mem_cons_self).elim
    | (b :: l) :: ps, hps, hstr, hlt =>
      obtain ⟨⟨hsize, -⟩, hrest⟩ := List.forall_mem_cons.mp hps
      rw [List.flatten_cons, List.cons_append, List.cons_append, List.cons.injEq] at hstr
      obtain ⟨rfl, rfl⟩ := hstr
      rw [escapeSize, if_neg hc, Option.some.injEq] at hsize
      rw [List.length_cons] at hlt
      rw [List.eq_nil_of_length_eq_zero hsize.symm]
      exact ⟨ps, t, hrest, rfl, ht, by omega⟩
  · exact brokenFrom_append (p := [c]) ⟨if_neg hc, by simp⟩

/-- A whole escape in front of a string.

**Proof sketch.** A piece that begins with the sign is the whole escape, so it can be put in front
of the pieces or taken away from them, and the result has one byte more. -/
lemma brokenFrom_escape {size : Int32} {d : ℕ} (h l : Byte) (str : Bytes) :
    BrokenFrom size d ('%' :: h :: l :: str) ↔ BrokenFrom size (d + 1) str := by
  constructor
  · rintro ⟨ps, t, hps, hstr, ht, hlt⟩
    match ps, hps, hstr, hlt with
    | [], _, hstr, _ =>
      rw [← (List.cons.inj hstr).2, List.length_cons, List.length_cons] at ht
      omega
    | [] :: ps, hps, _, _ => exact (hps [] List.mem_cons_self).elim
    | (b :: q) :: ps, hps, hstr, hlt =>
      obtain ⟨⟨hsize, -⟩, hrest⟩ := List.forall_mem_cons.mp hps
      rw [List.flatten_cons, List.cons_append, List.cons_append, List.cons.injEq] at hstr
      obtain ⟨rfl, hstr⟩ := hstr
      rw [escapeSize, if_pos rfl, Option.some.injEq] at hsize
      obtain ⟨x, y, rfl⟩ := List.length_eq_two.mp hsize.symm
      rw [List.length_cons] at hlt
      simp only [List.cons_append, List.nil_append, List.cons.injEq] at hstr
      exact ⟨ps, t, hrest, hstr.2.2, ht, by omega⟩
  · exact brokenFrom_append (p := ['%', h, l]) ⟨if_pos rfl, by simp⟩

/-- An escape that is broken off. -/
lemma brokenFrom_short {size : Int32} {d : ℕ} {t : Bytes} (ht : t.length ≤ 1) :
    BrokenFrom size d ('%' :: t) ↔ (d + 1 : ℕ) < size.toInt :=
  ⟨lt_of_brokenFrom, fun hlt => ⟨[], t, by simp, rfl, ht, hlt⟩⟩

/-- A count reaches the size, or is below it. -/
lemma int32_succ_ge_iff {size : Int32} {d : ℕ} (hd : d + 1 ≤ int32Max) :
    Int32.ofNat d + 1 ≥ size ↔ ¬ (d + 1 : ℕ) < size.toInt := by
  rw [int32Max] at hd
  rw [ge_iff_le, Int32.le_iff_toInt_le, show Int32.ofNat d + 1 = Int32.ofNat (d + 1) from
    (Int32.ofNat_add d 1).symm, Int32.toInt_ofNat_of_lt (by omega), not_lt]

/-- **The loop of `urldecode`** reads behind the terminator exactly if an escape is broken off.

**Proof sketch.** Induction on the length of what is left. Bytes and whole escapes are read over one
after the other; if less than two bytes are left behind a `%`, one of those that are read is the
terminator, and the next place is behind it. -/
lemma isSome_urldecodeLoop_iff {size : Int32} {str : Bytes} (h0 : 0 ∉ str) {d : ℕ}
    (hd : d + 1 ≤ int32Max) :
    (urldecodeLoop size (Int32.ofNat d) (str ++ [0])).isSome ↔ ¬ BrokenFrom size d str := by
  induction hn : str.length using Nat.strong_induction_on generalizing str d with
  | _ n ih =>
    subst hn
    have hmax : (d + 1 : ℕ) < size.toInt → d + 1 + 1 ≤ int32Max := by
      intro hlt
      have := size.toInt_lt
      rw [int32Max]
      omega
    have hone : Int32.ofNat d + 1 = Int32.ofNat (d + 1) := (Int32.ofNat_add d 1).symm
    cases str with
    | nil => exact iff_of_true rfl (not_brokenFrom_nil size d)
    | cons c str =>
      obtain ⟨hc, hstr⟩ := List.ne_and_not_mem_of_not_mem_cons h0
      rw [List.cons_append, urldecodeLoop, if_neg hc.symm]
      by_cases hfull : (d + 1 : ℕ) < size.toInt
      · have hnot : ¬ Int32.ofNat d + 1 ≥ size := fun h => (int32_succ_ge_iff hd).mp h hfull
        rw [hone] at hnot
        by_cases hpercent : c = '%'
        · subst hpercent
          rw [if_pos rfl]
          simp only [hone, if_neg hnot]
          match str, hstr, ih with
          | [], _, _ =>
            exact iff_of_false (by simp) (not_not.mpr ((brokenFrom_short (by simp)).mpr hfull))
          | [x], _, _ =>
            exact iff_of_false (by simp [urldecodeLoop])
              (not_not.mpr ((brokenFrom_short (by simp)).mpr hfull))
          | h :: l :: str, hstr, ih =>
            obtain ⟨-, hl⟩ := List.ne_and_not_mem_of_not_mem_cons hstr
            obtain ⟨-, hrest⟩ := List.ne_and_not_mem_of_not_mem_cons hl
            have hnext := ih _ (by simp only [List.length_cons]; omega) hrest (hmax hfull) rfl
            rw [brokenFrom_escape, ← hnext]
            simp
        · rw [if_neg hpercent]
          simp only [hone, if_neg hnot]
          have hnext := ih _ (by simp) hstr (hmax hfull) rfl
          rw [brokenFrom_char hpercent, ← hnext, Option.isSome_map]
      · have hbig : Int32.ofNat d + 1 ≥ size := (int32_succ_ge_iff hd).mpr hfull
        refine iff_of_true ?_ fun h => hfull (lt_of_brokenFrom h)
        simp only [if_pos hbig]
        split_ifs <;> rfl

/-- **Nothing behind the terminator is read** exactly if no escape is broken off at the end, where
the count is below the size. -/
theorem isSome_urldecode_iff {str : Bytes} (h0 : 0 ∉ str) (size : Int32) :
    (urldecode (str ++ [0]) size).isSome ↔ ¬ BrokenEscape str size :=
  isSome_urldecodeLoop_iff h0 (by decide)

/-- A byte that is no digit may follow a `%`. -/
theorem isSome_urldecode_text : (urldecode (bytes "%zz" ++ [0]) 4).isSome := by
  refine (isSome_urldecode_iff (by decide) 4).mpr fun h => ?_
  exact not_brokenFrom_nil _ _ ((brokenFrom_escape 'z' 'z' []).mp h)

/-- **A `%` at the end**, and a `%` with one byte. -/
theorem urldecode_broken :
    urldecode (bytes "%" ++ [0]) 2 = none ∧ urldecode (bytes "%a" ++ [0]) 3 = none ∧
      urldecodeS (bytes "%") = none := by
  decide

end Meowbot
