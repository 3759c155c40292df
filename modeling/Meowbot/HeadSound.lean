import Meowbot.Hangul
import Meowbot.Utf8Index

set_option relaxedAutoImplicit false
set_option autoImplicit false

/-!
# Sounds at the head of a word (`hangul.cpp`)

A word of Korean that begins with `ㄴ` or `ㄹ` may lose or change this sound, depending on the vowel,
and `렬` or `률` in the second place becomes `열` or `율` behind an open syllable or `ㄴ`.
`apply_head_pron_rule` splits the first syllable into its letters, joins it again, and then counts
the bytes of the first two characters in the word and removes as many from the result.

The bytes that are removed are those of the new first character only if the first character of the
word has as many. Some characters of the fourth plane are read as syllables by the decoder, which
puts the first bits of four bytes in the wrong place. They have four bytes, and the syllable three.

## Main definitions

* `Meowbot.hangulJoinUtf8str`, `Meowbot.hangulSplitUtf8str`, `Meowbot.applyHeadPronRule` — the
  source.
* `Meowbot.HeadRuleStable` — characters stay as many, those from the third on unchanged, and a
  second application does nothing.
* `Meowbot.MisreadOpen` — the characters that are read as syllables that are open or end in `ㄴ`.

## Main results

* `Meowbot.applyHeadPronRule_syllable` — the rule in terms of characters.
* `Meowbot.headRuleStable_iff` — when the rule is stable.
-/

namespace Meowbot

/-! ## The source -/

/-- `utf8_encode_nt`: the C string in the destination. -/
def utf8EncodeNt (unicodeValue : UInt32) (size : ℕ) : Bytes :=
  let r := utf8Encode unicodeValue (size - 1)
  if r.1 > 0 then r.2 else []

/-- `hangul_join_utf8str` -/
def hangulJoinUtf8str (initial medial final : Bytes) : Bytes :=
  let decode (s : Bytes) : ℕ := (utf8DecodeS s).toNat
  let tail := if charAt final 0 = 0 then 0 else decode final
  let ch := hangulJoin (decode initial) (decode medial) tail
  if ch = 0 then [] else cstr ((utf8Encode (UInt32.ofNat ch) 8).2.take 3)

/-- `hangul_split_utf8str` -/
def hangulSplitUtf8str (ch : Bytes) : Option (Bytes × Bytes × Bytes) :=
  match hangulSplit (utf8DecodeS ch).toNat with
  | none => none
  | some (lead, vowel, tail) =>
    let buf (c : ℕ) : Bytes := (utf8EncodeNt (UInt32.ofNat c) 4).take 3
    some (buf lead, buf vowel, if tail = 0 then [] else buf tail)

/-- `substr(pos)`. It throws an exception for a position behind the end. -/
def substrPos (s : Bytes) (pos : ℕ) : Option Bytes :=
  if pos ≤ s.length then some (s.drop pos) else none

/-- What becomes of the initial consonant in front of a vowel, both as UTF-8 texts: an initial `ㄴ`
or `ㄹ` is written `ㅇ` or `ㄴ` in front of the vowels that the source lists. -/
def headInitial (i m : Bytes) : Bytes :=
  if i = String.utf8EncodeChar 'ㄴ' then
    if (['ㅕ', 'ㅛ', 'ㅠ', 'ㅣ'].map String.utf8EncodeChar).contains m then
      String.utf8EncodeChar 'ㅇ'
    else i
  else if i = String.utf8EncodeChar 'ㄹ' then
    if (['ㅑ', 'ㅕ', 'ㅖ', 'ㅛ', 'ㅠ', 'ㅣ'].map String.utf8EncodeChar).contains m then
      String.utf8EncodeChar 'ㅇ'
    else if (['ㅏ', 'ㅐ', 'ㅗ', 'ㅚ', 'ㅜ', 'ㅡ'].map String.utf8EncodeChar).contains m then
      String.utf8EncodeChar 'ㄴ'
    else i
  else i

/-- What becomes of the second character. -/
def headSecond (secondchar : Bytes) : Bytes :=
  if secondchar = String.utf8EncodeChar '렬' then String.utf8EncodeChar '열'
  else if secondchar = String.utf8EncodeChar '률' then String.utf8EncodeChar '율'
  else secondchar

/-- `apply_head_pron_rule`. It is none where the source throws an exception, which is when a
substring is asked for behind the end. After the first character the second one may change too,
which depends on the final consonant of the first. -/
def applyHeadPronRule (word : Bytes) : Option Bytes := do
  let hlen := utf8GetsizeChar word
  if hlen < 0 then some word
  else
    let firstchar ← utf8StrposS word 0
    let remainedstr ← substrPos word hlen.toNat
    match hangulSplitUtf8str firstchar with
    | none => some word
    | some (i, m, f) =>
      let result := hangulJoinUtf8str (headInitial i m) m f ++ remainedstr
      if f = [] ∨ f = String.utf8EncodeChar 'ㄴ' then
        let hlen2 := utf8GetsizeChar (word.drop hlen.toNat)
        if hlen2 > 0 then
          let firstchar ← utf8StrposS result 0
          let secondchar ← utf8StrposS result 1
          let remainedstr ← substrPos result (hlen2 + hlen).toNat
          some (firstchar ++ headSecond secondchar ++ remainedstr)
        else some result
      else some result

/-! ## Letters -/

/-- The bytes of a letter. -/
def letterText (n : ℕ) : Bytes := String.utf8EncodeChar (Char.ofNat n)

/-- The code points of three bytes that come before the surrogates. -/
def IsThreeByte (n : ℕ) : Prop := 0x800 ≤ n ∧ n < 0xD800

/-- The character of a letter. -/
lemma IsThreeByte.toNat_ofNat {n : ℕ} (h : IsThreeByte n) : (Char.ofNat n).val.toNat = n :=
  toNat_charOfNat h.2

/-- A letter is not NUL. -/
lemma IsThreeByte.ne_zero {n : ℕ} (h : IsThreeByte n) : (Char.ofNat n).val ≠ 0 := by
  intro h0
  have hn := h.toNat_ofNat
  rw [h0] at hn
  exact absurd (hn ▸ h.1) (by decide)

/-- A character of three bytes. -/
lemma length_utf8EncodeChar_three {x : Char} (hge : 0x800 ≤ x.val.toNat)
    (hlt : x.val.toNat < 0x10000) : (String.utf8EncodeChar x).length = 3 := by
  rcases utf8EncodeChar_cases x with ⟨h, henc⟩ | ⟨w, hw, y, hy, hv, h, henc⟩ |
    ⟨w, hw, y, hy, z, hz, hv, h, -, henc⟩ | ⟨w, hw, y, hy, z, hz, u, hu, hv, h, -, henc⟩
  · omega
  · omega
  · rw [henc]
    rfl
  · omega

/-- A character of four bytes. -/
lemma length_utf8EncodeChar_four {x : Char} (hge : 0x10000 ≤ x.val.toNat) :
    (String.utf8EncodeChar x).length = 4 := by
  rcases utf8EncodeChar_cases x with ⟨h, henc⟩ | ⟨w, hw, y, hy, hv, h, henc⟩ |
    ⟨w, hw, y, hy, z, hz, hv, h, -, henc⟩ | ⟨w, hw, y, hy, z, hz, u, hu, hv, h, -, henc⟩
  · omega
  · omega
  · omega
  · rw [henc]
    rfl

/-- A letter has three bytes. -/
lemma IsThreeByte.length {n : ℕ} (h : IsThreeByte n) : (letterText n).length = 3 := by
  have hn := h.toNat_ofNat
  obtain ⟨hge, hlt⟩ := h
  exact length_utf8EncodeChar_three (by omega) (by omega)

/-- A letter is encoded if there is room for it. -/
lemma IsThreeByte.utf8Encode {n : ℕ} (h : IsThreeByte n) {size : ℕ} (hsize : 3 ≤ size) :
    utf8Encode (UInt32.ofNat n) size = (3, letterText n) := by
  have hn := h.toNat_ofNat
  have hval : UInt32.ofNat n = (Char.ofNat n).val := by
    rw [← UInt32.ofNat_toNat (x := (Char.ofNat n).val), hn]
  have hbuf : utf8Buf (Char.ofNat n).val = letterText n := by
    rw [← utf8EncodeS_eq]
    refine (utf8EncodeS_char_iff _).mpr (.inl ?_)
    have := h.2
    omega
  have hlen := h.length
  have hne : letterText n ≠ [] := by
    rw [← List.length_pos_iff]
    omega
  rw [Meowbot.utf8Encode, hval, hbuf]
  simp only [if_neg hne, hlen, if_neg (show ¬size < 3 by omega)]
  rfl

/-- A letter is read back. -/
lemma IsThreeByte.utf8DecodeS {n : ℕ} (h : IsThreeByte n) :
    (utf8DecodeS (letterText n)).toNat = n := by
  have hn := h.toNat_ofNat
  have hlt := h.2
  rw [letterText, (utf8DecodeS_char_iff h.ne_zero).mpr (by omega), hn]

/-- Letters with the bytes of a character are this character. -/
lemma IsThreeByte.letterText_eq_iff {n : ℕ} (h : IsThreeByte n) (x : Char) :
    letterText n = String.utf8EncodeChar x ↔ n = x.toNat := by
  have hn : (Char.ofNat n).toNat = n := h.toNat_ofNat
  constructor
  · intro heq
    have hchar : [Char.ofNat n] = [x] := by
      apply utf8Text_injective
      simpa [utf8Text, letterText] using heq
    rw [← hn, List.cons.inj hchar |>.1]
  · rintro rfl
    rw [letterText, Char.ofNat_toNat]

/-- A letter is among some characters. -/
lemma IsThreeByte.letterText_mem_iff {n : ℕ} (h : IsThreeByte n) (xs : List Char) :
    letterText n ∈ xs.map String.utf8EncodeChar ↔ n ∈ xs.map Char.toNat := by
  simp only [List.mem_map]
  constructor
  · rintro ⟨x, hx, heq⟩
    exact ⟨x, hx, ((h.letterText_eq_iff x).mp heq.symm).symm⟩
  · rintro ⟨x, hx, heq⟩
    exact ⟨x, hx, ((h.letterText_eq_iff x).mpr heq.symm).symm⟩

/-! ## Syllables -/

/-- A letter of a syllable has three bytes. -/
lemma isThreeByte_of_range {n : ℕ} (h : ¬(n < 0x3131 ∨ n > 0x3163)) : IsThreeByte n :=
  ⟨by omega, by omega⟩

/-- **What a syllable is split into** makes a syllable. -/
lemma isSyllable_of_hangulSplit {n lead vowel tail : ℕ}
    (h : hangulSplit n = some (lead, vowel, tail)) : IsSyllable lead vowel tail := by
  have hleads : ∀ k < 19, hangulIsChoseongJamo (hangulInitials.getD k 0) := by decide
  have hvowels : ∀ k < 21, hangulIsVowel (hangulMedials.getD k 0) := by decide
  have htails : ∀ k < 28, hangulFinals.getD k 0 = 0 ∨
      hangulIsJongseongJamo (hangulFinals.getD k 0) := by decide
  rw [hangulSplit] at h
  split_ifs at h with hn
  simp only [Option.some.injEq, Prod.mk.injEq] at h
  obtain ⟨rfl, rfl, rfl⟩ := h
  exact ⟨hleads _ (by omega), hvowels _ (by omega), htails _ (by omega)⟩

/-- The bytes of a final consonant, none if there is none. -/
def tailText (tail : ℕ) : Bytes := if tail = 0 then [] else letterText tail

/-- The code point that a character is read as. -/
def readPoint (x : Char) : ℕ := (x.val.toNat / 0x40000) <<< 15 ||| x.val.toNat % 0x40000

/-- Below `U+40000` a character is read as itself. -/
lemma readPoint_of_lt {x : Char} (h : x.val.toNat < 0x40000) : readPoint x = x.val.toNat := by
  rw [readPoint, Nat.div_eq_of_lt h, Nat.mod_eq_of_lt h, Nat.zero_shiftLeft, Nat.zero_or]

/-- What a character is split into. -/
lemma hangulSplitUtf8str_char {x : Char} (hx : x.val ≠ 0) {lead vowel tail : ℕ}
    (h : hangulSplit (readPoint x) = some (lead, vowel, tail)) :
    hangulSplitUtf8str (String.utf8EncodeChar x) =
      some (letterText lead, letterText vowel, tailText tail) := by
  obtain ⟨hlead, hvowel, htail⟩ := (isSyllable_of_hangulSplit h).range
  have hbuf : ∀ n, ¬(n < 0x3131 ∨ n > 0x3163) →
      (utf8EncodeNt (UInt32.ofNat n) 4).take 3 = letterText n := by
    intro n hn
    have hletter := isThreeByte_of_range hn
    rw [utf8EncodeNt, hletter.utf8Encode (by decide)]
    exact List.take_of_length_le hletter.length.le
  have hread : (utf8DecodeS (String.utf8EncodeChar x)).toNat = readPoint x := toNat_utf8DecodeS hx
  rw [hangulSplitUtf8str, hread, h]
  simp only [hbuf lead hlead, hbuf vowel hvowel, tailText]
  by_cases h0 : tail = 0
  · rw [if_pos h0, if_pos h0]
  · rw [if_neg h0, if_neg h0, hbuf tail (htail h0)]

/-- A character that is not read as a syllable is not split. -/
lemma hangulSplitUtf8str_eq_none {x : Char} (hx : x.val ≠ 0)
    (h : hangulSplit (readPoint x) = none) :
    hangulSplitUtf8str (String.utf8EncodeChar x) = none := by
  have hread : (utf8DecodeS (String.utf8EncodeChar x)).toNat = readPoint x := toNat_utf8DecodeS hx
  rw [hangulSplitUtf8str, hread, h]

/-- What letters are joined to.

**Proof sketch.** Each letter has three bytes, and its text is decoded to the letter. An empty text
for the tail is read as zero, which stands for no tail. -/
lemma hangulJoinUtf8str_letters {lead vowel tail : ℕ} (h : IsSyllable lead vowel tail) :
    hangulJoinUtf8str (letterText lead) (letterText vowel) (tailText tail) =
      letterText (hangulJoin lead vowel tail) := by
  obtain ⟨hlead, hvowel, htail⟩ := h.range
  have hrange := hangulJoin_range h
  have hjoin : IsThreeByte (hangulJoin lead vowel tail) := ⟨by omega, by omega⟩
  have htail' : (if charAt (tailText tail) 0 = 0 then 0
      else (utf8DecodeS (tailText tail)).toNat) = tail := by
    by_cases h0 : tail = 0
    · rw [tailText, if_pos h0]
      exact h0.symm
    · have hletter := isThreeByte_of_range (htail h0)
      have hzero := zero_notMem_utf8EncodeChar hletter.ne_zero
      have hne : charAt (letterText tail) 0 ≠ 0 := by
        obtain ⟨b, l, hbl⟩ := List.exists_cons_of_length_pos
          (show 0 < (letterText tail).length by have := hletter.length; omega)
        rw [hbl]
        rintro rfl
        exact hzero (show (0 : Byte) ∈ letterText tail from hbl ▸ List.mem_cons_self)
      rw [tailText, if_neg h0, if_neg hne, hletter.utf8DecodeS]
  rw [hangulJoinUtf8str]
  simp only [(isThreeByte_of_range hlead).utf8DecodeS,
    (isThreeByte_of_range hvowel).utf8DecodeS, htail']
  rw [if_neg (by omega), hjoin.utf8Encode (by decide), List.take_of_length_le hjoin.length.le]
  exact cstr_eq_self (zero_notMem_utf8EncodeChar hjoin.ne_zero)

/-! ## The rule for letters -/

/-- The initial consonant at the head of a word, in front of a vowel, as code points. This is the
rule that the function follows, without the texts. -/
def headLead (lead vowel : ℕ) : ℕ :=
  if lead = 'ㄴ'.toNat then
    if vowel ∈ ['ㅕ', 'ㅛ', 'ㅠ', 'ㅣ'].map Char.toNat then 'ㅇ'.toNat else lead
  else if lead = 'ㄹ'.toNat then
    if vowel ∈ ['ㅑ', 'ㅕ', 'ㅖ', 'ㅛ', 'ㅠ', 'ㅣ'].map Char.toNat then 'ㅇ'.toNat
    else if vowel ∈ ['ㅏ', 'ㅐ', 'ㅗ', 'ㅚ', 'ㅜ', 'ㅡ'].map Char.toNat then 'ㄴ'.toNat
    else lead
  else lead

/-- The source has this rule. -/
lemma headInitial_letters {lead vowel : ℕ} (hlead : IsThreeByte lead) (hvowel : IsThreeByte vowel) :
    headInitial (letterText lead) (letterText vowel) = letterText (headLead lead vowel) := by
  have hchar : ∀ x : Char, letterText x.toNat = String.utf8EncodeChar x := fun x => by
    rw [letterText, Char.ofNat_toNat]
  rw [headInitial, headLead]
  simp only [List.contains_iff_mem, hlead.letterText_eq_iff, hvowel.letterText_mem_iff]
  split_ifs <;> simp only [hchar]

/-- **The rule makes no letter that it changes.**

**Proof sketch.** By the letter and the vowel. The rule changes `ㄴ` to `ㅇ`, which it leaves alone,
and `ㄹ` to `ㄴ` or `ㅇ`; where it makes a `ㄴ`, the vowel is none of those in front of which it would
change that one. -/
lemma headLead_headLead (lead vowel : ℕ) :
    headLead (headLead lead vowel) vowel = headLead lead vowel := by
  have hn : 'ㄴ'.toNat ≠ 'ㄹ'.toNat := by decide
  have hng : 'ㅇ'.toNat ≠ 'ㄴ'.toNat ∧ 'ㅇ'.toNat ≠ 'ㄹ'.toNat := by decide
  -- behind `ㄹ`, none of the vowels that leave `ㄴ` is one of those that change `ㄴ`
  have hdisjoint : ∀ v ∈ ['ㅏ', 'ㅐ', 'ㅗ', 'ㅚ', 'ㅜ', 'ㅡ'].map Char.toNat,
      v ∉ ['ㅕ', 'ㅛ', 'ㅠ', 'ㅣ'].map Char.toNat := by decide
  by_cases h1 : lead = 'ㄴ'.toNat
  · by_cases h2 : vowel ∈ ['ㅕ', 'ㅛ', 'ㅠ', 'ㅣ'].map Char.toNat
    · have hrule : headLead lead vowel = 'ㅇ'.toNat := by rw [headLead, if_pos h1, if_pos h2]
      rw [hrule, headLead, if_neg hng.1, if_neg hng.2]
    · have hrule : headLead lead vowel = lead := by rw [headLead, if_pos h1, if_neg h2]
      rw [hrule, hrule]
  · by_cases h2 : lead = 'ㄹ'.toNat
    · by_cases h3 : vowel ∈ ['ㅑ', 'ㅕ', 'ㅖ', 'ㅛ', 'ㅠ', 'ㅣ'].map Char.toNat
      · have hrule : headLead lead vowel = 'ㅇ'.toNat := by
          rw [headLead, if_neg h1, if_pos h2, if_pos h3]
        rw [hrule, headLead, if_neg hng.1, if_neg hng.2]
      · by_cases h4 : vowel ∈ ['ㅏ', 'ㅐ', 'ㅗ', 'ㅚ', 'ㅜ', 'ㅡ'].map Char.toNat
        · have hrule : headLead lead vowel = 'ㄴ'.toNat := by
            rw [headLead, if_neg h1, if_pos h2, if_neg h3, if_pos h4]
          rw [hrule, headLead, if_pos rfl, if_neg (hdisjoint vowel h4)]
        · have hrule : headLead lead vowel = lead := by
            rw [headLead, if_neg h1, if_pos h2, if_neg h3, if_neg h4]
          rw [hrule, hrule]
    · have hrule : headLead lead vowel = lead := by rw [headLead, if_neg h1, if_neg h2]
      rw [hrule, hrule]

/-- The rule gives an initial consonant. -/
lemma IsSyllable.headLead {lead vowel tail : ℕ} (h : IsSyllable lead vowel tail) :
    IsSyllable (headLead lead vowel) vowel tail := by
  obtain ⟨hlead, hvowel, htail⟩ := h
  refine ⟨?_, hvowel, htail⟩
  rw [Meowbot.headLead]
  split_ifs
  · decide
  · exact hlead
  · decide
  · decide
  · exact hlead
  · exact hlead

/-- What becomes of the second character. -/
def headSecondChar (x : Char) : Char := if x = '렬' then '열' else if x = '률' then '율' else x

/-- The source has this rule. -/
lemma headSecond_char (x : Char) :
    headSecond (String.utf8EncodeChar x) = String.utf8EncodeChar (headSecondChar x) := by
  have hinj : ∀ y : Char, String.utf8EncodeChar x = String.utf8EncodeChar y ↔ x = y := by
    intro y
    refine ⟨fun h => ?_, fun h => h ▸ rfl⟩
    have hchar : [x] = [y] := utf8Text_injective (by simpa [utf8Text] using h)
    exact (List.cons.inj hchar).1
  rw [headSecond, headSecondChar]
  simp only [hinj]
  split_ifs <;> rfl

/-- The rule for the second character makes no character that it changes. -/
lemma headSecondChar_headSecondChar (x : Char) :
    headSecondChar (headSecondChar x) = headSecondChar x := by
  by_cases h1 : x = '렬'
  · rw [h1]
    decide
  · by_cases h2 : x = '률'
    · rw [h2]
      decide
    · have hrule : headSecondChar x = x := by rw [headSecondChar, if_neg h1, if_neg h2]
      rw [hrule, hrule]

/-! ## The rule for characters -/

/-- The rule leaves a word alone that begins with no syllable. -/
lemma applyHeadPronRule_of_none {x : Char} (hx : x.val ≠ 0) (rest : Bytes)
    (h : hangulSplit (readPoint x) = none) :
    applyHeadPronRule (String.utf8EncodeChar x ++ rest) =
      some (String.utf8EncodeChar x ++ rest) := by
  have hsub : substrPos (String.utf8EncodeChar x ++ rest) (String.utf8EncodeChar x).length =
      some rest := by
    rw [substrPos, if_pos (by simp), List.drop_left]
  rw [applyHeadPronRule]
  simp only [utf8GetsizeChar_text hx]
  rw [if_neg (by omega), utf8StrposS_first (isChar_utf8EncodeChar hx), Int.toNat_natCast, hsub]
  simp only [Option.bind_eq_bind, Option.bind_some, hangulSplitUtf8str_eq_none hx h]

/-- **The rule on a word that begins with a syllable**, or with a character that is read as one.

**Proof sketch.** The word is split at its first character, the letter at the front is changed, and
the parts are joined again. The rule looks at a second character only if the syllable is open or
ends in `ㄴ`, and cuts the rest with the size of the first character as it was read. -/
lemma applyHeadPronRule_syllable {x : Char} (hx : x.val ≠ 0) (rest : Bytes)
    {lead vowel tail : ℕ} (h : hangulSplit (readPoint x) = some (lead, vowel, tail)) :
    applyHeadPronRule (String.utf8EncodeChar x ++ rest) =
      if (tail = 0 ∨ tail = 'ㄴ'.toNat) ∧ utf8GetsizeChar rest > 0 then
        (utf8StrposS (letterText (hangulJoin (headLead lead vowel) vowel tail) ++ rest) 1).bind
          fun secondchar =>
            (substrPos (letterText (hangulJoin (headLead lead vowel) vowel tail) ++ rest)
              (utf8GetsizeChar rest + (String.utf8EncodeChar x).length).toNat).map
              fun remainedstr => letterText (hangulJoin (headLead lead vowel) vowel tail) ++
                headSecond secondchar ++ remainedstr
      else some (letterText (hangulJoin (headLead lead vowel) vowel tail) ++ rest) := by
  have hsyllable := isSyllable_of_hangulSplit h
  obtain ⟨hlead, hvowel, htail⟩ := hsyllable.range
  have hrange := hangulJoin_range hsyllable.headLead
  have hletter : IsThreeByte (hangulJoin (headLead lead vowel) vowel tail) := ⟨by omega, by omega⟩
  have hsub : substrPos (String.utf8EncodeChar x ++ rest) (String.utf8EncodeChar x).length =
      some rest := by
    rw [substrPos, if_pos (by simp), List.drop_left]
  have hopen : tailText tail = [] ∨ tailText tail = String.utf8EncodeChar 'ㄴ' ↔
      tail = 0 ∨ tail = 'ㄴ'.toNat := by
    by_cases h0 : tail = 0
    · simp [tailText, h0]
    · have hne : letterText tail ≠ [] := by
        rw [← List.length_pos_iff, (isThreeByte_of_range (htail h0)).length]
        omega
      rw [tailText, if_neg h0, (isThreeByte_of_range (htail h0)).letterText_eq_iff]
      simp [hne, h0]
  rw [applyHeadPronRule]
  simp only [utf8GetsizeChar_text hx]
  rw [if_neg (by omega), utf8StrposS_first (isChar_utf8EncodeChar hx), Int.toNat_natCast, hsub]
  simp only [Option.bind_eq_bind, Option.bind_some, hangulSplitUtf8str_char hx h, List.drop_left,
    headInitial_letters (isThreeByte_of_range hlead) (isThreeByte_of_range hvowel),
    hangulJoinUtf8str_letters hsyllable.headLead, hopen]
  by_cases ho : tail = 0 ∨ tail = 'ㄴ'.toNat
  · by_cases hsize : utf8GetsizeChar rest > 0
    · have hfirst :
          utf8StrposS (letterText (hangulJoin (headLead lead vowel) vowel tail) ++ rest) 0 =
            some (letterText (hangulJoin (headLead lead vowel) vowel tail)) :=
        utf8StrposS_first (isChar_utf8EncodeChar hletter.ne_zero) rest
      rw [if_pos ho, if_pos hsize, if_pos ⟨ho, hsize⟩, hfirst, Option.bind_some]
      congr 1
      funext secondchar
      rw [Option.map_eq_bind]
      rfl
    · rw [if_pos ho, if_neg hsize, if_neg (fun h => hsize h.2)]
  · rw [if_neg ho, if_neg (fun h => ho h.1)]

/-! ## What it is for -/

/-- **The rule is stable on a word**: there is a result, with as many characters, those from the
third on are the same, and the rule does nothing to the result. -/
def HeadRuleStable (word : List Char) : Prop :=
  ∃ result, applyHeadPronRule (utf8Text word) = some (utf8Text result) ∧
    result.length = word.length ∧ result.drop 2 = word.drop 2 ∧
      applyHeadPronRule (utf8Text result) = some (utf8Text result)

/-- The characters of the fourth plane that are read as syllables that are open or end in `ㄴ`: they
are between `U+42C00` and `U+457A3` or between `U+4AC00` and `U+4D7A3`. -/
def MisreadOpen (x : Char) : Prop :=
  x.val.toNat / 0x10000 = 4 ∧ 0x2C00 ≤ x.val.toNat % 0x8000 ∧ x.val.toNat % 0x8000 ≤ 0x57A3 ∧
    ((x.val.toNat % 0x8000 - 0x2C00) % 28 = 0 ∨ (x.val.toNat % 0x8000 - 0x2C00) % 28 = 4)

instance (x : Char) : Decidable (MisreadOpen x) := inferInstanceAs (Decidable (_ ∧ _))

/-- A word begins with such a character and has another one behind it. -/
def BeginsMisread : List Char → Prop
  | x :: y :: _ => MisreadOpen x ∧ y.val ≠ 0
  | _ => False

/-- The first bits of four bytes, put where the others are. -/
lemma lor_lead_one {r : ℕ} (h : r < 0x10000) : 1 <<< 15 ||| r = 0x8000 + r % 0x8000 := by
  have hsplit : r = (r / 0x8000) <<< 15 ||| r % 0x8000 := by
    rw [← Nat.shiftLeft_add_eq_or_of_lt (Nat.mod_lt _ (by decide)), Nat.shiftLeft_eq]
    omega
  have hhigh : r / 0x8000 = 0 ∨ r / 0x8000 = 1 := by omega
  have hone : 1 <<< 15 ||| r = 1 <<< 15 ||| r % 0x8000 := by
    conv_lhs => rw [hsplit]
    rcases hhigh with h0 | h1
    · rw [h0, Nat.zero_shiftLeft, Nat.zero_or]
    · rw [h1, ← Nat.or_assoc, Nat.or_self]
  rw [hone, ← Nat.shiftLeft_add_eq_or_of_lt (Nat.mod_lt _ (by decide)), Nat.shiftLeft_eq]

/-- **The characters from `U+40000` on that are read as syllables** are in the fourth plane.

**Proof sketch.** The first digit is put over the second one, so what is read is the code point
without its highest part, moved into the range of the syllables only where the lower part is not
larger than its place; the bounds leave one plane. -/
lemma readPoint_syllable {x : Char} (hge : 0x40000 ≤ x.val.toNat)
    (h : 0xAC00 ≤ readPoint x ∧ readPoint x ≤ 0xD7A3) :
    x.val.toNat / 0x10000 = 4 ∧ readPoint x = 0x8000 + x.val.toNat % 0x8000 := by
  have hlt : x.val.toNat < 0x110000 := by
    have hvalid : x.val.toNat < 0xD800 ∨ 0xDFFF < x.val.toNat ∧ x.val.toNat < 0x110000 := x.valid
    omega
  rw [readPoint] at h ⊢
  have hleft : (x.val.toNat / 0x40000) <<< 15 ≤
      (x.val.toNat / 0x40000) <<< 15 ||| x.val.toNat % 0x40000 := Nat.left_le_or
  have hright : x.val.toNat % 0x40000 ≤
      (x.val.toNat / 0x40000) <<< 15 ||| x.val.toNat % 0x40000 := Nat.right_le_or
  have hshift : (x.val.toNat / 0x40000) <<< 15 = x.val.toNat / 0x40000 * 0x8000 :=
    Nat.shiftLeft_eq _ _
  have hone : x.val.toNat / 0x40000 = 1 := by omega
  have hplane : x.val.toNat / 0x10000 = 4 := by omega
  refine ⟨hplane, ?_⟩
  rw [hone, lor_lead_one (by omega)]
  omega

/-- A character from `U+40000` on is read as a syllable that is open or ends in `ㄴ` exactly if it is
one of those.

**Proof sketch.** Such a character is read with bit 15 set and its upper bits lost, so it is read as
a syllable exactly in one range of its lower bits. The tail of a syllable is its number modulo 28.
-/
lemma misreadOpen_iff {x : Char} (hge : 0x40000 ≤ x.val.toNat) :
    MisreadOpen x ↔ ∃ lead vowel tail, hangulSplit (readPoint x) = some (lead, vowel, tail) ∧
      (tail = 0 ∨ tail = 'ㄴ'.toNat) := by
  have hfinals : ∀ k < 28, (hangulFinals.getD k 0 = 0 ∨ hangulFinals.getD k 0 = 'ㄴ'.toNat ↔
      k = 0 ∨ k = 4) := by decide
  have htail : ∀ n, n % (21 * 28) % 28 = n % 28 := fun n => Nat.mod_mod_of_dvd n (by decide)
  constructor
  · rintro ⟨hplane, hlow, hhigh, hopen⟩
    have hread : readPoint x = 0x8000 + x.val.toNat % 0x8000 := by
      rw [readPoint, show x.val.toNat / 0x40000 = 1 by omega, lor_lead_one (by omega)]
      omega
    rw [hangulSplit, hread, if_pos (by omega)]
    refine ⟨_, _, _, rfl, (hfinals _ (Nat.mod_lt _ (by decide))).mpr ?_⟩
    rw [htail, show 0x8000 + x.val.toNat % 0x8000 - 0xAC00 = x.val.toNat % 0x8000 - 0x2C00 by omega]
    exact hopen
  · rintro ⟨lead, vowel, tail, hsplit, hopen⟩
    rw [hangulSplit] at hsplit
    split_ifs at hsplit with hrange
    simp only [Option.some.injEq, Prod.mk.injEq] at hsplit
    obtain ⟨hplane, hread⟩ := readPoint_syllable hge hrange
    obtain ⟨-, -, rfl⟩ := hsplit
    rw [hfinals _ (Nat.mod_lt _ (by decide)), htail, hread,
      show 0x8000 + x.val.toNat % 0x8000 - 0xAC00 = x.val.toNat % 0x8000 - 0x2C00 by omega] at hopen
    rw [hread] at hrange
    exact ⟨hplane, by omega, by omega, hopen⟩

/-! ## Texts -/

/-- There is a character at the start of a text that is neither empty nor begins with NUL. -/
lemma utf8GetsizeChar_pos_iff (xs : List Char) :
    utf8GetsizeChar (utf8Text xs) > 0 ↔ ∃ y ∈ xs.head?, y.val ≠ 0 := by
  cases xs with
  | nil => exact iff_of_false (by decide) (by simp)
  | cons y ys =>
    by_cases hy : y.val = 0
    · have henc : String.utf8EncodeChar y = [0] := by
        obtain rfl : y = Char.ofNat 0 := Char.ext hy
        decide
      have hsize : utf8GetsizeChar (utf8Text (y :: ys)) = 0 := by
        rw [utf8Text_cons, henc]
        rfl
      rw [hsize]
      exact iff_of_false (by omega) (by simp [hy])
    · have hlen := (isChar_utf8EncodeChar hy).length_pos
      rw [utf8Text_cons, utf8GetsizeChar_text hy]
      exact iff_of_true (by omega) ⟨y, rfl, hy⟩

/-- A string whose memory begins with NUL is left alone.

**Proof sketch.** The size of the first character is zero, so it is the empty string, which is no
syllable, and the string is returned as it is. -/
lemma applyHeadPronRule_of_zero {word rest : Bytes} (h : word ++ [0] = 0 :: rest) :
    applyHeadPronRule word = some word := by
  have hsize : utf8GetsizeChar word = 0 := by
    cases word with
    | nil => rfl
    | cons b l =>
      obtain rfl := (List.cons.inj h).1
      rfl
  have hpos : utf8StrposS word 0 = some [] := by
    have hget : utf8StrposGetpos (word ++ [0]) (Int32.toInt 0) = some none := by
      rw [Int32.toInt_zero, utf8StrposGetpos, if_pos le_rfl, h, utf8StrposLoop]
      rfl
    rw [utf8StrposS, utf8Strpos, hget]
    rfl
  have hsplit : hangulSplitUtf8str [] = none := by decide
  rw [applyHeadPronRule, hsize, hpos]
  simp only [Option.bind_eq_bind, Option.bind_some, hsplit]
  rfl

/-- A text that begins with NUL is left alone, and the empty text, too. -/
lemma applyHeadPronRule_of_size {xs : List Char} (h : ¬∃ y ∈ xs.head?, y.val ≠ 0) :
    applyHeadPronRule (utf8Text xs) = some (utf8Text xs) := by
  cases xs with
  | nil => exact applyHeadPronRule_of_zero (show utf8Text [] ++ [0] = 0 :: [] from rfl)
  | cons y ys =>
    have hy : y.val = 0 := by
      by_contra hy
      exact h ⟨y, rfl, hy⟩
    have henc : String.utf8EncodeChar y = [0] := by
      obtain rfl : y = Char.ofNat 0 := Char.ext hy
      decide
    have hmem : utf8Text (y :: ys) ++ [0] = 0 :: (utf8Text ys ++ [0]) := by
      rw [utf8Text_cons, henc]
      rfl
    exact applyHeadPronRule_of_zero hmem

/-- **Texts with equal bytes** have the same first character.

**Proof sketch.** The first byte tells the size of a character, so both have the same size, and the
texts are equal up to there. Encoding is injective. -/
lemma utf8EncodeChar_append_inj {x y : Char} {s t : Bytes}
    (h : String.utf8EncodeChar x ++ s = String.utf8EncodeChar y ++ t) : x = y ∧ s = t := by
  have hx := isPiece_utf8EncodeChar x
  have hy := isPiece_utf8EncodeChar y
  have hlen : (String.utf8EncodeChar x).length = (String.utf8EncodeChar y).length := by
    cases hbx : String.utf8EncodeChar x with
    | nil =>
      rw [hbx] at hx
      exact hx.elim
    | cons b l =>
      cases hby : String.utf8EncodeChar y with
      | nil =>
        rw [hby] at hy
        exact hy.elim
      | cons d m =>
        rw [hbx, hby, List.cons_append, List.cons_append] at h
        rw [hbx] at hx
        rw [hby] at hy
        have hsize : some l.length = some m.length := by
          rw [← hx.1, ← hy.1, (List.cons.inj h).1]
        rw [List.length_cons, List.length_cons, Option.some.inj hsize]
  obtain ⟨hxy, hst⟩ := List.append_inj h hlen
  have hchar : [x] = [y] := utf8Text_injective (by simpa [utf8Text] using hxy)
  exact ⟨(List.cons.inj hchar).1, hst⟩

/-! ## Stability -/

/-- The syllable at the head of the result. -/
def headChar (lead vowel tail : ℕ) : Char :=
  Char.ofNat (hangulJoin (headLead lead vowel) vowel tail)

/-- The syllable at the head of the result is split into letters that the rule does not change. -/
lemma headChar_spec {lead vowel tail : ℕ} (h : IsSyllable lead vowel tail) :
    (headChar lead vowel tail).val ≠ 0 ∧
      (String.utf8EncodeChar (headChar lead vowel tail)).length = 3 ∧
      hangulSplit (readPoint (headChar lead vowel tail)) =
        some (headLead lead vowel, vowel, tail) ∧
      headChar (headLead lead vowel) vowel tail = headChar lead vowel tail := by
  have hrange := hangulJoin_range h.headLead
  have hletter : IsThreeByte (hangulJoin (headLead lead vowel) vowel tail) := ⟨by omega, by omega⟩
  have hval : (headChar lead vowel tail).val.toNat = hangulJoin (headLead lead vowel) vowel tail :=
    hletter.toNat_ofNat
  refine ⟨hletter.ne_zero, hletter.length, ?_, ?_⟩
  · rw [readPoint_of_lt (by omega), hval]
    exact hangulSplit_join h.headLead
  · rw [headChar, headChar, headLead_headLead]

/-- The rule changes the first character only, behind another final consonant or at the end. -/
lemma applyHeadPronRule_first {x : Char} (hx : x.val ≠ 0) {xs : List Char} {lead vowel tail : ℕ}
    (h : hangulSplit (readPoint x) = some (lead, vowel, tail))
    (hlast : ¬((tail = 0 ∨ tail = 'ㄴ'.toNat) ∧ ∃ y ∈ xs.head?, y.val ≠ 0)) :
    applyHeadPronRule (utf8Text (x :: xs)) = some (utf8Text (headChar lead vowel tail :: xs)) := by
  rw [← utf8GetsizeChar_pos_iff] at hlast
  rw [utf8Text_cons, applyHeadPronRule_syllable hx _ h, if_neg hlast, utf8Text_cons]
  rfl

/-- The rule on two characters, the first one of which has three bytes.

**Proof sketch.** The first character is changed in place, as both have three bytes, and the second
one with the rule for a character behind it. What is behind them is cut off at the right place. -/
lemma applyHeadPronRule_second {x y : Char} (hx : x.val ≠ 0) (hy : y.val ≠ 0) (ys : List Char)
    {lead vowel tail : ℕ} (h : hangulSplit (readPoint x) = some (lead, vowel, tail))
    (hopen : tail = 0 ∨ tail = 'ㄴ'.toNat) (hlen : (String.utf8EncodeChar x).length = 3) :
    applyHeadPronRule (utf8Text (x :: y :: ys)) =
      some (utf8Text (headChar lead vowel tail :: headSecondChar y :: ys)) := by
  obtain ⟨hhead, hlen', -⟩ := headChar_spec (isSyllable_of_hangulSplit h)
  have hsub : substrPos (letterText (hangulJoin (headLead lead vowel) vowel tail) ++
      (String.utf8EncodeChar y ++ utf8Text ys))
        ((String.utf8EncodeChar y).length + (String.utf8EncodeChar x).length) =
          some (utf8Text ys) := by
    have hdrop : (String.utf8EncodeChar y).length + (String.utf8EncodeChar x).length =
        (letterText (hangulJoin (headLead lead vowel) vowel tail) ++
          String.utf8EncodeChar y).length := by
      rw [List.length_append, hlen, Nat.add_comm, ← hlen']
      rfl
    rw [hdrop, ← List.append_assoc, substrPos, if_pos (by simp), List.drop_left]
  have hsecond : utf8StrposS (letterText (hangulJoin (headLead lead vowel) vowel tail) ++
      (String.utf8EncodeChar y ++ utf8Text ys)) 1 = some (String.utf8EncodeChar y) :=
    utf8StrposS_second (isChar_utf8EncodeChar hhead) (isChar_utf8EncodeChar hy) _
  have hsize : utf8GetsizeChar (utf8Text (y :: ys)) > 0 :=
    (utf8GetsizeChar_pos_iff _).mpr ⟨y, rfl, hy⟩
  rw [utf8Text_cons, applyHeadPronRule_syllable hx _ h, if_pos ⟨hopen, hsize⟩]
  rw [utf8Text_cons, utf8GetsizeChar_text hy, hsecond, Option.bind_some, ← Int.natCast_add,
    Int.toNat_natCast, hsub, Option.map_some, headSecond_char, utf8Text_cons, utf8Text_cons,
    List.append_assoc]
  rfl

/-- The rule for the second character gives no NUL. -/
lemma headSecondChar_ne_zero {x : Char} (hx : x.val ≠ 0) : (headSecondChar x).val ≠ 0 := by
  rw [headSecondChar]
  split_ifs
  · decide
  · decide
  · exact hx

/-- **A word that does not begin with a misread character** has a stable result.

**Proof sketch.** By what the first character is read as. If it is no syllable, or a closed one,
there is at most one change, of the first character; otherwise the first two characters are changed.
The rule changes none of its results again (`headLead_headLead`, `headSecondChar_headSecondChar`).
-/
lemma headRuleStable_of_not {word : List Char} (h : ¬BeginsMisread word) :
    HeadRuleStable word := by
  by_cases hfirst : ∃ x ∈ word.head?, x.val ≠ 0
  · obtain ⟨x, hxmem, hx⟩ := hfirst
    obtain ⟨xs, rfl⟩ : ∃ xs, word = x :: xs := by
      cases word with
      | nil => cases hxmem
      | cons x' xs => exact ⟨xs, by rw [Option.some.inj hxmem]⟩
    cases hsplit : hangulSplit (readPoint x) with
    | none =>
      have hrule := applyHeadPronRule_of_none hx (utf8Text xs) hsplit
      rw [← utf8Text_cons] at hrule
      exact ⟨x :: xs, hrule, rfl, rfl, hrule⟩
    | some r =>
      obtain ⟨lead, vowel, tail⟩ := r
      obtain ⟨hhead, hlen, hsplit', hidem⟩ := headChar_spec (isSyllable_of_hangulSplit hsplit)
      by_cases hboth : (tail = 0 ∨ tail = 'ㄴ'.toNat) ∧ ∃ y ∈ xs.head?, y.val ≠ 0
      · obtain ⟨hopen, y, hymem, hy⟩ := hboth
        obtain ⟨ys, rfl⟩ : ∃ ys, xs = y :: ys := by
          cases xs with
          | nil => cases hymem
          | cons y' ys => exact ⟨ys, by rw [Option.some.inj hymem]⟩
        -- the first character is a syllable, since it is not misread
        have hlt : x.val.toNat < 0x40000 := by
          by_contra hge
          exact h ⟨(misreadOpen_iff (by omega)).mpr ⟨lead, vowel, tail, hsplit, hopen⟩, hy⟩
        have hrange : 0xAC00 ≤ x.val.toNat ∧ x.val.toNat ≤ 0xD7A3 := by
          rw [readPoint_of_lt hlt, hangulSplit] at hsplit
          split_ifs at hsplit with hrange
          exact hrange
        have hlen3 := length_utf8EncodeChar_three (x := x) (by omega) (by omega)
        have hrule := applyHeadPronRule_second hx hy ys hsplit hopen hlen3
        have hagain := applyHeadPronRule_second hhead (headSecondChar_ne_zero hy) ys hsplit' hopen
          hlen
        rw [hidem, headSecondChar_headSecondChar] at hagain
        exact ⟨_, hrule, rfl, rfl, hagain⟩
      · have hrule := applyHeadPronRule_first hx hsplit hboth
        have hagain := applyHeadPronRule_first hhead hsplit' hboth
        rw [hidem] at hagain
        refine ⟨_, hrule, rfl, ?_, hagain⟩
        simp
  · have hrule := applyHeadPronRule_of_size hfirst
    exact ⟨word, hrule, rfl, rfl, hrule⟩

/-- **A word that begins with a misread character** loses a byte of its third character, or there is
no result.

**Proof sketch.** The first character has four bytes, and is replaced by a syllable of three. The
rest is cut off one byte too late, so the third character loses its first byte, or there is no
memory left to read. -/
lemma not_headRuleStable {word : List Char} (h : BeginsMisread word) : ¬HeadRuleStable word := by
  rintro ⟨result, hresult, hlen, hdrop, -⟩
  cases word with
  | nil => exact h
  | cons x xs =>
    cases xs with
    | nil => exact h
    | cons y ys =>
      obtain ⟨hmis, hy⟩ := h
      have hge : 0x40000 ≤ x.val.toNat := by
        have := hmis.1
        omega
      have hx : x.val ≠ 0 := by
        intro h0
        rw [h0] at hge
        exact absurd hge (by decide)
      obtain ⟨lead, vowel, tail, hsplit, hopen⟩ := (misreadOpen_iff hge).mp hmis
      obtain ⟨hhead, hlen3, -⟩ := headChar_spec (isSyllable_of_hangulSplit hsplit)
      have hlen4 := length_utf8EncodeChar_four (x := x) (by omega)
      have hsize : utf8GetsizeChar (utf8Text (y :: ys)) > 0 :=
        (utf8GetsizeChar_pos_iff _).mpr ⟨y, rfl, hy⟩
      have hsecond := utf8StrposS_second (isChar_utf8EncodeChar hhead) (isChar_utf8EncodeChar hy)
        (utf8Text ys)
      rw [utf8Text_cons, applyHeadPronRule_syllable hx _ hsplit, if_pos ⟨hopen, hsize⟩,
        utf8Text_cons y, utf8GetsizeChar_text hy] at hresult
      change ((utf8StrposS (String.utf8EncodeChar (headChar lead vowel tail) ++ _) 1).bind fun _ =>
        (substrPos (String.utf8EncodeChar (headChar lead vowel tail) ++ _) _).map fun _ =>
          String.utf8EncodeChar (headChar lead vowel tail) ++ _ ++ _) = _ at hresult
      rw [hsecond, Option.bind_some, Option.map_eq_some_iff] at hresult
      obtain ⟨rest, hrest, htext⟩ := hresult
      -- four bytes are removed for the first character, which now has three
      rw [substrPos, ← Int.natCast_add, Int.toNat_natCast, ← List.append_assoc] at hrest
      split_ifs at hrest with hfits
      have hdrop1 : (utf8Text ys).drop 1 = rest := by
        have hlen : (String.utf8EncodeChar y).length + (String.utf8EncodeChar x).length =
            (String.utf8EncodeChar (headChar lead vowel tail) ++
              String.utf8EncodeChar y).length + 1 := by
          rw [List.length_append, hlen3, hlen4]
          omega
        rw [← Option.some.inj hrest, hlen, List.drop_length_add_append]
      have hpos : 0 < (utf8Text ys).length := by
        rw [List.length_append, List.length_append] at hfits
        omega
      cases result with
      | nil => cases hlen
      | cons a as =>
        cases as with
        | nil => cases hlen
        | cons b bs =>
          obtain rfl : bs = ys := hdrop
          rw [headSecond_char, List.append_assoc, utf8Text_cons, utf8Text_cons] at htext
          have hsame := (utf8EncodeChar_append_inj (utf8EncodeChar_append_inj htext).2).2
          rw [← hdrop1] at hsame
          have := congrArg List.length hsame
          rw [List.length_drop] at this
          omega

/-- **The rule at the head of a word** keeps the number of characters and those from the third on,
and does nothing when it is applied again, exactly for the words that do not begin with a misread
character in front of another one. -/
theorem headRuleStable_iff (word : List Char) : HeadRuleStable word ↔ ¬BeginsMisread word :=
  ⟨fun h hmis => not_headRuleStable hmis h, headRuleStable_of_not⟩

/-- **A character of the fourth plane in front of two letters** is read as `가`. The second letter is
removed. -/
theorem not_headRuleStable_plane : ¬HeadRuleStable [Char.ofNat 0x42C00, 'a', 'b'] :=
  not_headRuleStable ⟨by decide, by decide⟩

end Meowbot
