import Meowbot.HeadSound
import Meowbot.Lib.SeqPattern
import Meowbot.Wildcard

set_option relaxedAutoImplicit false
set_option autoImplicit false

/-!
# Particles (`hangul.cpp`)

The form of a Korean particle depends on whether the word in front of it ends in a consonant.
`select_josa` is given the text in front of the particle and both forms, and looks at the last
letter or digit of the text. Where it cannot tell, it gives both forms with brackets.

The regular expressions are those for characters in UTF-8: they do nothing to a text that is not
well-formed.

## Main definitions

* `Meowbot.getAlternativeJosa`, `Meowbot.selectJosa` — the source.

## Main results

* `Meowbot.length_selectJosa_le` — the result is at most two bytes longer than both forms.
-/

namespace Meowbot

open SeqPattern

/-! ## The source -/

/-- `get_alternative_josa`: both forms of a particle, one of them in parentheses, for a word whose
end does not tell which to take. An unknown particle stays as it is. -/
def getAlternativeJosa (josa : Bytes) : Bytes :=
  if josa = utf8Text ['은', '는'] then utf8Text ['은', '(', '는', ')']
  else if josa = utf8Text ['이', '가'] then utf8Text ['이', '(', '가', ')']
  else if josa = utf8Text ['을', '를'] then utf8Text ['을', '(', '를', ')']
  else if josa = utf8Text ['과', '와'] then utf8Text ['과', '(', '와', ')']
  else if josa = utf8Text ['아', '야'] then utf8Text ['아', '(', '야', ')']
  else if josa = utf8Text ['이'] then utf8Text ['(', '이', ')']
  else if josa = utf8Text ['으'] then utf8Text ['(', '으', ')']
  else if josa = bytes "s" then bytes "(s)"
  else josa

/-- A character between two others. -/
def charIn (first last x : Char) : Bool := first ≤ x ∧ x ≤ last

/-- `[가-힣0-9a-zA-Z]` -/
def usableLevel1 (x : Char) : Bool :=
  charIn '가' '힣' x || charIn '0' '9' x || charIn 'a' 'z' x || charIn 'A' 'Z' x

/-- `[ㄱ-ㅎㅥ-ㆆ]` -/
def isConsonantLetter (x : Char) : Bool := charIn 'ㄱ' 'ㅎ' x || charIn 'ㅥ' 'ㆆ' x

/-- `[ㅏ-ㅣㆇ-ㆎ]` -/
def isVowelLetter (x : Char) : Bool := charIn 'ㅏ' 'ㅣ' x || charIn 'ㆇ' 'ㆎ' x

/-- `[가-힣0-9a-zA-Zㄱ-ㅎㅏ-ㅣㅥ-ㆆㆇ-ㆎ]` -/
def usableLevel2 (x : Char) : Bool := usableLevel1 x || isConsonantLetter x || isVowelLetter x

/-- `GlobalReplace("", ...)` for the characters outside of a class. -/
def keepChars (p : Char → Bool) (s : Bytes) : Bytes :=
  match utf8Chars? s with
  | none => s
  | some cs => utf8Text (cs.filter p)

/-- `FullMatch` of a text with one character of a class. -/
def isOneOf (p : Char → Bool) (s : Bytes) : Bool :=
  match utf8Chars? s with
  | some [x] => p x
  | _ => false

/-- `[은는이가을를과와아야으]` -/
def isJosaChar (x : Char) : Bool := x ∈ ['은', '는', '이', '가', '을', '를', '과', '와', '아', '야', '으']

/-- `^([^은는이가을를과와아야으]*)([은는이가을를과와아야으]+)(.*)`. Without `ENABLE_FULL_MATCH`, which is
not defined, `FullMatch` is anchored at the start only, so that `.*` may end in front of a line
terminator. -/
def reExtractRealjosa : Pattern Char :=
  ⟨[.many (!isJosaChar ·) 0 false, .many isJosaChar 1 false, .many (· ≠ '\n') 0 false],
    [(0, 1), (1, 1), (2, 1)]⟩

/-- `pre`, `realjosa` and `suf`, the last without what is behind a line terminator. -/
def extractRealjosa (josa : Bytes) : Bytes × Bytes × Bytes :=
  match (utf8Chars? josa).bind reExtractRealjosa.exec with
  | some [pre, realjosa, suf] => (utf8Text pre, utf8Text realjosa, utf8Text suf)
  | _ => ([], josa, [])

/-- The last digit in front of some place decides about `s`. The text comes from its end. -/
def selectPluralLoop : Bytes → Bytes
  | [] => bytes "(s)"
  | p :: before =>
    if ('0' : Byte) ≤ p ∧ p ≤ ('9' : Byte) then
      if p ≠ '1' ∨ (∃ q ∈ before.head?, ('0' : Byte) ≤ q ∧ q ≤ ('9' : Byte)) then bytes "s" else []
    else selectPluralLoop before

/-- `jongseong`, as far as the bytes of the last two characters tell: whether there is a final
consonant. -/
def byteJongseong (lastchar lastchar2 : Bytes) : Option Bool :=
  let c := if ('A' : Byte) ≤ charAt lastchar 0 ∧ charAt lastchar 0 ≤ ('Z' : Byte) then
    tolower (charAt lastchar 0) else charAt lastchar 0
  let c2 := if lastchar2 = [] then 0 else charAt lastchar2 0
  let among (s : String) : Bool := c ∈ bytes s
  if c2 = 'l' ∧ c = 'e' then some true
  else if c2 = 'n' ∧ c = 'g' then some true
  else if among "013678" then some true
  else if among "2459" then some false
  else if (('a' : Byte) ≤ c ∧ c ≤ ('z' : Byte)) ∧ (('a' : Byte) ≤ c2 ∧ c2 ≤ ('z' : Byte)) then
    if among "abcdefghij" || among "oqs" || among "uvwxyz" then some false
    else if among "kplmnrt" then some true
    else none
  else
    if among "abcdefghijk" || among "opq" || among "stuvwxyz" then some false
    else if among "lmnr" then some true
    else none

/-- `jongseong`: whether the last sound of a word is a consonant, none if there is no telling. The
bytes of numbers and Latin letters are looked at first, then the last syllable, and then single
letters. -/
def finalConsonant (lastchar lastchar2 : Bytes) : Option Bool :=
  match byteJongseong lastchar lastchar2 with
  | some b => some b
  | none =>
    match hangulSplitUtf8str lastchar with
    | some (_, _, f) => some (f ≠ [])
    | none =>
      if isOneOf isConsonantLetter lastchar then some true
      else if isOneOf isVowelLetter lastchar then some false
      else none

/-- The form of a particle behind a consonant or a vowel. Two of them are left out behind a vowel,
and an unknown one stays as it is. -/
def realjosaForm (jongseong : Bool) (realjosa : Bytes) : Bytes :=
  let form (yes no : List Char) : Bytes := utf8Text (if jongseong then yes else no)
  if realjosa = utf8Text ['은', '는'] then form ['은'] ['는']
  else if realjosa = utf8Text ['이', '가'] then form ['이'] ['가']
  else if realjosa = utf8Text ['을', '를'] then form ['을'] ['를']
  else if realjosa = utf8Text ['과', '와'] then form ['과'] ['와']
  else if realjosa = utf8Text ['아', '야'] then form ['아'] ['야']
  else if realjosa = utf8Text ['이'] then form ['이'] []
  else if realjosa = utf8Text ['으'] then form ['으'] []
  else realjosa

/-- The part of the context that is looked at. -/
def usableContext (ctx : Bytes) : Bytes :=
  let pctx := keepChars usableLevel1 ctx
  if pctx = [] then keepChars usableLevel2 ctx else pctx

/-- `select_josa`. It has no result where the places of the last characters are not of type `int`.
The text in front of the particle and behind it is kept. -/
def selectJosa (ctx josa : Bytes) : Option Bytes :=
  if ctx = [] ∨ josa = [] then some (getAlternativeJosa josa)
  else if josa = bytes "s" then some (selectPluralLoop ctx.reverse)
  else
    let pctx := usableContext ctx
    if pctx = [] then some (getAlternativeJosa josa)
    else do
      let lastchar ← utf8StrposS pctx (-1)
      let lastchar2 ← utf8StrposS pctx (-2)
      match finalConsonant lastchar lastchar2 with
      | none => some (getAlternativeJosa josa)
      | some jongseong =>
        let r := extractRealjosa josa
        some (r.1 ++ realjosaForm jongseong r.2.1 ++ r.2.2)

/-! ## The length of the result -/

/-- Both forms with brackets are at most two bytes longer.

**Proof sketch.** By the pairs that are known, one after another: the longest of the forms is two
brackets longer. -/
lemma length_getAlternativeJosa_le (josa : Bytes) :
    (getAlternativeJosa josa).length ≤ josa.length + 2 := by
  rw [getAlternativeJosa]
  split_ifs with h1 h2 h3 h4 h5 h6 h7 h8
  · rw [h1]
    decide
  · rw [h2]
    decide
  · rw [h3]
    decide
  · rw [h4]
    decide
  · rw [h5]
    decide
  · rw [h6]
    decide
  · rw [h7]
    decide
  · rw [h8]
    decide
  · omega

/-- One form is not longer than both.

**Proof sketch.** By the pairs that are known, one after another: each form is a part of its pair.
-/
lemma length_realjosaForm_le (jongseong : Bool) (realjosa : Bytes) :
    (realjosaForm jongseong realjosa).length ≤ realjosa.length := by
  rw [realjosaForm]
  by_cases h1 : realjosa = utf8Text ['은', '는']
  · rw [if_pos h1, h1]
    cases jongseong <;> decide
  by_cases h2 : realjosa = utf8Text ['이', '가']
  · rw [if_neg h1, if_pos h2, h2]
    cases jongseong <;> decide
  by_cases h3 : realjosa = utf8Text ['을', '를']
  · rw [if_neg h1, if_neg h2, if_pos h3, h3]
    cases jongseong <;> decide
  by_cases h4 : realjosa = utf8Text ['과', '와']
  · rw [if_neg h1, if_neg h2, if_neg h3, if_pos h4, h4]
    cases jongseong <;> decide
  by_cases h5 : realjosa = utf8Text ['아', '야']
  · rw [if_neg h1, if_neg h2, if_neg h3, if_neg h4, if_pos h5, h5]
    cases jongseong <;> decide
  by_cases h6 : realjosa = utf8Text ['이']
  · rw [if_neg h1, if_neg h2, if_neg h3, if_neg h4, if_neg h5, if_pos h6, h6]
    cases jongseong <;> decide
  by_cases h7 : realjosa = utf8Text ['으']
  · rw [if_neg h1, if_neg h2, if_neg h3, if_neg h4, if_neg h5, if_neg h6, if_pos h7, h7]
    cases jongseong <;> decide
  rw [if_neg h1, if_neg h2, if_neg h3, if_neg h4, if_neg h5, if_neg h6, if_neg h7]

/-- The three parts of both forms are not longer than them.

**Proof sketch.** If the pattern matches, the three parts are the pieces of the match, which follow
one another in the text. If it does not, the particle is the text itself. -/
lemma length_extractRealjosa_le (josa : Bytes) :
    (extractRealjosa josa).1.length + (extractRealjosa josa).2.1.length +
      (extractRealjosa josa).2.2.length ≤ josa.length := by
  rw [extractRealjosa]
  split
  · rename_i pre realjosa suf hmatch
    obtain ⟨cs, hcs, hexec⟩ := Option.bind_eq_some_iff.mp hmatch
    obtain ⟨ps, hps, hgroups⟩ := Option.map_eq_some_iff.mp hexec
    have hlen := matchAtoms_length hps
    obtain ⟨a, b, d, rfl⟩ : ∃ a b d, ps = [a, b, d] := by
      match ps, hlen with
      | [a, b, d], _ => exact ⟨a, b, d, rfl⟩
    obtain ⟨rest, hrest⟩ := matchAtoms_prefix hps
    obtain ⟨rfl, rfl, rfl⟩ : a = pre ∧ b = realjosa ∧ d = suf := by
      simpa [reExtractRealjosa] using hgroups
    rw [utf8Chars?_eq_some_iff.mp hcs, ← hrest]
    simp only [List.flatten_cons, utf8Text_append, List.length_append]
    omega
  · simp

/-- **The result is at most two bytes longer** than both forms.

**Proof sketch.** By the branches: both forms with brackets, one of them, or an ending of the
plural, which has at most three bytes. -/
lemma length_selectJosa_le {ctx josa r : Bytes} (h : selectJosa ctx josa = some r) :
    r.length ≤ josa.length + 2 := by
  have halt := length_getAlternativeJosa_le josa
  rw [selectJosa] at h
  by_cases hempty : ctx = [] ∨ josa = []
  · rw [if_pos hempty] at h
    rwa [← Option.some.inj h]
  rw [if_neg hempty] at h
  by_cases hs : josa = bytes "s"
  · have hplural : ∀ before : Bytes, (selectPluralLoop before).length ≤ 3 := by
      intro before
      induction before with
      | nil => decide
      | cons p before ih =>
        rw [selectPluralLoop]
        split_ifs
        · decide
        · decide
        · exact ih
    rw [if_pos hs] at h
    rw [← Option.some.inj h, hs]
    exact hplural ctx.reverse
  rw [if_neg hs] at h
  by_cases hpctx : usableContext ctx = []
  · rw [if_pos hpctx] at h
    rwa [← Option.some.inj h]
  rw [if_neg hpctx] at h
  obtain ⟨lastchar, -, h⟩ := Option.bind_eq_some_iff.mp h
  obtain ⟨lastchar2, -, h⟩ := Option.bind_eq_some_iff.mp h
  cases hfinal : finalConsonant lastchar lastchar2 with
  | none =>
    rw [hfinal] at h
    rwa [← Option.some.inj h]
  | some jongseong =>
    rw [hfinal] at h
    have hparts := length_extractRealjosa_le josa
    have hform := length_realjosaForm_le jongseong (extractRealjosa josa).2.1
    rw [← Option.some.inj h, List.length_append, List.length_append]
    omega

end Meowbot
