import Meowbot.Utf8
import Meowbot.Hangul

set_option relaxedAutoImplicit false
set_option autoImplicit false

/-!
# Korean text that was typed on a Latin keyboard (`qwerty_to_2bul` of `mod_strutils.cpp`)

The letters of a Korean keyboard are put together to syllables as they come. Three slots hold the
syllable that is being put together; a compound consonant remembers its parts, since a vowel after
it takes the second part away. The table of keys ends with a row whose letter is `HANGUL_CODE_END`,
but the search ends at a row whose letter is zero, so that for a key that is no letter it goes on
behind the table. What is there is a parameter, which also says where the memory that can be read
ends.

## Main definitions

* `Meowbot.qwertyTo2bulOnechar` — the letter of a key, searched in the table.
* `Meowbot.Slots.commit`, `Meowbot.Slots.consonant`, `Meowbot.Slots.vowel` — the branches of the
  loop.
* `Meowbot.qwertyTo2bul` — the conversion.
* `Meowbot.KeepsKeys` — no key is lost, none is moved, and no NUL is written.
* `Meowbot.ScanEnds`, `Meowbot.VowelsFit` — the memory behind the table; the vowels in front of
  consonants.

## Main results

* `Meowbot.qwertyTo2bulOnechar_eq` — what the search finds.
-/

namespace Meowbot

/-! ## The table of keys -/

/-- The rows of `qwerty_to_2bul_table`: a letter and its key, without and with shift. A letter whose
key has no other one with shift has two rows. -/
def qwertyKeys : List (Char × Char) :=
  [('ㄱ', 'r'), ('ㄲ', 'R'), ('ㄴ', 's'), ('ㄷ', 'e'), ('ㄸ', 'E'), ('ㄹ', 'f'), ('ㅁ', 'a'), ('ㅂ', 'q'),
    ('ㅃ', 'Q'), ('ㅅ', 't'), ('ㅆ', 'T'), ('ㅇ', 'd'), ('ㅈ', 'w'), ('ㅉ', 'W'), ('ㅊ', 'c'),
    ('ㅋ', 'z'), ('ㅌ', 'x'), ('ㅍ', 'v'), ('ㅎ', 'g'), ('ㅏ', 'k'), ('ㅐ', 'o'), ('ㅑ', 'i'),
    ('ㅒ', 'O'), ('ㅓ', 'j'), ('ㅔ', 'p'), ('ㅕ', 'u'), ('ㅖ', 'P'), ('ㅗ', 'h'), ('ㅛ', 'y'),
    ('ㅜ', 'n'), ('ㅠ', 'b'), ('ㅡ', 'm'), ('ㅣ', 'l'),
    ('ㄴ', 'S'), ('ㄹ', 'F'), ('ㅁ', 'A'), ('ㅇ', 'D'), ('ㅊ', 'C'), ('ㅋ', 'Z'), ('ㅌ', 'X'),
    ('ㅍ', 'V'), ('ㅎ', 'G'), ('ㅏ', 'K'), ('ㅑ', 'I'), ('ㅓ', 'J'), ('ㅕ', 'U'), ('ㅗ', 'H'),
    ('ㅛ', 'Y'), ('ㅜ', 'N'), ('ㅠ', 'B'), ('ㅡ', 'M'), ('ㅣ', 'L')]

/-- A `qwerty_to_2bul_table_t`: `ch` and `kbdch`. -/
abbrev KeyRow := ℕ × Byte

/-- `qwerty_to_2bul_table`, with its last row. -/
def qwertyTo2bulTable : List KeyRow :=
  qwertyKeys.map (fun p => (p.1.toNat, (p.2 : Byte))) ++ [(0xffff, 0)]

/-- The loop of `qwerty_to_2bul_onechar`: the rows from one place on, up to the end of the memory
that can be read. -/
def qwertyScan : List KeyRow → Byte → Option ℕ
  | [], _ => none
  | (ch, kbdch) :: t, p => if ch = 0 then some 0 else if kbdch = p then some ch else qwertyScan t p

/-- `qwerty_to_2bul_onechar`, with the memory behind the table. -/
def qwertyTo2bulOnechar (past : List KeyRow) (p : Byte) : Option ℕ :=
  qwertyScan (qwertyTo2bulTable ++ past) p

/-! ## The syllable that is being put together -/

/-- The variables of `qwerty_to_2bul`: the letters of the syllable that is being typed, zero for
none. Letters that are made of two keep their parts, so that they can be taken apart again. -/
structure Slots where
  /-- The initial consonant. -/
  cho : ℕ
  /-- The vowel. -/
  jung : ℕ
  /-- The final consonant. -/
  jong : ℕ
  /-- The parts of a compound initial consonant. -/
  choSplitted : ℕ × ℕ
  /-- The parts of a compound final consonant. -/
  jongSplitted : ℕ × ℕ
  deriving DecidableEq

namespace Slots

/-- The values at the start. -/
def init : Slots := ⟨0, 0, 0, (0, 0), (0, 0)⟩

/-- A syllable is completed: a final consonant that cannot be one comes after it. -/
def finish (cho jung jong : ℕ) : List ℕ :=
  if jong ≠ 0 ∧ ¬ hangulIsJongseongJamo jong then [hangulJoin cho jung 0, jong]
  else [hangulJoin cho jung jong]

/-- `COMMIT_HANGUL_BUFFER`: the slots after it, and the characters that are appended. -/
def commit (s : Slots) : Slots × List ℕ :=
  ({ s with cho := 0, jung := 0, jong := 0 },
    if s.cho ≠ 0 ∧ s.jung ≠ 0 then finish s.cho s.jung s.jong
    else if s.cho ≠ 0 then [s.cho]
    else if s.jung ≠ 0 then [s.jung]
    else [])

/-- The branch for a consonant: the slots after it, and the characters that are appended. A
consonant is added to the syllable where it fits, alone or merged with the one before; otherwise the
syllable is finished. -/
def consonant (s : Slots) (ch : ℕ) : Slots × List ℕ :=
  if s.cho = 0 then ({ s with cho := ch }, [])
  else if s.jung = 0 then
    let ch2 := hangulMergeAllconsonant s.cho ch 0
    if ch2 ≠ 0 then
      if s.jung = 0 then ({ s with choSplitted := (s.cho, ch), cho := ch2 }, [])
      else if hangulIsChoseongJamo ch2 then ({ s with cho := ch2 }, [])
      else ({ s with cho := ch }, [s.cho])
    else ({ s with cho := ch }, [s.cho])
  else if s.jong = 0 then ({ s with jong := ch }, [])
  else
    let ch2 := hangulMergeConsonant s.jong ch
    if ch2 ≠ 0 then
      if hangulIsJongseongJamo ch2 then ({ s with jongSplitted := (s.jong, ch), jong := ch2 }, [])
      else ({ s with cho := ch, jung := 0, jong := 0 }, finish s.cho s.jung s.jong)
    else ({ s with cho := ch, jung := 0, jong := 0 }, finish s.cho s.jung s.jong)

/-- The first test of the branch for a vowel: an initial consonant that cannot be one is split. -/
def splitCho (s : Slots) : Slots × List ℕ :=
  if s.cho ≠ 0 ∧ ¬ hangulIsChoseongJamo s.cho then
    ({ s with cho := s.choSplitted.2 }, [s.choSplitted.1])
  else (s, [])

/-- The branch for a vowel behind the first test. The final consonant of the syllable, or its second
part, becomes the initial one of the next. -/
def vowelSplitted (s : Slots) (ch : ℕ) : Slots × List ℕ :=
  if s.jung = 0 then ({ s with jung := ch }, [])
  else if s.jong = 0 then
    let ch2 := if s.cho ≠ 0 then hangulMergeVowel s.jung ch else hangulMergeAllvowel s.jung ch
    if ch2 ≠ 0 then ({ s with jung := ch2 }, [])
    else if s.cho ≠ 0 then ({ s with cho := 0, jung := ch }, [hangulJoin s.cho s.jung 0])
    else ({ s with jung := ch }, [s.jung])
  else if hangulIsChoseongJamo s.jong then
    -- `jong` is zero when the source asks if the final consonant has to come after the syllable
    ({ s with cho := s.jong, jung := ch, jong := 0 }, [hangulJoin s.cho s.jung 0])
  else
    ({ s with cho := s.jongSplitted.2, jung := ch, jong := 0 },
      [hangulJoin s.cho s.jung s.jongSplitted.1])

/-- The branch for a vowel. -/
def vowel (s : Slots) (ch : ℕ) : Slots × List ℕ :=
  let r := s.splitCho
  ((r.1.vowelSplitted ch).1, r.2 ++ (r.1.vowelSplitted ch).2)

end Slots

/-! ## The conversion -/

/-- The bytes of characters that are appended with `utf8_encode_s`. -/
def utf8Chars (cs : List ℕ) : Bytes := cs.flatMap fun c => utf8EncodeS (UInt32.ofNat c)

/-- The loop of `qwerty_to_2bul`: nothing comes of it if memory is read that cannot be, or if the
assertion of the last branch fails. -/
def qwertyTo2bulLoop (past : List KeyRow) : Slots → Bytes → Bytes → Option Bytes
  | s, result, [] => some (result ++ utf8Chars s.commit.2)
  | s, result, c :: p =>
    match qwertyTo2bulOnechar past c with
    | none => none
    | some ch =>
      if ch = 0 then
        qwertyTo2bulLoop past s.commit.1 (result ++ utf8Chars s.commit.2 ++ [c]) p
      else if hangulIsConsonant ch then
        qwertyTo2bulLoop past (s.consonant ch).1 (result ++ utf8Chars (s.consonant ch).2) p
      else if hangulIsVowel ch then
        qwertyTo2bulLoop past (s.vowel ch).1 (result ++ utf8Chars (s.vowel ch).2) p
      else none

/-- `qwerty_to_2bul` -/
def qwertyTo2bul (past : List KeyRow) (str : Bytes) : Option Bytes :=
  qwertyTo2bulLoop past Slots.init [] (cstr str)

/-! ## What is expected of it -/

/-- The letter of a key, zero for a key that has none. -/
def keyLetter (c : Byte) : ℕ :=
  match qwertyKeys.find? fun p => (p.2 : Byte) == c with
  | some p => p.1.toNat
  | none => 0

/-- The basic letters of a key; a key without a letter stands for itself. -/
def keyJamo (c : Byte) : List ℕ := if keyLetter c = 0 then [c.toNat] else basicJamo (keyLetter c)

/-- **Every key is kept**: the result is a text without NUL whose basic letters are those of the
keys. -/
def KeepsKeys (past : List KeyRow) (str : Bytes) : Prop :=
  ∃ text : List Char, qwertyTo2bul past str = some (utf8Text text) ∧
    (text.flatMap fun c => basicJamo c.toNat) = str.flatMap keyJamo ∧ ∀ c ∈ text, c.toNat ≠ 0

/-- The memory behind the table ends the search for each key without a letter: there is a zero
before a row with that key. -/
def ScanEnds (past : List KeyRow) (str : Bytes) : Prop :=
  ∀ c ∈ str, keyLetter c = 0 → qwertyScan past c = some 0

/-- The last key is a consonant. -/
def EndsInConsonant (str : Bytes) : Prop := ∃ k ∈ str.getLast?, hangulIsConsonant (keyLetter k)

/-- **Each vowel right in front of a consonant has an initial consonant**: there is a consonant
right in front of it, or in front of a vowel that it makes a compound vowel with. -/
def VowelsFit (str : Bytes) : Prop :=
  ∀ pre v c post, str = pre ++ v :: c :: post →
    hangulIsVowel (keyLetter v) → hangulIsConsonant (keyLetter c) →
      EndsInConsonant pre ∨
        ∃ pre' u, pre = pre' ++ [u] ∧ hangulMergeVowel (keyLetter u) (keyLetter v) ≠ 0 ∧
          EndsInConsonant pre'

/-! ## The search -/

/-- The rows of the table: letters, and keys that are not NUL. -/
lemma qwertyKeys_spec : ∀ p ∈ qwertyKeys, (p.2 : Byte) ≠ 0 ∧
    (hangulIsChoseongJamo p.1.toNat = true ∨ hangulIsVowel p.1.toNat = true) := by
  decide

/-- The letter of a key is an initial consonant or a vowel. -/
lemma keyLetter_spec (c : Byte) :
    keyLetter c = 0 ∨ hangulIsChoseongJamo (keyLetter c) ∨ hangulIsVowel (keyLetter c) := by
  rw [keyLetter]
  split
  · rename_i p hfind
    exact .inr (qwertyKeys_spec p (List.mem_of_find?_eq_some hfind)).2
  · exact .inl rfl

/-- The search in rows that are letters, and behind them. -/
lemma qwertyScan_append {rows : List KeyRow} (hrows : ∀ r ∈ rows, r.1 ≠ 0) (past : List KeyRow)
    (c : Byte) :
    qwertyScan (rows ++ past) c = match rows.find? fun r => r.2 == c with
      | some r => some r.1
      | none => qwertyScan past c := by
  induction rows with
  | nil => rfl
  | cons r rows ih =>
    obtain ⟨hr, hrest⟩ := List.forall_mem_cons.mp hrows
    rw [List.cons_append, qwertyScan, if_neg hr, List.find?_cons]
    by_cases hc : r.2 = c
    · rw [if_pos hc, beq_iff_eq.mpr hc]
    · rw [if_neg hc, beq_eq_false_iff_ne.mpr hc, ih hrest]

/-- A letter of the table is not zero. -/
lemma qwertyKeys_ne_zero {p : Char × Char} (hp : p ∈ qwertyKeys) : p.1.toNat ≠ 0 := by
  rcases (qwertyKeys_spec p hp).2 with h | h
  · exact ne_zero_of_choseong h
  · exact ne_zero_of_vowel h

/-- **The search** finds the letter of a key; for a key without one it goes on behind the table.

**Proof sketch.** No row of the table has the code 0, which would end the search, so the search goes
through all of them. If no row has the letter, it goes on behind the table. -/
lemma qwertyTo2bulOnechar_eq (past : List KeyRow) {c : Byte} (hc : c ≠ 0) :
    qwertyTo2bulOnechar past c =
      if keyLetter c = 0 then qwertyScan past c else some (keyLetter c) := by
  have hrows : ∀ r ∈ qwertyTo2bulTable, r.1 ≠ 0 := by
    refine List.forall_mem_append.mpr ⟨fun r hr => ?_, by simp⟩
    obtain ⟨p, hp, rfl⟩ := List.mem_map.mp hr
    exact qwertyKeys_ne_zero hp
  have hend : [((0xffff, 0) : KeyRow)].find? (fun r => r.2 == c) = none := by
    simpa using hc.symm
  rw [qwertyTo2bulOnechar, qwertyScan_append hrows, qwertyTo2bulTable, List.find?_append, hend,
    Option.or_none, List.find?_map, keyLetter]
  cases hfind : qwertyKeys.find? ((fun r : KeyRow => r.2 == c) ∘ fun p => (p.1.toNat, (p.2 : Byte)))
    with
  | none =>
    have hnone : qwertyKeys.find? (fun p => (p.2 : Byte) == c) = none := hfind
    rw [hnone]
    rfl
  | some p =>
    have hsome : qwertyKeys.find? (fun p => (p.2 : Byte) == c) = some p := hfind
    rw [hsome]
    exact (if_neg (qwertyKeys_ne_zero (List.mem_of_find?_eq_some hfind))).symm

end Meowbot
