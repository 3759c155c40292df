import Mathlib.Algebra.Order.BigOperators.Group.List
import Mathlib.Algebra.Order.Ring.Int
import Mathlib.Tactic.Positivity
import Meowbot.Utf8

set_option relaxedAutoImplicit false
set_option autoImplicit false

/-!
# Durations (`modules/mod_lua.cpp`)

`timestr_to_time` adds up the numbers with their units in a text, which it looks for with
`(\d++)\s*+([가-힣a-zA-Z]*+)`. A number is read into an `int`, and multiplied with the length of its
unit as an `int`, before it is added to a `time_t`.

The quantifiers of the pattern give nothing back, so that a match is a run of digits, of white space
and of letters. It begins at the first digit.

The library reads a number in place, unless the character behind it could be taken for a further
digit of some base: then it copies the number, and refuses one of more than 32 digits. The loop ends
there, as it does where nothing is found.

## Main definitions

* `Meowbot.findTimestr`, `Meowbot.findAndConsume` — one match, and its number as an `int`.
* `Meowbot.timestrToTime` — `timestr_to_time`.
* `Meowbot.TimePair`, `Meowbot.textPairs`, `Meowbot.unitSeconds` — the numbers and units of a text,
  and the length of a unit.
* `Meowbot.ExactDuration` — the duration is the sum of its terms.

## Main results

* `Meowbot.timestrToTime_eq` — the sum of the terms in front of a refused number, each taken modulo
  `2 ^ 32`.
* `Meowbot.exactDuration_iff` — a duration is exact when each of these terms is an `int`, and the
  others are zero.
-/

namespace Meowbot

/-! ## The source -/

/-- `\d` -/
def isDigitChar (x : Char) : Bool := '0' ≤ x ∧ x ≤ '9'

/-- `\s`: the white space but for the vertical tab. -/
def isSpaceChar (x : Char) : Bool := x ∈ [' ', '\t', '\n', '\x0c', '\r']

/-- `[가-힣a-zA-Z]` -/
def isUnitChar (x : Char) : Bool :=
  ('가' ≤ x ∧ x ≤ '힣') ∨ ('a' ≤ x ∧ x ≤ 'z') ∨ ('A' ≤ x ∧ x ≤ 'Z')

/-- A match of the pattern: the digits and the character behind them, the letters of the unit, and
what is behind it. -/
structure TimestrMatch where
  digits : List Char
  next : Option Char
  unit : List Char
  rest : List Char
  deriving DecidableEq

/-- The first match in a text. -/
def findTimestr (input : List Char) : Option TimestrMatch :=
  match input.dropWhile (!isDigitChar ·) with
  | [] => none
  | x :: cs =>
    let s := cs.dropWhile isDigitChar
    let u := s.dropWhile isSpaceChar
    some ⟨x :: cs.takeWhile isDigitChar, s.head?, u.takeWhile isUnitChar, u.dropWhile isUnitChar⟩

/-- The number that digits stand for. -/
def digitsNumber (digits : List Char) : ℕ :=
  digits.foldl (fun n x => 10 * n + (x.toNat - '0'.toNat)) 0

/-- `kMaxNumberLength` -/
def maxNumberLength : ℕ := 32

/-- What `TerminateNumber` takes for a further digit. -/
def looksLikeDigit (x : Char) : Bool :=
  isDigitChar x ∨ ('a' ≤ x ∧ x ≤ 'f') ∨ ('A' ≤ x ∧ x ≤ 'F')

/-- `TerminateNumber` refuses the number: it would have to be copied, because the character behind
it looks like a digit, and it is too long for the copy. -/
def TimestrMatch.tooLong (m : TimestrMatch) : Bool :=
  maxNumberLength < m.digits.length && m.next.any looksLikeDigit

/-- `pcrecpp::RE::FindAndConsume` for an `int` and a string. It fails for a number that is no `int`,
and for one that is refused. -/
def findAndConsume (input : List Char) : Option (Int32 × Bytes × List Char) :=
  match findTimestr input with
  | none => none
  | some m =>
    if digitsNumber m.digits ≤ int32Max ∧ m.tooLong = false then
      some (Int32.ofNat (digitsNumber m.digits), utf8Text m.unit, m.rest)
    else none

/-- `unit.substr(0, n) == s` -/
def startsUnit (unit : Bytes) (n : ℕ) (s : Bytes) : Prop := unit.take n = s

instance (unit : Bytes) (n : ℕ) (s : Bytes) : Decidable (startsUnit unit n s) :=
  inferInstanceAs (Decidable (unit.take n = s))

/-- The body of the loop: what is added to `t`. -/
def timestrTerm (num : Int32) (unit : Bytes) : Int32 :=
  if unit = [] ∨ unit = utf8Text ['초'] ∨ startsUnit unit 3 (bytes "sec") then num
  else if unit = utf8Text ['분'] ∨ startsUnit unit 3 (bytes "min") then num * 60
  else if unit = utf8Text ['시', '간'] ∨ startsUnit unit 4 (bytes "hour") ∨
      startsUnit unit 2 (bytes "hr") then num * 3600
  else if unit = utf8Text ['일'] ∨ startsUnit unit 3 (bytes "day") then num * 3600 * 24
  else 0

/-- What is behind a match is shorter. -/
lemma findTimestr_length {input : List Char} {m : TimestrMatch} (h : findTimestr input = some m) :
    m.digits.length + m.rest.length ≤ input.length := by
  rw [findTimestr] at h
  split at h
  · cases h
  · rename_i x cs hdrop
    obtain rfl := Option.some.inj h
    have hsub : (x :: cs).length ≤ input.length := hdrop ▸ (List.dropWhile_sublist _).length_le
    have hdigits := congrArg List.length
      (List.takeWhile_append_dropWhile (p := isDigitChar) (l := cs))
    have hspace := ((cs.dropWhile isDigitChar).dropWhile_sublist isSpaceChar).length_le
    have hunit := (((cs.dropWhile isDigitChar).dropWhile isSpaceChar).dropWhile_sublist
      isUnitChar).length_le
    simp only [List.length_append, List.length_cons] at *
    omega

/-- A match has a digit. -/
lemma findTimestr_digits {input : List Char} {m : TimestrMatch} (h : findTimestr input = some m) :
    0 < m.digits.length := by
  rw [findTimestr] at h
  split at h
  · cases h
  · obtain rfl := Option.some.inj h
    exact Nat.succ_pos _

/-- What is behind a match with a number is the rest of the match. -/
lemma findAndConsume_eq_some {input rest : List Char} {num : Int32} {unit : Bytes}
    (h : findAndConsume input = some (num, unit, rest)) :
    ∃ m, findTimestr input = some m ∧
      num = Int32.ofNat (digitsNumber m.digits) ∧ unit = utf8Text m.unit ∧ rest = m.rest := by
  rw [findAndConsume] at h
  split at h
  · cases h
  · rename_i m hm
    split_ifs at h with hfits
    simp only [Option.some.injEq, Prod.mk.injEq] at h
    exact ⟨m, hm, h.1.symm, h.2.1.symm, h.2.2.symm⟩

/-- The loop of `timestr_to_time`, with `t`. Each number that is found is added with its unit, and
the text in front of it is skipped. -/
def timestrLoop (t : ℤ) (input : List Char) : ℤ :=
  match _h : findAndConsume input with
  | none => t
  | some (num, unit, rest) => timestrLoop (t + (timestrTerm num unit).toInt) rest
termination_by input.length
decreasing_by
  obtain ⟨m, hm, -, -, rfl⟩ := findAndConsume_eq_some _h
  have := findTimestr_length hm
  have := findTimestr_digits hm
  omega

/-- `timestr_to_time`. The library finds nothing in a text that is not well-formed. -/
def timestrToTime (timestr : Bytes) : ℤ :=
  match utf8Chars? timestr with
  | none => 0
  | some input => timestrLoop 0 input

/-! ## What it is for -/

/-- A number with its unit, and whether the library refuses it. -/
structure TimePair where
  num : ℕ
  unit : Bytes
  tooLong : Bool
  deriving DecidableEq

/-- The pair of a match. -/
def TimestrMatch.pair (m : TimestrMatch) : TimePair where
  num := digitsNumber m.digits
  unit := utf8Text m.unit
  tooLong := m.tooLong

/-- The numbers of a text, each with its unit, one behind the other as the pattern finds them. -/
def timePairs (input : List Char) : List TimePair :=
  match _h : findTimestr input with
  | none => []
  | some m => m.pair :: timePairs m.rest
termination_by input.length
decreasing_by
  have := findTimestr_length _h
  have := findTimestr_digits _h
  omega

/-- The numbers of a byte string, which has none if it is not well-formed. -/
def textPairs (timestr : Bytes) : List TimePair :=
  match utf8Chars? timestr with
  | none => []
  | some input => timePairs input

/-- The length of a unit in seconds. -/
def unitSeconds (unit : Bytes) : Option ℕ :=
  if unit = [] ∨ unit = utf8Text ['초'] ∨ startsUnit unit 3 (bytes "sec") then some 1
  else if unit = utf8Text ['분'] ∨ startsUnit unit 3 (bytes "min") then some 60
  else if unit = utf8Text ['시', '간'] ∨ startsUnit unit 4 (bytes "hour") ∨
      startsUnit unit 2 (bytes "hr") then some 3600
  else if unit = utf8Text ['일'] ∨ startsUnit unit 3 (bytes "day") then some 86400
  else none

/-- The terms of a text: the product for each pair with a known unit. -/
def timeTerms (pairs : List TimePair) : List ℕ :=
  pairs.filterMap fun p => (unitSeconds p.unit).map (p.num * ·)

/-- The pairs in front of the first number that is refused. -/
def readPairs (pairs : List TimePair) : List TimePair := pairs.takeWhile (!·.tooLong)

/-- The pairs from the first number on that is refused. -/
def leftPairs (pairs : List TimePair) : List TimePair := pairs.dropWhile (!·.tooLong)

/-- **The duration is the sum of its terms.** It is then not negative, and no term is larger. -/
structure ExactDuration (timestr : Bytes) : Prop where
  sum : timestrToTime timestr = (timeTerms (textPairs timestr)).sum
  nonneg : 0 ≤ timestrToTime timestr
  term_le : ∀ term ∈ timeTerms (textPairs timestr), (term : ℤ) ≤ timestrToTime timestr

/-! ## The rounds of the loop -/

variable {input : List Char}

/-- The loop ends where nothing is found. -/
lemma timestrLoop_of_none (t : ℤ) (h : findAndConsume input = none) : timestrLoop t input = t := by
  rw [timestrLoop]
  split
  · rfl
  · rename_i h'
    rw [h] at h'
    cases h'

/-- A round of the loop. -/
lemma timestrLoop_of_some (t : ℤ) {num : Int32} {unit : Bytes} {rest : List Char}
    (h : findAndConsume input = some (num, unit, rest)) :
    timestrLoop t input = timestrLoop (t + (timestrTerm num unit).toInt) rest := by
  rw [timestrLoop]
  split
  · rename_i h'
    rw [h] at h'
    cases h'
  · rename_i h'
    rw [h] at h'
    obtain ⟨rfl, rfl, rfl⟩ := by simpa using h'
    rfl

/-- A text without a digit has no numbers. -/
lemma timePairs_of_none (h : findTimestr input = none) : timePairs input = [] := by
  rw [timePairs]
  split
  · rfl
  · rename_i h'
    rw [h] at h'
    cases h'

/-- The numbers of a text from a match on. -/
lemma timePairs_of_some {m : TimestrMatch} (h : findTimestr input = some m) :
    timePairs input = m.pair :: timePairs m.rest := by
  rw [timePairs]
  split
  · rename_i h'
    rw [h] at h'
    cases h'
  · rename_i h'
    rw [h] at h'
    obtain rfl := Option.some.inj h'
    rfl

/-! ## Terms -/

/-- A number as an `int`. -/
lemma toInt_ofNat_bmod (n : ℕ) : (Int32.ofNat n).toInt = Int.bmod n 4294967296 :=
  Int32.toInt_ofNat'

/-- A number as an `int` is at most the number. -/
lemma toInt_ofNat_le (n : ℕ) : (Int32.ofNat n).toInt ≤ n := by
  rw [toInt_ofNat_bmod, Int.bmod_def]
  split_ifs <;> omega

/-- A number is an `int` exactly if it is in its range. -/
lemma toInt_ofNat_eq_iff (n : ℕ) : (Int32.ofNat n).toInt = n ↔ n ≤ int32Max := by
  rw [toInt_ofNat_bmod, Int.bmod_def, int32Max]
  split_ifs <;> omega

/-- What is added for a pair: the product as an `int`, or nothing for an unknown unit. -/
lemma timestrTerm_ofNat (n : ℕ) (unit : Bytes) :
    timestrTerm (Int32.ofNat n) unit =
      ((unitSeconds unit).map fun k => Int32.ofNat (n * k)).getD 0 := by
  have hday : (3600 : Int32) * 24 = Int32.ofNat 86400 := by decide
  rw [timestrTerm, unitSeconds]
  split_ifs
  · rw [Option.map_some, Option.getD_some, Nat.mul_one]
  · rw [Option.map_some, Option.getD_some, Int32.ofNat_mul]
    rfl
  · rw [Option.map_some, Option.getD_some, Int32.ofNat_mul]
    rfl
  · rw [Option.map_some, Option.getD_some, Int32.ofNat_mul, Int32.mul_assoc, hday]
  · rw [Option.map_none, Option.getD_none]

/-- The terms of a pair and of more pairs. -/
lemma timeTerms_cons (p : TimePair) (pairs : List TimePair) :
    timeTerms (p :: pairs) = ((unitSeconds p.unit).map (p.num * ·)).toList ++ timeTerms pairs := by
  rw [timeTerms, List.filterMap_cons]
  cases unitSeconds p.unit <;> rfl

/-- The terms of all pairs are those of the ones that are read and of the ones that are left. -/
lemma timeTerms_eq_append (pairs : List TimePair) :
    timeTerms pairs = timeTerms (readPairs pairs) ++ timeTerms (leftPairs pairs) := by
  rw [timeTerms, timeTerms, timeTerms, ← List.filterMap_append, readPairs, leftPairs,
    List.takeWhile_append_dropWhile]

/-- What a pair adds to `t` is the sum of its terms, each as an `int`. -/
lemma toInt_timestrTerm (n : ℕ) (unit : Bytes) :
    (timestrTerm (Int32.ofNat n) unit).toInt =
      (((unitSeconds unit).map (n * ·)).toList.map fun term => (Int32.ofNat term).toInt).sum := by
  rw [timestrTerm_ofNat]
  cases unitSeconds unit with
  | none =>
    rw [Option.map_none, Option.getD_none, Option.map_none, Option.toList_none, List.map_nil,
      List.sum_nil, Int32.toInt_zero]
  | some k =>
    rw [Option.map_some, Option.getD_some, Option.map_some, Option.toList_some, List.map_singleton,
      List.sum_singleton]

/-- **The sum of the terms** as the loop forms it: the terms in front of the first number that is
refused, each as an `int`.

**Proof sketch.** By induction on the length of the text. A match whose number is accepted adds the
term of its pair, and the loop goes on behind it; a match whose number is refused ends the loop, and
its pair and the ones behind it are the pairs that are left. -/
lemma timestrLoop_eq (t : ℤ) (input : List Char) (h : ∀ p ∈ timePairs input, p.num ≤ int32Max) :
    timestrLoop t input = t +
      ((timeTerms (readPairs (timePairs input))).map fun term => (Int32.ofNat term).toInt).sum := by
  induction hn : input.length using Nat.strong_induction_on generalizing t input with
  | _ n ih =>
    cases hm : findTimestr input with
    | none =>
      have hnone : findAndConsume input = none := by
        rw [findAndConsume, hm]
      rw [timestrLoop_of_none t hnone, timePairs_of_none hm]
      simp [timeTerms, readPairs]
    | some m =>
      rw [timePairs_of_some hm] at h ⊢
      obtain ⟨hnum, hrest⟩ := List.forall_mem_cons.mp h
      by_cases hlong : m.tooLong = true
      · -- the number is refused
        have hnone : findAndConsume input = none := by
          simp only [findAndConsume, hm, hlong, Bool.true_eq_false, and_false, if_false]
        have hread : readPairs (m.pair :: timePairs m.rest) = [] := by
          rw [readPairs, List.takeWhile_cons_of_neg (by simp [TimestrMatch.pair, hlong])]
        rw [timestrLoop_of_none t hnone, hread]
        simp [timeTerms]
      have hread : readPairs (m.pair :: timePairs m.rest) =
          m.pair :: readPairs (timePairs m.rest) := by
        rw [readPairs, List.takeWhile_cons_of_pos (by simp [TimestrMatch.pair, hlong])]
        rfl
      have hsome : findAndConsume input =
          some (Int32.ofNat (digitsNumber m.digits), utf8Text m.unit, m.rest) := by
        have hok : digitsNumber m.digits ≤ int32Max ∧ m.tooLong = false :=
          ⟨hnum, Bool.eq_false_iff.mpr hlong⟩
        simp only [findAndConsume, hm, if_pos hok]
      have hshort : m.rest.length < n := by
        have := findTimestr_length hm
        have := findTimestr_digits hm
        omega
      rw [timestrLoop_of_some t hsome, ih _ hshort _ m.rest hrest rfl, hread, timeTerms_cons,
        List.map_append, List.sum_append, TimestrMatch.pair, ← toInt_timestrTerm, Int.add_assoc]

/-- **The duration of a text** whose numbers are of type `int`: the sum of the terms in front of the
first number that is refused, each as an `int`. -/
lemma timestrToTime_eq {timestr : Bytes} (h : ∀ p ∈ textPairs timestr, p.num ≤ int32Max) :
    timestrToTime timestr =
      ((timeTerms (readPairs (textPairs timestr))).map fun term =>
        (Int32.ofNat term).toInt).sum := by
  cases hs : utf8Chars? timestr with
  | none => simp [timestrToTime, textPairs, timeTerms, readPairs, hs]
  | some input =>
    have hpairs : textPairs timestr = timePairs input := by
      rw [textPairs, hs]
    have htime : timestrToTime timestr = timestrLoop 0 input := by
      rw [timestrToTime, hs]
    rw [hpairs] at h ⊢
    rw [htime, timestrLoop_eq 0 input h, Int.zero_add]

/-- The loop changes `t` by less than `2 ^ 31` for each character, so that no `time_t` overflows for
a text whose length is an `int`.

**Proof sketch.** By strong induction on the length. Each number takes at least one character, and
its term is an `int`. -/
lemma abs_timestrLoop_sub_le (t : ℤ) (input : List Char) :
    |timestrLoop t input - t| ≤ 2 ^ 31 * input.length := by
  induction hn : input.length using Nat.strong_induction_on generalizing t input with
  | _ n ih =>
    cases hf : findAndConsume input with
    | none =>
      rw [timestrLoop_of_none t hf, Int.sub_self, abs_zero]
      positivity
    | some r =>
      obtain ⟨num, unit, rest⟩ := r
      obtain ⟨m, hm, -, -, rfl⟩ := findAndConsume_eq_some hf
      have hlen := findTimestr_length hm
      have hpos := findTimestr_digits hm
      have hrec := ih m.rest.length (by omega) (t + (timestrTerm num unit).toInt) m.rest rfl
      have hle := Int32.toInt_lt (timestrTerm num unit)
      have hge := Int32.le_toInt (timestrTerm num unit)
      rw [timestrLoop_of_some t hf]
      rw [abs_le] at hrec ⊢
      omega

/-! ## Exact durations -/

/-- The sum of natural numbers taken as `int` is at most their sum. -/
lemma sum_toInt_ofNat_le (terms : List ℕ) :
    (terms.map fun term => (Int32.ofNat term).toInt).sum ≤ (terms.sum : ℕ) := by
  induction terms with
  | nil => simp
  | cons term terms ih =>
    have := toInt_ofNat_le term
    simp only [List.map_cons, List.sum_cons]
    omega

/-- The sum of natural numbers taken as `int` is the sum itself exactly if each of them is. -/
lemma sum_toInt_ofNat_eq_iff (terms : List ℕ) :
    (terms.map fun term => (Int32.ofNat term).toInt).sum = terms.sum ↔
      ∀ term ∈ terms, term ≤ int32Max := by
  induction terms with
  | nil => simp
  | cons term terms ih =>
    have h1 := toInt_ofNat_le term
    have h2 := sum_toInt_ofNat_le terms
    rw [List.forall_mem_cons, ← toInt_ofNat_eq_iff, List.map_cons, List.sum_cons, List.sum_cons]
    refine Iff.trans ?_ (and_congr_right' ih)
    omega

/-- **Durations are exact** for a text whose numbers are of type `int` exactly when every product of
a number and the length of its unit is of type `int`, too, up to the first number that the library
refuses, and every product is zero from there on.

**Proof sketch.** The loop forms the sum of the terms in front of that number, each as an `int`.
This is at most their sum, which is at most the sum of all terms, since they are not negative; so
the first and the last are equal exactly if nothing is lost in either step. -/
theorem exactDuration_iff {timestr : Bytes} (h : ∀ p ∈ textPairs timestr, p.num ≤ int32Max) :
    ExactDuration timestr ↔
      (∀ term ∈ timeTerms (readPairs (textPairs timestr)), term ≤ int32Max) ∧
        ∀ term ∈ timeTerms (leftPairs (textPairs timestr)), term = 0 := by
  have hle := sum_toInt_ofNat_le (timeTerms (readPairs (textPairs timestr)))
  have hsplit : (timeTerms (textPairs timestr)).sum =
      (timeTerms (readPairs (textPairs timestr))).sum +
        (timeTerms (leftPairs (textPairs timestr))).sum := by
    rw [timeTerms_eq_append, List.sum_append]
  rw [← sum_toInt_ofNat_eq_iff, ← List.sum_eq_zero_iff]
  have hsum : timestrToTime timestr = (timeTerms (textPairs timestr)).sum ↔
      ((timeTerms (readPairs (textPairs timestr))).map fun term => (Int32.ofNat term).toInt).sum =
          ((timeTerms (readPairs (textPairs timestr))).sum : ℕ) ∧
        (timeTerms (leftPairs (textPairs timestr))).sum = 0 := by
    rw [timestrToTime_eq h]
    omega
  rw [← hsum]
  refine ⟨ExactDuration.sum, fun hexact => ⟨hexact, ?_, fun term hterm => ?_⟩⟩
  · rw [hexact]
    positivity
  · rw [hexact]
    exact_mod_cast List.single_le_sum (by simp) term hterm

/-- An hour and a half. -/
theorem exactDuration_iff_ninety :
    ExactDuration (utf8Text ['1', 'h', 'r', ' ', '3', '0', '분']) := by
  have hpairs : textPairs (utf8Text ['1', 'h', 'r', ' ', '3', '0', '분']) =
      [⟨1, bytes "hr", false⟩, ⟨30, utf8Text ['분'], false⟩] := by
    have h1 : findTimestr ['1', 'h', 'r', ' ', '3', '0', '분'] =
        some ⟨['1'], some 'h', ['h', 'r'], [' ', '3', '0', '분']⟩ := by decide
    have h2 : findTimestr [' ', '3', '0', '분'] = some ⟨['3', '0'], some '분', ['분'], []⟩ := by
      decide
    have h3 : findTimestr [] = none := by decide
    rw [textPairs, utf8Chars?_utf8Text]
    simp only [timePairs_of_some h1, timePairs_of_some h2, timePairs_of_none h3]
    decide
  refine (exactDuration_iff ?_).mpr ⟨?_, ?_⟩
  all_goals
    rw [hpairs]
    decide

/-- **Days that are too many**: the term for 49711 days comes out as one of less than a day, which
is a time that an alarm can be set for. And **a number that is too long**: a day, written with 32
zeros in front, comes out as nothing.

**Proof sketch.** Both texts are evaluated. The first has a single term, whose seconds wrap; the
number of the second is above the limit of digits, and is not converted. -/
theorem not_exactDuration :
    ((∀ p ∈ textPairs (utf8Text ['4', '9', '7', '1', '1', '일']), p.num ≤ int32Max) ∧
      timestrToTime (utf8Text ['4', '9', '7', '1', '1', '일']) = 63104 ∧
      ¬ExactDuration (utf8Text ['4', '9', '7', '1', '1', '일'])) ∧
    (∀ p ∈ textPairs (utf8Text (List.replicate 32 '0' ++ ['1', 'd', 'a', 'y'])),
        p.num ≤ int32Max) ∧
      timestrToTime (utf8Text (List.replicate 32 '0' ++ ['1', 'd', 'a', 'y'])) = 0 ∧
      ¬ExactDuration (utf8Text (List.replicate 32 '0' ++ ['1', 'd', 'a', 'y'])) := by
  have hnil : findTimestr [] = none := by decide
  constructor
  · have hdays : findTimestr ['4', '9', '7', '1', '1', '일'] =
        some ⟨['4', '9', '7', '1', '1'], some '일', ['일'], []⟩ := by decide
    have hpairs : textPairs (utf8Text ['4', '9', '7', '1', '1', '일']) =
        [⟨49711, utf8Text ['일'], false⟩] := by
      rw [textPairs, utf8Chars?_utf8Text]
      simp only [timePairs_of_some hdays, timePairs_of_none hnil]
      decide
    have hfits : ∀ p ∈ textPairs (utf8Text ['4', '9', '7', '1', '1', '일']), p.num ≤ int32Max := by
      rw [hpairs]
      decide
    have htime : timestrToTime (utf8Text ['4', '9', '7', '1', '1', '일']) = 63104 := by
      rw [timestrToTime_eq hfits, hpairs]
      decide
    refine ⟨hfits, htime, fun h => ?_⟩
    have hsum := h.sum
    rw [htime, hpairs] at hsum
    exact absurd hsum (by decide)
  · have hday : findTimestr (List.replicate 32 '0' ++ ['1', 'd', 'a', 'y']) =
        some ⟨List.replicate 32 '0' ++ ['1'], some 'd', ['d', 'a', 'y'], []⟩ := by decide
    have hpairs : textPairs (utf8Text (List.replicate 32 '0' ++ ['1', 'd', 'a', 'y'])) =
        [⟨1, bytes "day", true⟩] := by
      rw [textPairs, utf8Chars?_utf8Text]
      simp only [timePairs_of_some hday, timePairs_of_none hnil]
      decide
    have hfits : ∀ p ∈ textPairs (utf8Text (List.replicate 32 '0' ++ ['1', 'd', 'a', 'y'])),
        p.num ≤ int32Max := by
      rw [hpairs]
      decide
    have htime : timestrToTime (utf8Text (List.replicate 32 '0' ++ ['1', 'd', 'a', 'y'])) = 0 := by
      rw [timestrToTime_eq hfits, hpairs]
      decide
    refine ⟨hfits, htime, fun h => ?_⟩
    have hsum := h.sum
    rw [htime, hpairs] at hsum
    exact absurd hsum (by decide)

end Meowbot
