import Mathlib.Algebra.BigOperators.Group.List.Basic
import Mathlib.Data.Nat.Digits.Defs
import Mathlib.Data.Nat.ModEq
import Meowbot.Utf8

set_option relaxedAutoImplicit false
set_option autoImplicit false

/-!
# Numbers in a base (`etc.cpp`)

`my_atoi` reads a number of type `int`: a sign, a prefix that tells the base, and digits up to the
first character that is none. Sums and products are taken modulo `2 ^ 32`.

In base 16 the source takes every letter for a digit, and the base behind `0b` is one.

## Main definitions

* `Meowbot.myAtoi` — the source.
* `Meowbot.digit`, `Meowbot.digitRun`, `Meowbot.runValue` — the digits below some limit, the
  longest run of them, and the value of digits in a base.
* `Meowbot.AtoiExact` — the digits that are read too many change nothing.

## Main results

* `Meowbot.myAtoi_eq` — what is computed.
* `Meowbot.myAtoi_eq_iff` — when the value of the digits of the base is.
-/

namespace Meowbot

/-! ## The source -/

/-- A `char` as an `int`. -/
def charInt (c : Byte) : Int32 := c.toInt8.toInt32

/-- The value of a character in the loop of `my_atoi`, none where the loop ends. Above base ten all
letters are taken, also those behind `f`; above sixteen nothing is. -/
def atoiDigit (base : Int32) (nextchar : Byte) : Option Int32 :=
  let c := charInt nextchar
  if base ≤ 10 then
    if c ≥ charInt '0' ∧ c < base + charInt '0' then some (c - charInt '0') else none
  else if base ≤ 16 then
    if c ≥ charInt '0' ∧ c ≤ charInt '9' then some (c - charInt '0')
    else if c ≥ charInt 'A' ∧ c ≤ charInt 'Z' then some (c - charInt 'A' + 10)
    else if c ≥ charInt 'a' ∧ c ≤ charInt 'z' then some (c - charInt 'a' + 10)
    else none
  else none

/-- The loop of `my_atoi`. -/
def atoiLoop (base : Int32) : Int32 → Bytes → Int32
  | val, [] => val
  | val, nextchar :: str =>
    if nextchar = 0 then val
    else match atoiDigit base nextchar with
      | none => val
      | some d => atoiLoop base (val * base + d) str

/-- What is behind the sign. -/
def atoiUnsigned (str : Bytes) : Bytes :=
  if charAt str 0 = '-' then str.drop 1 else if charAt str 0 = '+' then str.drop 1 else str

/-- The first character is a letter from `a` to `f`, of either case. -/
def startsHex (str : Bytes) : Bool :=
  (charInt 'a' ≤ charInt (charAt str 0) && charInt (charAt str 0) ≤ charInt 'f') ||
    (charInt 'A' ≤ charInt (charAt str 0) && charInt (charAt str 0) ≤ charInt 'F')

/-- `my_atoi`. A sign is skipped, `0x` and what `startsHex` tests for begin a number of base 16,
`0b` one of base 1, and anything else is decimal. The result is an `int`, which may wrap. -/
def myAtoi (str : Bytes) : Int32 :=
  let isnegative := charAt str 0 = '-'
  let str := atoiUnsigned str
  let val :=
    if charAt str 0 = '0' ∧ charAt str 1 = 'x' then atoiLoop 16 0 (str.drop 2)
    else if startsHex str then atoiLoop 16 0 str
    else if charAt str 0 = '0' ∧ charAt str 1 = 'b' then atoiLoop 1 0 (str.drop 2)
    else atoiLoop 10 0 str
  if isnegative then -val else val

/-! ## Digits -/

/-- The value of a digit or of a letter of either case. -/
def alnumValue (c : Byte) : Option ℕ :=
  if '0' ≤ c ∧ c ≤ ('9' : Byte) then some (c.toNat - 48)
  else if 'A' ≤ c ∧ c ≤ ('Z' : Byte) then some (c.toNat - 65 + 10)
  else if 'a' ≤ c ∧ c ≤ ('z' : Byte) then some (c.toNat - 97 + 10)
  else none

/-- A digit below some limit. -/
def digit (limit : ℕ) (c : Byte) : Option ℕ := (alnumValue c).filter fun d => d < limit

/-- **The longest run of digits** below some limit. -/
def digitRun (limit : ℕ) : Bytes → List ℕ
  | [] => []
  | c :: str => match digit limit c with
    | none => []
    | some d => d :: digitRun limit str

/-- **The value of digits** in a base, the first one being the most significant. -/
def runValue (base : ℕ) (ds : List ℕ) : ℕ := Nat.ofDigits base ds.reverse

/-- No digits have the value zero. -/
@[simp] lemma runValue_nil (base : ℕ) : runValue base [] = 0 := rfl

/-- The value of digits in two parts. -/
lemma runValue_append (base : ℕ) (ds es : List ℕ) :
    runValue base (ds ++ es) = runValue base ds * base ^ es.length + runValue base es := by
  rw [runValue, List.reverse_append, Nat.ofDigits_append, List.length_reverse, runValue,
    runValue, mul_comm, add_comm]

/-- The value of one digit. -/
@[simp] lemma runValue_singleton (base d : ℕ) : runValue base [d] = d := by
  simp [runValue]

/-- The digits of a loop over digits. -/
lemma runValue_cons (base d : ℕ) (ds : List ℕ) :
    runValue base (d :: ds) = d * base ^ ds.length + runValue base ds := by
  rw [← List.singleton_append, runValue_append, runValue_singleton]

/-- The terminator is no digit. -/
lemma digit_zero (limit : ℕ) : digit limit 0 = none := rfl

/-- The limits below which the source takes characters for digits. -/
def atoiLimit (base : ℕ) : ℕ := if base = 16 then 36 else base

/-- The bases of the source. -/
def IsAtoiBase (base : ℕ) : Prop := base = 1 ∨ base = 10 ∨ base = 16

/-- **The digits of the source** are those below the limit. -/
lemma atoiDigit_eq {base : ℕ} (hbase : IsAtoiBase base) (c : Byte) :
    atoiDigit (Int32.ofNat base) c = (digit (atoiLimit base) c).map Int32.ofNat := by
  obtain rfl | rfl | rfl := hbase
  all_goals
    revert c
    exact forall_byte (by decide +kernel)

/-- **The loop** adds the run of digits to a value.

**Proof sketch.** By induction on the string: a digit multiplies the value and is added, which
commutes with the wrapping of an `int`, and anything else ends the loop. -/
lemma atoiLoop_eq {base : ℕ} (hbase : IsAtoiBase base) (val : ℕ) (str : Bytes) :
    atoiLoop (Int32.ofNat base) (Int32.ofNat val) str =
      Int32.ofNat (val * base ^ (digitRun (atoiLimit base) str).length +
        runValue base (digitRun (atoiLimit base) str)) := by
  induction str generalizing val with
  | nil => simp [atoiLoop, digitRun]
  | cons c str ih =>
    rw [atoiLoop, digitRun, atoiDigit_eq hbase]
    split_ifs with hc
    · rw [hc, digit_zero]
      simp
    · cases digit (atoiLimit base) c with
      | none => simp
      | some d =>
        simp only [Option.map_some]
        rw [← Int32.ofNat_mul, ← Int32.ofNat_add, ih, runValue_cons, List.length_cons]
        congr 1
        ring

/-- The loop from the beginning. -/
lemma atoiLoop_zero {base : ℕ} (hbase : IsAtoiBase base) (str : Bytes) :
    atoiLoop (Int32.ofNat base) 0 str =
      Int32.ofNat (runValue base (digitRun (atoiLimit base) str)) := by
  have h := atoiLoop_eq hbase 0 str
  rwa [zero_mul, zero_add] at h

/-! ## Numerals -/

/-- A numeral behind its sign. -/
def unsignedPart (str : Bytes) : Bytes :=
  if (bytes "-").isPrefixOf str || (bytes "+").isPrefixOf str then str.tail else str

/-- A letter that is a digit in base 16. -/
def isHexLetter (c : Byte) : Bool :=
  ('a' ≤ c && c ≤ ('f' : Byte)) || ('A' ≤ c && c ≤ ('F' : Byte))

/-- The base of a numeral, and what is behind its prefix. -/
def numeral (str : Bytes) : ℕ × Bytes :=
  let str := unsignedPart str
  if (bytes "0x").isPrefixOf str then (16, str.drop 2)
  else if str.head?.any isHexLetter then (16, str)
  else if (bytes "0b").isPrefixOf str then (2, str.drop 2)
  else (10, str)

/-- A number with the sign of a numeral, as an `int`. -/
def withSign (str : Bytes) (n : ℕ) : Int32 :=
  Int32.ofInt (if (bytes "-").isPrefixOf str then -(n : ℤ) else n)

/-- **The value of a numeral**: that of the longest run of digits of its base, modulo the range of
`int`. -/
def numeralValue (str : Bytes) : Int32 :=
  withSign str (runValue (numeral str).1 (digitRun (numeral str).1 (numeral str).2))

/-- The base in which the source computes. -/
def atoiBase (base : ℕ) : ℕ := if base = 2 then 1 else base

/-- A string that starts with a character. -/
lemma isPrefixOf_singleton {c : Byte} (hc : c ≠ 0) (str : Bytes) :
    [c].isPrefixOf str = true ↔ charAt str 0 = c := by
  cases str with
  | nil => simp [charAt, hc.symm]
  | cons b str => simp [charAt, @eq_comm _ c]

/-- A string that starts with two characters. -/
lemma isPrefixOf_pair {c d : Byte} (hc : c ≠ 0) (hd : d ≠ 0) (str : Bytes) :
    [c, d].isPrefixOf str = true ↔ charAt str 0 = c ∧ charAt str 1 = d := by
  cases str with
  | nil => simp [charAt, hc.symm]
  | cons b str =>
    cases str with
    | nil => simp [charAt, hd.symm]
    | cons b' str => simp [charAt, @eq_comm _ c, @eq_comm _ d]

/-- The sign is left out. -/
lemma atoiUnsigned_eq (str : Bytes) : atoiUnsigned str = unsignedPart str := by
  have hminus : (bytes "-").isPrefixOf str = true ↔ charAt str 0 = '-' :=
    isPrefixOf_singleton (by decide) str
  have hplus : (bytes "+").isPrefixOf str = true ↔ charAt str 0 = '+' :=
    isPrefixOf_singleton (by decide) str
  rw [atoiUnsigned, unsignedPart]
  simp only [List.drop_one, Bool.or_eq_true, hminus, hplus]
  split_ifs <;> first | rfl | tauto

/-- The letters of base 16. -/
lemma startsHex_eq (str : Bytes) : startsHex str = str.head?.any isHexLetter := by
  cases str with
  | nil => rfl
  | cons c str =>
    have hbytes : ∀ c, startsHex [c] = isHexLetter c := forall_byte (by decide +kernel)
    exact hbytes c

/-- **What is computed**: the digits below the limit of the base, in the base of the source.

**Proof sketch.** The loop computes the value of its digits modulo `2 ^ 32` (`atoiLoop_zero`), in
the base that the first characters of the numeral select; the sign is looked at once more behind the
loop. -/
theorem myAtoi_eq (str : Bytes) :
    myAtoi str = withSign str (runValue (atoiBase (numeral str).1)
      (digitRun (atoiLimit (atoiBase (numeral str).1)) (numeral str).2)) := by
  have hsign : ∀ n : ℕ, withSign str n =
      if charAt str 0 = '-' then -Int32.ofNat n else Int32.ofNat n := by
    intro n
    have hminus : (bytes "-").isPrefixOf str = true ↔ charAt str 0 = '-' :=
      isPrefixOf_singleton (by decide) str
    rw [withSign, if_congr hminus rfl rfl]
    split_ifs
    · rw [Int32.ofInt_neg, Int32.ofInt_eq_ofNat]
    · exact Int32.ofInt_eq_ofNat
  have hhex : ∀ s, atoiLoop 16 0 s = Int32.ofNat (runValue 16 (digitRun (atoiLimit 16) s)) :=
    atoiLoop_zero (.inr (.inr rfl))
  have hdec : ∀ s, atoiLoop 10 0 s = Int32.ofNat (runValue 10 (digitRun (atoiLimit 10) s)) :=
    atoiLoop_zero (.inr (.inl rfl))
  have hbin : ∀ s, atoiLoop 1 0 s = Int32.ofNat (runValue 1 (digitRun (atoiLimit 1) s)) :=
    atoiLoop_zero (.inl rfl)
  have hx : ∀ s, (bytes "0x").isPrefixOf s = true ↔ charAt s 0 = '0' ∧ charAt s 1 = 'x' :=
    isPrefixOf_pair (by decide) (by decide)
  have hb : ∀ s, (bytes "0b").isPrefixOf s = true ↔ charAt s 0 = '0' ∧ charAt s 1 = 'b' :=
    isPrefixOf_pair (by decide) (by decide)
  rw [hsign, myAtoi, atoiUnsigned_eq, startsHex_eq, hhex, hhex, hdec, hbin, numeral]
  simp only [← hx, ← hb]
  split_ifs <;> rfl

/-! ## Exactness -/

/-- **The digits that are read too many change nothing**: in base 2, where the source computes zero,
the value is zero modulo the range of `int`; in base 16 the letters that are no digits, and what is
behind them up to the next character that is neither a letter nor a digit, do not change it. -/
structure AtoiExact (base : ℕ) (str : Bytes) : Prop where
  binary : base = 2 → runValue 2 (digitRun 2 str) ≡ 0 [MOD 2 ^ 32]
  hex : base = 16 → ∀ more, more = digitRun 36 (str.drop (digitRun 16 str).length) →
    runValue 16 (digitRun 16 str) * 16 ^ more.length + runValue 16 more ≡
      runValue 16 (digitRun 16 str) [MOD 2 ^ 32]

/-- A digit below a larger limit. -/
lemma digit_of_le {limit limit' : ℕ} (h : limit ≤ limit') {c : Byte} {d : ℕ}
    (hd : digit limit c = some d) : digit limit' c = some d := by
  have hmem := Option.filter_eq_some_iff.mp hd
  rw [digit, Option.filter_eq_some_iff]
  exact ⟨hmem.1, decide_eq_true ((of_decide_eq_true hmem.2).trans_le h)⟩

/-- A run of digits below a larger limit. -/
lemma digitRun_of_le {limit limit' : ℕ} (h : limit ≤ limit') (str : Bytes) :
    digitRun limit' str =
      digitRun limit str ++ digitRun limit' (str.drop (digitRun limit str).length) := by
  induction str with
  | nil => rfl
  | cons c str ih =>
    cases hc : digit limit c with
    | none => simp [digitRun, hc]
    | some d =>
      simp only [digitRun, hc, digit_of_le h hc, List.length_cons, List.drop_succ_cons,
        List.cons_append]
      rw [← ih]

/-- The digits of a run are below the limit. -/
lemma lt_of_mem_digitRun {limit : ℕ} {str : Bytes} {d : ℕ} (h : d ∈ digitRun limit str) :
    d < limit := by
  induction str with
  | nil => cases h
  | cons c str ih =>
    rw [digitRun] at h
    split at h
    · cases h
    · rename_i d' hd'
      obtain rfl | h := List.mem_cons.mp h
      · exact of_decide_eq_true (Option.filter_eq_some_iff.mp hd').2
      · exact ih h

/-- In base one there is the digit zero only. -/
lemma runValue_one (str : Bytes) : runValue 1 (digitRun 1 str) = 0 := by
  rw [runValue, Nat.ofDigits_one, List.sum_reverse]
  refine List.sum_eq_zero fun d hd => ?_
  have := lt_of_mem_digitRun hd
  omega

/-- Two numbers are one `int`. -/
lemma int32_ofNat_eq_iff {m n : ℕ} : Int32.ofNat m = Int32.ofNat n ↔ m ≡ n [MOD 2 ^ 32] := by
  rw [← Int32.toBitVec_inj, Int32.toBitVec_ofNat', Int32.toBitVec_ofNat', ← BitVec.toNat_inj,
    BitVec.toNat_ofNat, BitVec.toNat_ofNat, Nat.ModEq]

/-- Two numbers with one sign are one `int`. -/
lemma withSign_eq_iff {str : Bytes} {m n : ℕ} :
    withSign str m = withSign str n ↔ m ≡ n [MOD 2 ^ 32] := by
  rw [withSign, withSign]
  split_ifs
  · rw [Int32.ofInt_neg, Int32.ofInt_neg, Int32.neg_inj, Int32.ofInt_eq_ofNat, Int32.ofInt_eq_ofNat,
      int32_ofNat_eq_iff]
  · rw [Int32.ofInt_eq_ofNat, Int32.ofInt_eq_ofNat, int32_ofNat_eq_iff]

/-- The base of a numeral. -/
lemma numeral_fst (str : Bytes) :
    (numeral str).1 = 2 ∨ (numeral str).1 = 10 ∨ (numeral str).1 = 16 := by
  rw [numeral]
  split_ifs <;> simp

/-- **The value of a numeral is computed** exactly where the digits that are read too many change
nothing. -/
theorem myAtoi_eq_iff (str : Bytes) :
    myAtoi str = numeralValue str ↔ AtoiExact (numeral str).1 (numeral str).2 := by
  rw [myAtoi_eq, numeralValue, withSign_eq_iff]
  generalize (numeral str).2 = rest
  obtain hbase | hbase | hbase := numeral_fst str
  · rw [hbase, show atoiLimit (atoiBase 2) = 1 from rfl, show atoiBase 2 = 1 from rfl,
      runValue_one]
    exact ⟨fun h => ⟨fun _ => h.symm, by omega⟩, fun h => (h.binary rfl).symm⟩
  · rw [hbase]
    exact ⟨fun _ => ⟨by omega, by omega⟩, fun _ => Nat.ModEq.refl _⟩
  · rw [hbase, show atoiLimit (atoiBase 16) = 36 from rfl, show atoiBase 16 = 16 from rfl,
      digitRun_of_le (show 16 ≤ 36 by omega) rest, runValue_append]
    refine ⟨fun h => ⟨by omega, ?_⟩, fun h => h.hex rfl _ rfl⟩
    rintro - more rfl
    exact h

/-- **Three in base two**, which the source takes for zero. -/
theorem myAtoi_binary :
    numeralValue (bytes "0b11") = 3 ∧ myAtoi (bytes "0b11") = 0 := by
  decide

/-- **A letter behind the last digit** of base 16 is taken for a digit. -/
theorem myAtoi_hex : numeralValue (bytes "0x1g") = 1 ∧ myAtoi (bytes "0x1g") = 32 := by
  decide

end Meowbot
