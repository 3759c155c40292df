import Meowbot.Basic
import Mathlib.Data.Nat.Digits.Defs

set_option relaxedAutoImplicit false
set_option autoImplicit false

/-!
# Lua values and their notation

The values that Lua 5.1 reads from an expression made of literals and table constructors, and how it
prints numbers. A number is an integer here. The reader follows the lexer and the parser as far as
quoted strings, numerals, the names of constants, a minus in front of a numeral and constructors
with keys in brackets go, and gives up on everything else.

## Main definitions

* `Meowbot.LuaKey`, `Meowbot.LuaValue` — keys and values, tables being lists of fields.
* `Meowbot.luaNumber2str` — `%.14g`.
* `Meowbot.readLuaString`, `Meowbot.readLuaNumber`, `Meowbot.readLuaExpr` — the reader.

## Main results

* `Meowbot.readLuaExpr_number2str` — a number below `10 ^ 14` is read where it has been printed.
-/

namespace Meowbot

/-! ## Values -/

/-- A key of a table. -/
inductive LuaKey where
  | number (n : ℤ)
  | string (s : Bytes)
  | other
  deriving DecidableEq

/-- A value. The fields of a table are in the order in which `pairs` enumerates them. -/
inductive LuaValue where
  | nil
  | boolean (b : Bool)
  | number (n : ℤ)
  | string (s : Bytes)
  | table (fields : List (LuaKey × LuaValue))
  | other

/-- The fields of a table. -/
abbrev LuaFields := List (LuaKey × LuaValue)

/-- `t[key] = value` -/
def LuaFields.set : LuaFields → LuaKey → LuaValue → LuaFields
  | [], key, value => [(key, value)]
  | (key', value') :: fields, key, value =>
    if key' = key then (key, value) :: fields else (key', value') :: LuaFields.set fields key value

/-! ## Printing numbers -/

/-- A decimal digit. -/
def digitByte (d : ℕ) : Byte := UInt8.ofNat (48 + d)

/-- The decimal digits of a number. -/
def decimal (n : ℕ) : Bytes :=
  if n = 0 then bytes "0" else ((Nat.digits 10 n).reverse).map digitByte

/-- The largest number of digits that `%.14g` prints. -/
def precision : ℕ := 14

/-- A number of so many digits, more than `%.14g` prints, rounded to those: the digits, and the
exponent of the first one. Halves are rounded to even digits. -/
def roundDigits (n digits : ℕ) : ℕ × ℕ :=
  let unit := 10 ^ (digits - precision)
  let q := n / unit
  let up := 2 * (n % unit) > unit ∨ (2 * (n % unit) = unit ∧ q % 2 = 1)
  let q := if up then q + 1 else q
  if q = 10 ^ precision then (1, digits) else (q, digits - 1)

/-- The digits of a mantissa, with a point behind the first one and without zeros at the end. -/
def mantissa (n : ℕ) : Bytes :=
  match decimal n with
  | [] => []
  | d :: ds =>
    let ds := (ds.reverse.dropWhile fun c => c = ('0' : Byte)).reverse
    if ds = [] then [d] else d :: ('.' : Byte) :: ds

/-- `%.14g` of a number that is not negative. -/
def printG (n : ℕ) : Bytes :=
  if n < 10 ^ precision then decimal n
  else
    let r := roundDigits n (decimal n).length
    mantissa r.1 ++ bytes "e+" ++ (if r.2 < 10 then bytes "0" else []) ++ decimal r.2

/-- `lua_number2str`, as used by `tostring` and by the concatenation of strings. -/
def luaNumber2str (n : ℤ) : Bytes := (if n < 0 then bytes "-" else []) ++ printG n.natAbs

/-! ## Reading -/

/-- `isspace` -/
def isSpaceByte (c : Byte) : Bool := c = ' ' ∨ (9 ≤ c ∧ c ≤ 13)

/-- `isdigit` -/
def isDigitByte (c : Byte) : Bool := ('0' : Byte) ≤ c ∧ c ≤ ('9' : Byte)

/-- `isalnum(c) || c == '_'` -/
def isWordByte (c : Byte) : Bool :=
  isDigitByte c ∨ (('A' : Byte) ≤ c ∧ c ≤ ('Z' : Byte)) ∨ (('a' : Byte) ≤ c ∧ c ≤ ('z' : Byte)) ∨
    c = '_'

/-- A byte of a name; with `LUA_UTF8_SUMBOL_NAMES`, all bytes from `0x80` on are. -/
def isNameByte (c : Byte) : Bool := isWordByte c ∨ 128 ≤ c

/-- The other quote. -/
abbrev doubleQuote : Byte := 34

/-- Leading space is skipped. -/
def skipSpace (s : Bytes) : Bytes := s.dropWhile isSpaceByte

/-- What an escape sequence of one letter stands for: a letter of its own, or itself. Sequences that
are longer are left out, which are those of digits and the hexadecimal ones, and an escaped end of a
line. -/
def unescape (c : Byte) : Option Byte :=
  if c = 'a' then some 7
  else if c = 'b' then some 8
  else if c = 'f' then some 12
  else if c = 'n' then some LF
  else if c = 'r' then some CR
  else if c = 't' then some 9
  else if c = 'v' then some 11
  else if c = LF ∨ c = CR ∨ isDigitByte c ∨ c = 'x' ∨ c = 'u' then none
  else some c

/-- `read_string`, behind the opening quote: the string and what is behind the closing one. An end
of a line in front of it is an error, and so is the end of the text. -/
def readLuaString (del : Byte) : Bytes → Option (Bytes × Bytes)
  | [] => none
  | [c] => if c = del then some ([], []) else none
  | c :: c' :: s =>
    if c = del then some ([], c' :: s)
    else if c = LF ∨ c = CR then none
    else if c = '\\' then do
      let b ← unescape c'
      let (str, rest) ← readLuaString del s
      return (b :: str, rest)
    else do
      let (str, rest) ← readLuaString del (c' :: s)
      return (c :: str, rest)

/-- The value of decimal digits. -/
def digitsValue (s : Bytes) : ℕ := s.foldl (fun v c => 10 * v + (c.toNat - 48)) 0

/-- The exponent of a numeral: none, or `e` with a sign and digits. Anything else is no numeral. -/
def readExponent : Bytes → Option ℤ
  | [] => some 0
  | e :: s =>
    if e = 'e' ∨ e = 'E' then
      let (sign, ds) : ℤ × Bytes := match s with
        | c :: ds => if c = '-' then (-1, ds) else if c = '+' then (1, ds) else (1, s)
        | [] => (1, [])
      if ds ≠ [] ∧ ds.all isDigitByte then some (sign * digitsValue ds) else none
    else none

/-- `lua_str2number`, if the value is an integer: the digits in front of the point and behind it as
one number, moved by the exponent. -/
def luaStr2number (t : Bytes) : Option ℤ := do
  let whole := t.takeWhile isDigitByte
  let (fraction, rest) := match t.dropWhile isDigitByte with
    | c :: s => if c = '.' then (s.takeWhile isDigitByte, s.dropWhile isDigitByte) else ([], c :: s)
    | [] => ([], [])
  let exponent ← readExponent rest
  let scale := exponent - fraction.length
  let value := digitsValue (whole ++ fraction)
  if scale ≥ 0 then return value * 10 ^ scale.toNat
  else if value % 10 ^ scale.natAbs = 0 then return value / 10 ^ scale.natAbs
  else none

/-- `read_numeral`: the text of a numeral, and what is behind it. The token is longer than the
numeral where letters follow, and is then refused when it is converted. -/
def numeralToken (s : Bytes) : Bytes × Bytes :=
  let isStart : Byte → Bool := fun c => isDigitByte c ∨ c = '.'
  let (e, rest) := match s.dropWhile isStart with
    | c :: rest =>
      if c = 'e' ∨ c = 'E' then
        match rest with
        | d :: rest' => if d = '+' ∨ d = '-' then ([c, d], rest') else ([c], rest)
        | [] => ([c], [])
      else ([], c :: rest)
    | [] => ([], [])
  (s.takeWhile isStart ++ e ++ rest.takeWhile isWordByte, rest.dropWhile isWordByte)

/-- A numeral, which starts with a digit. -/
def readLuaNumber (s : Bytes) : Option (ℤ × Bytes) :=
  if s.head?.any isDigitByte then
    (luaStr2number (numeralToken s).1).map fun n => (n, (numeralToken s).2)
  else none

/-- A constant. -/
def readLuaName (s : Bytes) : Option (LuaValue × Bytes) :=
  let rest := s.dropWhile isNameByte
  if s.takeWhile isNameByte = bytes "nil" then some (.nil, rest)
  else if s.takeWhile isNameByte = bytes "true" then some (.boolean true, rest)
  else if s.takeWhile isNameByte = bytes "false" then some (.boolean false, rest)
  else none

/-- A token of one byte. -/
def expectByte (c : Byte) (s : Bytes) : Option Bytes :=
  match skipSpace s with
  | c' :: rest => if c' = c then some rest else none
  | [] => none

/-- The key of a field, if it is of a kind that is modelled. -/
def LuaValue.toKey : LuaValue → Option LuaKey
  | .number n => some (.number n)
  | .string s => some (.string s)
  | _ => none

mutual

/-- An expression: a string, a table, a numeral with or without a minus, or a constant. These are
the values that are written; operators and calls are left out. The fuel bounds the depth. -/
def readLuaExpr : ℕ → Bytes → Option (LuaValue × Bytes)
  | 0, _ => none
  | fuel + 1, s =>
    match skipSpace s with
    | [] => none
    | c :: s =>
      if c = '\'' ∨ c = doubleQuote then (readLuaString c s).map fun r => (.string r.1, r.2)
      else if c = '{' then readLuaFields fuel [] s
      else if c = '-' then (readLuaNumber (skipSpace s)).map fun r => (.number (-r.1), r.2)
      else if isDigitByte c then (readLuaNumber (c :: s)).map fun r => (.number r.1, r.2)
      else readLuaName (c :: s)

/-- The rest of a table constructor, behind some fields: its end, or another field in brackets with
its value, and then a separator or the end. -/
def readLuaFields : ℕ → LuaFields → Bytes → Option (LuaValue × Bytes)
  | 0, _, _ => none
  | fuel + 1, fields, s =>
    match skipSpace s with
    | [] => none
    | c :: s =>
      if c = '}' then some (.table fields, s)
      else if c = '[' then do
        let (k, s) ← readLuaExpr fuel s
        let key ← k.toKey
        let s ← expectByte ']' s
        let s ← expectByte '=' s
        let (value, s) ← readLuaExpr fuel s
        match skipSpace s with
        | [] => none
        | c :: s =>
          if c = ',' ∨ c = ';' then readLuaFields fuel (LuaFields.set fields key value) s
          else if c = '}' then some (.table (LuaFields.set fields key value), s)
          else none
      else none

end

/-! ## Where tokens end -/

/-- A text does not go on with a byte of a kind. -/
def Stops (p : Byte → Bool) (rest : Bytes) : Prop := ∀ c ∈ rest.head?, p c = false

/-- A text does not go on with a name or a numeral. -/
def EndsToken (rest : Bytes) : Prop := Stops isNameByte rest ∧ Stops (· = '.') rest

/-- A run of bytes that goes on as long as it can. -/
lemma takeWhile_append_of_stops {p : Byte → Bool} {s rest : Bytes} (hs : ∀ c ∈ s, p c)
    (hrest : Stops p rest) : (s ++ rest).takeWhile p = s := by
  rw [List.takeWhile_append_of_pos hs]
  rcases rest with _ | ⟨c, rest⟩
  · exact List.append_nil s
  · have hc : p c = false := hrest c rfl
    rw [List.takeWhile_cons_of_neg (by simp [hc]), List.append_nil]

/-- What is behind a run of bytes. -/
lemma dropWhile_append_of_stops {p : Byte → Bool} {s rest : Bytes} (hs : ∀ c ∈ s, p c)
    (hrest : Stops p rest) : (s ++ rest).dropWhile p = rest := by
  rw [List.dropWhile_append_of_pos hs]
  rcases rest with _ | ⟨c, rest⟩
  · rfl
  · have hc : p c = false := hrest c rfl
    rw [List.dropWhile_cons_of_neg (by simp [hc])]

/-- A text that goes on with neither of two kinds of bytes. -/
lemma Stops.mono {p q : Byte → Bool} {rest : Bytes} (h : Stops p rest) (hpq : ∀ c, q c → p c) :
    Stops q rest := by
  intro c hc
  by_contra hq
  rw [Bool.not_eq_false] at hq
  exact absurd (h c hc) (by simp [hpq c hq])

/-- The bytes of words may be in names. -/
lemma isNameByte_of_isWordByte {c : Byte} (h : isWordByte c) : isNameByte c := by
  rw [isNameByte, decide_eq_true_eq]
  exact .inl h

/-- Digits may be in words. -/
lemma isWordByte_of_isDigitByte {c : Byte} (h : isDigitByte c) : isWordByte c := by
  rw [isWordByte, decide_eq_true_eq]
  exact .inl h

/-- A digit is not space. -/
lemma isSpaceByte_of_isDigitByte {c : Byte} (h : isDigitByte c) : isSpaceByte c = false := by
  rw [isDigitByte, decide_eq_true_eq, UInt8.le_iff_toNat_le, UInt8.le_iff_toNat_le] at h
  change 48 ≤ c.toNat ∧ c.toNat ≤ 57 at h
  rw [isSpaceByte, decide_eq_false_iff_not, UInt8.le_iff_toNat_le, UInt8.le_iff_toNat_le]
  change ¬ (c = ' ' ∨ 9 ≤ c.toNat ∧ c.toNat ≤ 13)
  rintro (rfl | hc)
  · exact absurd h (by decide)
  · omega

/-- Space in front of a text is skipped. -/
lemma skipSpace_append {space : Bytes} (h : ∀ c ∈ space, isSpaceByte c) (s : Bytes) :
    skipSpace (space ++ s) = skipSpace s := List.dropWhile_append_of_pos h

/-- A byte that is not space stays. -/
lemma skipSpace_cons {c : Byte} (h : isSpaceByte c = false) (s : Bytes) :
    skipSpace (c :: s) = c :: s := List.dropWhile_cons_of_neg (by simp [h])

/-- A token of one byte behind space. -/
lemma expectByte_space {space : Bytes} (h : ∀ c ∈ space, isSpaceByte c) {c : Byte}
    (hc : isSpaceByte c = false) (s : Bytes) : expectByte c (space ++ c :: s) = some s := by
  rw [expectByte, skipSpace_append h, skipSpace_cons hc]
  exact if_pos rfl

/-- A token of one byte, without space in front of it. -/
lemma expectByte_cons {c : Byte} (hc : isSpaceByte c = false) (s : Bytes) :
    expectByte c (c :: s) = some s := @expectByte_space [] nofun c hc s

/-! ## Numerals -/

/-- The value of a digit. -/
lemma toNat_digitByte {d : ℕ} (h : d < 10) : (digitByte d).toNat = 48 + d := by
  rw [digitByte, UInt8.toNat_ofNat']
  exact Nat.mod_eq_of_lt (by omega)

/-- A digit is a digit. -/
lemma isDigitByte_digitByte {d : ℕ} (h : d < 10) : isDigitByte (digitByte d) := by
  rw [isDigitByte, decide_eq_true_eq, UInt8.le_iff_toNat_le, UInt8.le_iff_toNat_le,
    toNat_digitByte h]
  change 48 ≤ 48 + d ∧ 48 + d ≤ 57
  omega

/-- The digits of a number are digits. -/
lemma isDigitByte_of_mem_decimal {n : ℕ} {c : Byte} (h : c ∈ decimal n) : isDigitByte c := by
  rw [decimal] at h
  split_ifs at h
  · obtain rfl := List.mem_singleton.mp h
    rfl
  · obtain ⟨d, hd, rfl⟩ := List.mem_map.mp h
    exact isDigitByte_digitByte (Nat.digits_lt_base (by omega) (List.mem_reverse.mp hd))

/-- A number has digits. -/
lemma decimal_ne_nil (n : ℕ) : decimal n ≠ [] := by
  rw [decimal]
  split_ifs with h
  · exact List.cons_ne_nil _ _
  · simpa [Nat.digits_eq_nil_iff_eq_zero] using h

/-- The value of digits in reverse. -/
lemma digitsValue_reverse {ds : List ℕ} (h : ∀ d ∈ ds, d < 10) :
    digitsValue (ds.reverse.map digitByte) = Nat.ofDigits 10 ds := by
  induction ds with
  | nil => rfl
  | cons d ds ih =>
    obtain ⟨hd, hds⟩ := List.forall_mem_cons.mp h
    rw [List.reverse_cons, List.map_append, digitsValue, List.foldl_append]
    change 10 * digitsValue (ds.reverse.map digitByte) + ((digitByte d).toNat - 48) = _
    rw [ih hds, toNat_digitByte hd, Nat.ofDigits_cons]
    omega

/-- **The digits of a number have its value.** -/
lemma digitsValue_decimal (n : ℕ) : digitsValue (decimal n) = n := by
  rw [decimal]
  split_ifs with h
  · rw [h]
    rfl
  · rw [digitsValue_reverse fun d hd => Nat.digits_lt_base (by omega) hd, Nat.ofDigits_digits]

/-- The digits of a number make a numeral.

**Proof sketch.** The token begins with all digits, as the text behind them begins with none. There
is no exponent or letter behind them that would belong to it, so it ends there. -/
lemma numeralToken_decimal (n : ℕ) {rest : Bytes} (h : EndsToken rest) :
    numeralToken (decimal n ++ rest) = (decimal n, rest) := by
  obtain ⟨hname, hpoint⟩ := h
  have hword : Stops isWordByte rest := hname.mono fun c => isNameByte_of_isWordByte
  have hdigit : Stops isDigitByte rest := hword.mono fun c => isWordByte_of_isDigitByte
  have hstart : Stops (fun c => isDigitByte c ∨ c = '.') rest := by
    intro c hc
    have hc' := hpoint c hc
    simp only [decide_eq_false_iff_not] at hc' ⊢
    rw [hdigit c hc]
    exact not_or.mpr ⟨Bool.false_ne_true, hc'⟩
  have hdigits : ∀ c ∈ decimal n, decide (isDigitByte c = true ∨ c = ('.' : Byte)) = true :=
    fun c hc => decide_eq_true (.inl (isDigitByte_of_mem_decimal hc))
  have hrest : rest.dropWhile isWordByte = rest ∧ rest.takeWhile isWordByte = [] :=
    ⟨dropWhile_append_of_stops (s := []) nofun hword, takeWhile_append_of_stops (s := []) nofun hword⟩
  rw [numeralToken]
  simp only [takeWhile_append_of_stops hdigits hstart, dropWhile_append_of_stops hdigits hstart]
  rcases rest with _ | ⟨c, rest⟩
  · simp
  · have hc : ¬ (c = ('e' : Byte) ∨ c = ('E' : Byte)) := by
      have hw := hword c rfl
      rintro (rfl | rfl)
      · cases hw
      · cases hw
    simp only [if_neg hc, hrest.1, hrest.2, List.append_nil]

/-- The digits of a number are read as the number. -/
lemma luaStr2number_decimal (n : ℕ) : luaStr2number (decimal n) = some (n : ℤ) := by
  have htake : (decimal n ++ []).takeWhile isDigitByte = decimal n :=
    takeWhile_append_of_stops (fun c hc => isDigitByte_of_mem_decimal hc) nofun
  have hdrop : (decimal n ++ []).dropWhile isDigitByte = [] :=
    dropWhile_append_of_stops (fun c hc => isDigitByte_of_mem_decimal hc) nofun
  rw [List.append_nil] at htake hdrop
  rw [luaStr2number, htake, hdrop]
  simp [readExponent, digitsValue_decimal]

/-- **A number is read behind its digits.** -/
lemma readLuaNumber_decimal (n : ℕ) {rest : Bytes} (h : EndsToken rest) :
    readLuaNumber (decimal n ++ rest) = some ((n : ℤ), rest) := by
  obtain ⟨c, s, hs⟩ := List.exists_cons_of_ne_nil (decimal_ne_nil n)
  have hc : isDigitByte c := isDigitByte_of_mem_decimal (hs ▸ List.mem_cons_self)
  have hhead : (decimal n ++ rest).head?.any isDigitByte = true := by
    rw [hs]
    exact hc
  rw [readLuaNumber, if_pos hhead, numeralToken_decimal n h]
  simp only [luaStr2number_decimal]
  rfl

/-! ## Quoted strings -/

/-- The closing quote. -/
lemma readLuaString_quote (del : Byte) (rest : Bytes) :
    readLuaString del (del :: rest) = some ([], rest) := by
  rcases rest with _ | ⟨c, rest⟩
  · exact if_pos rfl
  · exact if_pos rfl

/-- A byte that stands for itself. -/
lemma readLuaString_plain {del c : Byte} (hdel : c ≠ del) (hline : ¬ (c = LF ∨ c = CR))
    (hesc : c ≠ '\\') {s : Bytes} {r : Bytes × Bytes} (h : readLuaString del s = some r) :
    readLuaString del (c :: s) = some (c :: r.1, r.2) := by
  rcases s with _ | ⟨c', s⟩
  · cases h
  · rw [readLuaString, if_neg hdel, if_neg hline, if_neg hesc, h]
    rfl

/-- An escape sequence. -/
lemma readLuaString_escape {del e b : Byte} (hdel : del ≠ '\\') (he : unescape e = some b)
    {s : Bytes} {r : Bytes × Bytes} (h : readLuaString del s = some r) :
    readLuaString del (('\\' : Byte) :: e :: s) = some (b :: r.1, r.2) := by
  rw [readLuaString, if_neg hdel.symm, if_neg (by decide), if_pos rfl, he, h]
  rfl

/-! ## Expressions -/

/-- Space in front of an expression does not count. -/
lemma readLuaExpr_space {space : Bytes} (h : ∀ c ∈ space, isSpaceByte c) (fuel : ℕ) (s : Bytes) :
    readLuaExpr fuel (space ++ s) = readLuaExpr fuel s := by
  cases fuel with
  | zero => rfl
  | succ fuel => rw [readLuaExpr, readLuaExpr, skipSpace_append h]

/-- Space in front of the fields of a table does not count. -/
lemma readLuaFields_space {space : Bytes} (h : ∀ c ∈ space, isSpaceByte c) (fuel : ℕ)
    (fields : LuaFields) (s : Bytes) :
    readLuaFields fuel fields (space ++ s) = readLuaFields fuel fields s := by
  cases fuel with
  | zero => rfl
  | succ fuel => rw [readLuaFields, readLuaFields, skipSpace_append h]

/-- A string in single quotes. -/
lemma readLuaExpr_quoted (fuel : ℕ) {s : Bytes} {r : Bytes × Bytes}
    (h : readLuaString '\'' s = some r) :
    readLuaExpr (fuel + 1) (('\'' : Byte) :: s) = some (.string r.1, r.2) := by
  rw [readLuaExpr, skipSpace_cons (by decide)]
  simp only [h]
  rfl

/-- The digits of a number. -/
lemma readLuaExpr_decimal (fuel n : ℕ) {rest : Bytes} (h : EndsToken rest) :
    readLuaExpr (fuel + 1) (decimal n ++ rest) = some (.number n, rest) := by
  have hread := readLuaNumber_decimal n h
  obtain ⟨c, s, hs⟩ := List.exists_cons_of_ne_nil (decimal_ne_nil n)
  have hc : isDigitByte c := isDigitByte_of_mem_decimal (hs ▸ List.mem_cons_self)
  rw [hs, List.cons_append] at hread ⊢
  have hother : ∀ d : Byte, isDigitByte d = false → c ≠ d := by
    rintro d hd rfl
    rw [hc] at hd
    cases hd
  have hquote : ¬ (c = ('\'' : Byte) ∨ c = doubleQuote) :=
    not_or.mpr ⟨hother _ (by decide), hother _ (by decide)⟩
  rw [readLuaExpr, skipSpace_cons (isSpaceByte_of_isDigitByte hc)]
  simp only [if_neg hquote, if_neg (hother '{' (by decide)), if_neg (hother '-' (by decide)), if_pos hc,
    hread]
  rfl

/-- A minus and the digits of a number. -/
lemma readLuaExpr_minus (fuel n : ℕ) {rest : Bytes} (h : EndsToken rest) :
    readLuaExpr (fuel + 1) (('-' : Byte) :: (decimal n ++ rest)) = some (.number (-n), rest) := by
  have hread := readLuaNumber_decimal n h
  obtain ⟨c, s, hs⟩ := List.exists_cons_of_ne_nil (decimal_ne_nil n)
  have hc : isDigitByte c := isDigitByte_of_mem_decimal (hs ▸ List.mem_cons_self)
  have hskip : skipSpace (decimal n ++ rest) = decimal n ++ rest := by
    rw [hs, List.cons_append, skipSpace_cons (isSpaceByte_of_isDigitByte hc)]
  rw [readLuaExpr, skipSpace_cons (by decide)]
  simp only [hskip, hread]
  rfl

/-- **A number below `10 ^ 14` is read where it has been printed.** -/
lemma readLuaExpr_number2str (fuel : ℕ) {n : ℤ} (hn : n.natAbs < 10 ^ precision) {rest : Bytes}
    (h : EndsToken rest) :
    readLuaExpr (fuel + 1) (luaNumber2str n ++ rest) = some (.number n, rest) := by
  rw [luaNumber2str, printG, if_pos hn]
  split_ifs with hneg
  · have habs : -(n.natAbs : ℤ) = n := by omega
    exact (readLuaExpr_minus fuel n.natAbs h).trans (by rw [habs])
  · have habs : (n.natAbs : ℤ) = n := by omega
    exact (readLuaExpr_decimal fuel n.natAbs h).trans (by rw [habs])

/-- A constant. -/
lemma readLuaExpr_boolean (fuel : ℕ) (b : Bool) {rest : Bytes} (h : EndsToken rest) :
    readLuaExpr (fuel + 1) (bytes (if b then "true" else "false") ++ rest) =
      some (.boolean b, rest) := by
  have hname : ∀ word : Bytes, (∀ c ∈ word, isNameByte c) →
      (word ++ rest).takeWhile isNameByte = word ∧ (word ++ rest).dropWhile isNameByte = rest :=
    fun word hword => ⟨takeWhile_append_of_stops hword h.1, dropWhile_append_of_stops hword h.1⟩
  cases b
  · obtain ⟨htake, hdrop⟩ := hname (bytes "false") (List.all_eq_true.mp rfl)
    have hread : readLuaName (bytes "false" ++ rest) = some (.boolean false, rest) := by
      rw [readLuaName, htake, hdrop]
      rfl
    exact hread
  · obtain ⟨htake, hdrop⟩ := hname (bytes "true") (List.all_eq_true.mp rfl)
    have hread : readLuaName (bytes "true" ++ rest) = some (.boolean true, rest) := by
      rw [readLuaName, htake, hdrop]
      rfl
    exact hread

/-- An opening brace. -/
lemma readLuaExpr_table (fuel : ℕ) (s : Bytes) :
    readLuaExpr (fuel + 1) (('{' : Byte) :: s) = readLuaFields fuel [] s := rfl

end Meowbot
