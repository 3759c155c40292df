import Meowbot.Josa

set_option relaxedAutoImplicit false
set_option autoImplicit false

/-!
# Formatted text (`my_vsprintf.cpp`, `my_vsprintf_core_impl.h`, `etc.cpp`)

`my_vsnprintf` writes a formatted text to a buffer of some size and returns the number of characters
that the whole text would have. `s_vsprintf` calls it with a buffer of 1024 bytes, and if the text
does not fit, once more with a buffer of the returned size.

There is a conversion for particles, `%J{...}`, that looks back at the text in front of it. Behind
the end of the buffer there is no text to look at: the conversion then counts as twelve characters,
and the braces with what is between them as plain text.

The conversions `%f` and `%n` are left out. Integers of type `int` are taken modulo `2 ^ 32`.

## Main definitions

* `Meowbot.parseSpec`, `Meowbot.convert` — a conversion and its text.
* `Meowbot.OutBuf` — a buffer that is written to, of some size or without bound.
* `Meowbot.formatLoop`, `Meowbot.myVsnprintf`, `Meowbot.sVsprintf` — the source.
* `Meowbot.formatText` — the text in a buffer without bound.
* `Meowbot.Follows` — a bounded buffer beside one without bound.

## Main results

* `Meowbot.formatLoop_follows` — what is counted is at least what is written without bound.
* `Meowbot.sVsprintf_eq` — the two passes give the text, if the count is of type `int`.
-/

namespace Meowbot

/-! ## Conversions -/

/-- The flags of a conversion. -/
structure FmtFlags where
  left : Bool
  plus : Bool
  space : Bool
  special : Bool
  zeropad : Bool
  deriving DecidableEq

/-- A width or a precision: none, a number, or the next argument. -/
inductive FmtNum where
  | absent
  | num (n : Int32)
  | star
  deriving DecidableEq

/-- What is between `%` and the letter of a conversion. The precision is absent behind a mere dot,
too. -/
structure RawSpec where
  flags : FmtFlags
  width : FmtNum
  dotflag : Bool
  precision : FmtNum
  qualifier : Option Byte
  deriving DecidableEq

/-- `isdigit` -/
def isDigit (c : Byte) : Bool := ('0' : Byte) ≤ c ∧ c ≤ ('9' : Byte)

/-- The flags at the start of a conversion, in any order and each as often as it likes. -/
def parseFlags (flags : FmtFlags) : Bytes → FmtFlags × Bytes
  | [] => (flags, [])
  | c :: fmt =>
    if c = '-' then parseFlags { flags with left := true } fmt
    else if c = '+' then parseFlags { flags with plus := true } fmt
    else if c = ' ' then parseFlags { flags with space := true } fmt
    else if c = '#' then parseFlags { flags with special := true } fmt
    else if c = '0' then parseFlags { flags with zeropad := true } fmt
    else (flags, c :: fmt)

/-- `skip_atoi` -/
def skipAtoi (i : Int32) : Bytes → Int32 × Bytes
  | [] => (i, [])
  | c :: s => if isDigit c then skipAtoi (i * 10 + Int32.ofNat c.toNat - 48) s else (i, c :: s)

/-- A number, or a star. -/
def parseNum (fmt : Bytes) : FmtNum × Bytes :=
  if isDigit (charAt fmt 0) then
    let r := skipAtoi 0 fmt
    (.num r.1, r.2)
  else if charAt fmt 0 = '*' then (.star, fmt.drop 1)
  else (.absent, fmt)

/-- `qualifier`: `ll` is `L`. -/
def parseQualifier (fmt : Bytes) : Option Byte × Bytes :=
  let c := charAt fmt 0
  if c = 'h' ∨ c = 'l' ∨ c = 'L' ∨ c = 'Z' ∨ c = 'z' then
    if c = 'l' ∧ charAt fmt 1 = 'l' then (some 'L', fmt.drop 2) else (some c, fmt.drop 1)
  else (none, fmt)

/-- What is between `%` and the letter of a conversion, and the format from the letter on. -/
def parseSpec (fmt : Bytes) : RawSpec × Bytes :=
  let (flags, fmt) := parseFlags ⟨false, false, false, false, false⟩ fmt
  let (width, fmt) := parseNum fmt
  let dotflag := charAt fmt 0 = '.'
  let (precision, fmt) := if dotflag then parseNum (fmt.drop 1) else (.absent, fmt)
  let (qualifier, fmt) := parseQualifier fmt
  (⟨flags, width, dotflag, precision, qualifier⟩, fmt)

/-- An argument: an `int`, an integer of 64 bits, a pointer to a C string or to a `std::string`, or
another pointer. -/
inductive FmtArg where
  | int (v : Int32)
  | long (v : UInt64)
  | str (s : Option Bytes)
  | stdString (s : Option Bytes)
  | pointer (v : UInt64)
  deriving DecidableEq

/-- A conversion with its width and precision taken from the arguments where it says so. -/
structure FmtSpec where
  flags : FmtFlags
  fieldWidth : Int32
  precision : Int32
  dotflag : Bool
  qualifier : Option Byte
  deriving DecidableEq

/-- The value of a width or a precision, `-1` if there is none. -/
def FmtNum.value : FmtNum → List FmtArg → Option (Int32 × List FmtArg)
  | .absent, args => some (-1, args)
  | .num n, args => some (n, args)
  | .star, .int v :: args => some (v, args)
  | .star, _ => none

/-- The conversion with its arguments. -/
def RawSpec.resolve (raw : RawSpec) (args : List FmtArg) : Option (FmtSpec × List FmtArg) := do
  let (width, args) ← raw.width.value args
  let (flags, width) := if raw.width = .star ∧ width < 0 then
    ({ raw.flags with left := true }, -width) else (raw.flags, width)
  let (precision, args) ← raw.precision.value args
  some (⟨flags, width, precision, raw.dotflag, raw.qualifier⟩, args)

/-- A precision below zero behind a dot is zero. -/
def FmtSpec.prec (spec : FmtSpec) : Int32 :=
  if spec.dotflag ∧ spec.precision < 0 then 0 else spec.precision

/-! ## Texts of conversions -/

/-- `while (size-- > 0)`: the number of rounds, and `size` behind the loop. -/
def padLoop (size : Int32) : ℕ × Int32 := (size.toInt.toNat, if 0 < size then -1 else size - 1)

/-- The digits of a number, the last one first. -/
def digitsFrom (base : ℕ) : ℕ → ℕ → List ℕ
  | 0, _ => []
  | fuel + 1, num => if num = 0 then [] else num % base :: digitsFrom base fuel (num / base)

/-- `digits[d]`, of `small_digits` or `large_digits`. -/
def digitChar (large : Bool) (d : ℕ) : Byte :=
  if d < 10 then UInt8.ofNat (48 + d) else UInt8.ofNat ((if large then 55 else 87) + d)

/-- `number`: the text of an integer in a base, with its sign, the prefix of the base and the
padding. The width and the precision are of type `int`, and so are the differences between them. -/
def number (num : UInt64) (base : ℕ) (size precision : Int32) (type : FmtFlags)
    (signed large : Bool) : Bytes :=
  let zeropad := type.zeropad && !type.left
  let negative := signed && num.toInt64 < 0
  let num := if negative then -num else num
  let sign : Bytes :=
    if negative then bytes "-"
    else if signed && type.plus then bytes "+"
    else if signed && type.space then bytes " "
    else []
  let size := if sign = [] then size else size - 1
  let size := if type.special then
    if base = 16 then size - 2 else if base = 8 then size - 1 else size else size
  let tmp := if num = 0 then [0] else digitsFrom base 64 num.toNat
  let i := Int32.ofNat tmp.length
  let precision := if i > precision then i else precision
  let size := size - precision
  let (spaces, size) := if !zeropad && !type.left then padLoop size else (0, size)
  let special : Bytes := if type.special then
    if base = 8 then bytes "0" else if base = 16 then ['0', digitChar large 33] else [] else []
  let (fill, size) := if !type.left then padLoop size else (0, size)
  let (behind, _) := padLoop size
  List.replicate spaces (' ' : Byte) ++ sign ++ special ++
    List.replicate fill (if zeropad then ('0' : Byte) else ' ') ++
    List.replicate (precision.toInt - i.toInt).toNat ('0' : Byte) ++
    (tmp.map (digitChar large)).reverse ++
    List.replicate behind (' ' : Byte)

/-- `while (--field_width > 0)`: the number of rounds, and `field_width` behind the loop. -/
def padBefore (fieldWidth : Int32) : ℕ × Int32 :=
  if 0 < fieldWidth - 1 then ((fieldWidth - 1).toInt.toNat, 0) else (0, fieldWidth - 1)

/-- `%c` -/
def convertChar (spec : FmtSpec) (v : Int32) : Bytes :=
  let (before, fieldWidth) := if !spec.flags.left then padBefore spec.fieldWidth
    else (0, spec.fieldWidth)
  List.replicate before (' ' : Byte) ++ [v.toUInt32.toUInt8] ++
    List.replicate (padBefore fieldWidth).1 (' ' : Byte)

/-- `while (len < field_width--)`: the number of rounds, and `field_width` behind the loop. -/
def padTo (len fieldWidth : Int32) : ℕ × Int32 :=
  if len < fieldWidth then ((fieldWidth.toInt - len.toInt).toNat, len - 1) else (0, fieldWidth - 1)

/-- `%s` and `%S` -/
def convertStr (spec : FmtSpec) (s : Option Bytes) : Bytes :=
  let s := cstr (s.getD (bytes "(null)"))
  let len := Int32.ofNat (if spec.prec < 0 then s.length else min s.length spec.prec.toInt.toNat)
  let (before, fieldWidth) := if !spec.flags.left then padTo len spec.fieldWidth
    else (0, spec.fieldWidth)
  List.replicate before (' ' : Byte) ++ s.take len.toInt.toNat ++
    List.replicate (padTo len fieldWidth).1 (' ' : Byte)

/-- The argument of an integer conversion, by its qualifier. One of another size than the qualifier
says has no result, as it is not known what is read there. -/
def integerArg (qualifier : Option Byte) (signed : Bool) :
    List FmtArg → Option (UInt64 × List FmtArg)
  | .long v :: args =>
    if qualifier = some ('L' : Byte) ∨ qualifier = some ('l' : Byte) ∨
        qualifier = some ('Z' : Byte) ∨ qualifier = some ('z' : Byte) then some (v, args)
    else none
  | .int v :: args =>
    if qualifier = some ('h' : Byte) then
      some (if signed then v.toInt16.toInt64.toUInt64 else v.toUInt32.toUInt16.toUInt64, args)
    else if qualifier = none then
      some (if signed then v.toInt64.toUInt64 else v.toUInt32.toUInt64, args)
    else none
  | _ => none

/-- An integer conversion. -/
def convertInteger (spec : FmtSpec) (base : ℕ) (signed large : Bool) (args : List FmtArg) :
    Option (Bytes × List FmtArg) := do
  let (num, args) ← integerArg spec.qualifier signed args
  some (number num base spec.fieldWidth spec.prec spec.flags signed large, args)

/-- The text of a conversion but `%J`, and the arguments that are left. There is none where the
arguments do not match, and for `%f` and `%n`. -/
def convert (spec : FmtSpec) (c : Byte) (args : List FmtArg) : Option (Bytes × List FmtArg) :=
  if c = 'c' then
    match args with
    | .int v :: args => some (convertChar spec v, args)
    | _ => none
  else if c = 's' then
    match args with
    | .str s :: args => some (convertStr spec s, args)
    | _ => none
  else if c = 'S' then
    match args with
    | .stdString s :: args => some (convertStr spec s, args)
    | _ => none
  else if c = 'p' then
    match args with
    | .pointer v :: args =>
      let (fieldWidth, flags) := if spec.fieldWidth = -1 then
        ((16 : Int32), { spec.flags with zeropad := true }) else (spec.fieldWidth, spec.flags)
      some (number v 16 fieldWidth spec.prec flags false false, args)
    | _ => none
  else if c = '%' then some (bytes "%", args)
  else if c = 'o' then convertInteger spec 8 false false args
  else if c = 'X' then convertInteger spec 16 false true args
  else if c = 'x' then convertInteger spec 16 false false args
  else if c = 'd' ∨ c = 'i' then convertInteger spec 10 true false args
  else if c = 'u' then convertInteger spec 10 false false args
  else if c = 'f' ∨ c = 'n' then none
  else some (['%', c], args)

/-! ## The buffer -/

/-- A buffer: the bytes in it from its start, and the place to write to, which may lie behind it. -/
structure OutBuf where
  mem : Bytes
  pos : ℕ
  deriving DecidableEq

namespace OutBuf

/-- Nothing is written yet. -/
def empty : OutBuf := ⟨[], 0⟩

/-- The place lies in a buffer of some size, or in one without bound. -/
def InRoom (size : Option ℕ) (b : OutBuf) : Prop := ∀ n ∈ size, b.pos < n

instance (size : Option ℕ) (b : OutBuf) : Decidable (b.InRoom size) :=
  inferInstanceAs (Decidable (∀ n ∈ size, b.pos < n))

/-- `if (str <= end) *str = c; ++str;` -/
def putChar (size : Option ℕ) (b : OutBuf) (c : Byte) : OutBuf :=
  { mem := if b.InRoom size then b.mem ++ [c] else b.mem, pos := b.pos + 1 }

/-- A text is written. -/
def put (size : Option ℕ) (b : OutBuf) (s : Bytes) : OutBuf := s.foldl (putChar size) b

end OutBuf

/-! ## The loop -/

/-- A piece of a format: a character, a conversion with its letter, or a conversion at the end. -/
inductive Directive where
  | char (c : Byte)
  | conv (raw : RawSpec) (c : Byte)
  | last (raw : RawSpec)
  deriving DecidableEq

/-- The first piece of a format that is not empty, and what is behind it. -/
def directive (c : Byte) (fmt : Bytes) : Directive × Bytes :=
  if c ≠ '%' then (.char c, fmt)
  else
    match parseSpec fmt with
    | (raw, []) => (.last raw, [])
    | (raw, conv :: rest) => (.conv raw conv, rest)

/-- The braces behind `%J`: `josalen`, the text from behind the first brace on, and the format
behind the braces. There are none if `josalen` is zero. -/
def josaBraces (fmt : Bytes) : Option (ℤ × Bytes × Bytes) :=
  match fmt with
  | [] => none
  | c :: t =>
    if c ≠ '{' ∨ ('}' : Byte) ∉ t then none
    else
      let josa := t.takeWhile (· ≠ ('}' : Byte))
      let josalen := (Int32.ofNat josa.length).toInt
      if josalen = 0 then none else some (josalen, josa, t.drop (josa.length + 1))

/-- The particle of `%J`, for the text that is in the buffer so far. Without room only its place is
counted, as twelve characters, and the braces come next as text of the format. -/
def josaStep (size : Option ℕ) (fmt : Bytes) (b : OutBuf) : Option (Bytes × OutBuf) :=
  if ¬b.InRoom size then some (fmt, { b with pos := b.pos + 12 })
  else
    match josaBraces fmt with
    | none => some (fmt, b)
    | some (josalen, josa, rest) =>
      -- a length below zero is one of more than the longest string
      if josalen < 0 then none
      else (selectJosa (cstr b.mem) (josa.take josalen.toNat)).map fun josares =>
        (rest, b.put size josares)

/-- One round of the loop: what is left of the format and of the arguments, and the buffer. A
character is copied, a conversion is written with its arguments, and a particle is chosen by the
text in front of it. -/
def formatStep (size : Option ℕ) (c : Byte) (fmt : Bytes) (args : List FmtArg) (b : OutBuf) :
    Option (Bytes × List FmtArg × OutBuf) :=
  match directive c fmt with
  | (.char c, rest) => some (rest, args, b.put size [c])
  | (.last raw, rest) => (raw.resolve args).map fun r => (rest, r.2, b.put size (bytes "%"))
  | (.conv raw conv, rest) =>
    (raw.resolve args).bind fun (spec, args) =>
      if conv = 'J' then (josaStep size rest b).map fun r => (r.1, args, r.2)
      else (convert spec conv args).map fun r => (rest, r.2, b.put size r.1)

/-! ## The format gets shorter -/

/-- What is behind the flags is not longer. -/
lemma length_parseFlags_le (flags : FmtFlags) (fmt : Bytes) :
    (parseFlags flags fmt).2.length ≤ fmt.length := by
  induction fmt generalizing flags with
  | nil => exact le_rfl
  | cons c fmt ih =>
    rw [parseFlags]
    have hle := fun flags => (ih flags).trans (Nat.le_succ fmt.length)
    split_ifs
    · exact hle _
    · exact hle _
    · exact hle _
    · exact hle _
    · exact hle _
    · exact le_rfl

/-- What is behind a number is not longer. -/
lemma length_skipAtoi_le (i : Int32) (s : Bytes) : (skipAtoi i s).2.length ≤ s.length := by
  induction s generalizing i with
  | nil => exact le_rfl
  | cons c s ih =>
    rw [skipAtoi]
    split_ifs
    · exact (ih _).trans (Nat.le_succ s.length)
    · exact le_rfl

/-- What is behind a width or a precision is not longer. -/
lemma length_parseNum_le (fmt : Bytes) : (parseNum fmt).2.length ≤ fmt.length := by
  rw [parseNum]
  split_ifs
  · exact length_skipAtoi_le 0 fmt
  · simp
  · exact le_rfl

/-- What is behind a qualifier is not longer. -/
lemma length_parseQualifier_le (fmt : Bytes) : (parseQualifier fmt).2.length ≤ fmt.length := by
  rw [parseQualifier]
  split_ifs
  · simp
  · simp
  · exact le_rfl

/-- The letter of a conversion is in the format. -/
lemma length_parseSpec_le (fmt : Bytes) : (parseSpec fmt).2.length ≤ fmt.length := by
  have h1 := length_parseFlags_le ⟨false, false, false, false, false⟩ fmt
  have h2 := length_parseNum_le (parseFlags ⟨false, false, false, false, false⟩ fmt).2
  simp only [parseSpec]
  refine (length_parseQualifier_le _).trans ?_
  split_ifs
  · refine (length_parseNum_le _).trans ?_
    rw [List.length_drop]
    omega
  · exact h2.trans h1

/-- What is behind a piece is shorter than the format. -/
lemma length_directive_le (c : Byte) (fmt : Bytes) : (directive c fmt).2.length ≤ fmt.length := by
  have hspec := length_parseSpec_le fmt
  rw [directive]
  split_ifs
  · exact le_rfl
  · split
    · exact Nat.zero_le _
    · rename_i heq
      rw [heq] at hspec
      exact (Nat.le_succ _).trans hspec

/-- The braces and what is between them.

**Proof sketch.** The format begins with a brace, and what is taken up to the first closing one is
the particle. -/
lemma josaBraces_eq_some {fmt josa rest : Bytes} {josalen : ℤ}
    (h : josaBraces fmt = some (josalen, josa, rest)) :
    fmt = ('{' : Byte) :: (josa ++ ('}' : Byte) :: rest) ∧
      josalen = (Int32.ofNat josa.length).toInt := by
  cases fmt with
  | nil => cases h
  | cons c t =>
    rw [josaBraces] at h
    by_cases hbrace : c ≠ '{' ∨ ('}' : Byte) ∉ t
    · rw [if_pos hbrace] at h
      cases h
    rw [if_neg hbrace] at h
    push Not at hbrace
    obtain ⟨rfl, hmem⟩ := hbrace
    obtain ⟨l, r, rfl, hl⟩ := List.eq_append_cons_of_mem hmem
    have htake : (l ++ ('}' : Byte) :: r).takeWhile (· ≠ ('}' : Byte)) = l := by
      rw [List.takeWhile_append_of_pos]
      · simp
      · intro x hx
        simp only [ne_eq, decide_not, Bool.not_eq_true', decide_eq_false_iff_not]
        rintro rfl
        exact hl hx
    simp only [htake, List.drop_length_add_append] at h
    split_ifs at h
    simp only [Option.some.injEq, Prod.mk.injEq] at h
    obtain ⟨rfl, rfl, rfl⟩ := h
    exact ⟨rfl, rfl⟩

/-- What is behind the braces is shorter. -/
lemma length_josaBraces_le {fmt josa rest : Bytes} {josalen : ℤ}
    (h : josaBraces fmt = some (josalen, josa, rest)) : rest.length ≤ fmt.length := by
  rw [(josaBraces_eq_some h).1, List.length_cons, List.length_append, List.length_cons]
  omega

/-- What is behind a particle is not longer.

**Proof sketch.** By cases along the function: the rest is the format itself, or what is behind the
braces. -/
lemma length_josaStep_le {size : Option ℕ} {fmt rest : Bytes} {b b' : OutBuf}
    (h : josaStep size fmt b = some (rest, b')) : rest.length ≤ fmt.length := by
  rw [josaStep] at h
  by_cases hroom : ¬b.InRoom size
  · rw [if_pos hroom] at h
    rw [(Prod.mk.inj (Option.some.inj h)).1]
  rw [if_neg hroom] at h
  cases hbraces : josaBraces fmt with
  | none =>
    rw [hbraces] at h
    rw [(Prod.mk.inj (Option.some.inj h)).1]
  | some r =>
    rw [hbraces] at h
    by_cases hneg : r.1 < 0
    · simp only [if_pos hneg] at h
      cases h
    simp only [if_neg hneg] at h
    obtain ⟨josares, -, hr⟩ := Option.map_eq_some_iff.mp h
    rw [← (Prod.mk.inj hr).1]
    exact length_josaBraces_le hbraces

/-- A round of the loop makes the format shorter.

**Proof sketch.** By cases on the piece: the rest is that of the directive, or what is left behind a
particle. -/
lemma length_formatStep_le {size : Option ℕ} {c : Byte} {fmt fmt' : Bytes}
    {args args' : List FmtArg} {b b' : OutBuf}
    (h : formatStep size c fmt args b = some (fmt', args', b')) : fmt'.length ≤ fmt.length := by
  have hle := length_directive_le c fmt
  rw [formatStep] at h
  split at h
  · rename_i heq
    rw [heq] at hle
    rwa [← (Prod.mk.inj (Option.some.inj h)).1]
  · rename_i heq
    rw [heq] at hle
    obtain ⟨r, -, hr⟩ := Option.map_eq_some_iff.mp h
    rwa [← (Prod.mk.inj hr).1]
  · rename_i raw conv rest heq
    rw [heq] at hle
    obtain ⟨⟨spec, args1⟩, -, h⟩ := Option.bind_eq_some_iff.mp h
    dsimp only at h
    by_cases hJ : conv = 'J'
    · rw [if_pos hJ] at h
      obtain ⟨r, hstep, hr⟩ := Option.map_eq_some_iff.mp h
      rw [← (Prod.mk.inj hr).1]
      exact (length_josaStep_le hstep).trans hle
    · rw [if_neg hJ] at h
      obtain ⟨r, -, hr⟩ := Option.map_eq_some_iff.mp h
      rwa [← (Prod.mk.inj hr).1]

/-! ## The two passes -/

/-- The loop of `my_vsnprintf`. Each round makes the format shorter, and it goes on behind the end
of the buffer too, where it only counts. -/
def formatLoop (size : Option ℕ) : Bytes → List FmtArg → OutBuf → Option OutBuf
  | [], _, b => some b
  | c :: fmt, args, b =>
    match _h : formatStep size c fmt args b with
    | none => none
    | some (fmt', args', b') => formatLoop size fmt' args' b'
termination_by fmt => fmt.length
decreasing_by
  have := length_formatStep_le _h
  rw [List.length_cons]
  omega

/-- The text in a buffer without bound. -/
def formatText (fmt : Bytes) (args : List FmtArg) : Option Bytes :=
  (formatLoop none (cstr fmt) args .empty).map OutBuf.mem

/-- What `my_vsnprintf` counts with a buffer of some size: `str - buf` at its end. -/
def vsnprintfCount (size : ℕ) (fmt : Bytes) (args : List FmtArg) : Option ℕ :=
  (formatLoop (some size) (cstr fmt) args .empty).map OutBuf.pos

/-- `my_vsnprintf`: the result, and what is in the buffer. -/
def myVsnprintf (size : ℕ) (fmt : Bytes) (args : List FmtArg) : Option (ℤ × Bytes) :=
  if (Int32.ofNat size).toInt < 0 then some (0, [])
  else
    (formatLoop (some size) (cstr fmt) args .empty).map fun b =>
      ((Int32.ofNat b.pos).toInt,
        if b.pos < size then b.mem ++ [0] else if 0 < size then b.mem.take (size - 1) ++ [0]
        else [])

/-- `dest->assign(buf, len)`. It reads what has been written. -/
def assignFrom (buf : Bytes) (len : ℤ) : Option Bytes :=
  if 0 ≤ len ∧ len ≤ buf.length then some (buf.take len.toNat) else none

/-- `s_vsprintf`, with the arguments read from their start in either pass. It has no result if the
assertion fails, or if the size of the second buffer is not of type `int`. -/
def sVsprintf (fmt : Bytes) (args : List FmtArg) : Option Bytes := do
  let (len, buf) ← myVsnprintf 1024 fmt args
  if len < 0 then none
  else if len ≥ 1024 then
    if len + 1 > int32Max then none
    else do
      let (len2, buf2) ← myVsnprintf (len + 1).toNat fmt args
      assignFrom buf2 len2
  else assignFrom buf len

/-! ## Writing -/

namespace OutBuf

variable {size : Option ℕ} {n : ℕ} {b : OutBuf}

/-- One text after the other. -/
lemma put_append (size : Option ℕ) (b : OutBuf) (s t : Bytes) :
    b.put size (s ++ t) = (b.put size s).put size t :=
  List.foldl_append

/-- Every byte counts. -/
@[simp]
lemma pos_put (size : Option ℕ) (b : OutBuf) (s : Bytes) :
    (b.put size s).pos = b.pos + s.length := by
  induction s generalizing b with
  | nil => rfl
  | cons c s ih =>
    rw [put, List.foldl_cons, ← put, ih, List.length_cons, putChar]
    dsimp only
    omega

/-- There is room everywhere without bound. -/
lemma inRoom_none (b : OutBuf) : b.InRoom none := nofun

/-- There is room in front of the end. -/
lemma inRoom_some_iff : b.InRoom (some n) ↔ b.pos < n := by
  rw [InRoom]
  simp

/-- What is written without bound. -/
@[simp]
lemma mem_put_none (b : OutBuf) (s : Bytes) : (b.put none s).mem = b.mem ++ s := by
  induction s generalizing b with
  | nil => exact (List.append_nil b.mem).symm
  | cons c s ih =>
    rw [put, List.foldl_cons, ← put, ih, putChar, if_pos (inRoom_none b), List.append_assoc]
    rfl

/-- What is written to a buffer of some size.

**Proof sketch.** By induction on what is written: as long as there is room a byte is stored, and
behind that only the position moves on. -/
lemma mem_put_some (b : OutBuf) (s : Bytes) :
    (b.put (some n) s).mem = b.mem ++ s.take (n - b.pos) := by
  induction s generalizing b with
  | nil => simp [put]
  | cons c s ih =>
    rw [put, List.foldl_cons, ← put, ih, putChar]
    by_cases hroom : b.InRoom (some n)
    · have hlt := inRoom_some_iff.mp hroom
      obtain ⟨k, hk⟩ : ∃ k, n - b.pos = k + 1 := ⟨n - b.pos - 1, by omega⟩
      rw [if_pos hroom, hk, List.take_succ_cons, List.append_assoc]
      have : n - (b.pos + 1) = k := by omega
      rw [this]
      rfl
    · have hle := inRoom_some_iff.not.mp hroom
      have h0 : n - b.pos = 0 := by omega
      have h1 : n - (b.pos + 1) = 0 := by omega
      rw [if_neg hroom, h0, h1]
      rfl

end OutBuf

/-- A buffer of size `n` beside one without bound: it has the start of the text, and both places are
the same until the text has left the buffer. -/
structure Follows (n : ℕ) (U B : OutBuf) : Prop where
  mem_eq : B.mem = U.mem.take n
  length_mem : U.mem.length = U.pos
  pos_le : U.pos ≤ B.pos
  pos_eq_or : B.pos = U.pos ∨ n ≤ U.pos

namespace Follows

variable {n : ℕ} {U B : OutBuf}

/-- At the start. -/
lemma empty (n : ℕ) : Follows n .empty .empty := ⟨by simp [OutBuf.empty], rfl, le_rfl, .inl rfl⟩

/-- Behind its end, a buffer keeps its bytes, and may count more. -/
lemma behind (h : Follows n U B) (hn : n ≤ U.pos) {s : Bytes} {B' : OutBuf} (hmem : B'.mem = B.mem)
    (hpos : U.pos + s.length ≤ B'.pos) : Follows n (U.put none s) B' where
  mem_eq := by
    rw [hmem, h.mem_eq, OutBuf.mem_put_none, List.take_append_of_le_length]
    rwa [h.length_mem]
  length_mem := by rw [OutBuf.mem_put_none, List.length_append, h.length_mem, OutBuf.pos_put]
  pos_le := by rwa [OutBuf.pos_put]
  pos_eq_or := .inr (by
    rw [OutBuf.pos_put]
    omega)

/-- The same text is written to both buffers. -/
lemma put (h : Follows n U B) (s : Bytes) : Follows n (U.put none s) (B.put (some n) s) := by
  rcases h.pos_eq_or with heq | hn
  · refine ⟨?_, ?_, ?_, .inl ?_⟩
    · rw [OutBuf.mem_put_some, OutBuf.mem_put_none, h.mem_eq, heq, List.take_append, h.length_mem]
    · rw [OutBuf.mem_put_none, List.length_append, h.length_mem, OutBuf.pos_put]
    · rw [OutBuf.pos_put, OutBuf.pos_put, heq]
    · rw [OutBuf.pos_put, OutBuf.pos_put, heq]
  · have hle := h.pos_le
    apply h.behind hn
    · have h0 : n - B.pos = 0 := by omega
      rw [OutBuf.mem_put_some, h0, List.take_zero, List.append_nil]
    · rw [OutBuf.pos_put]
      omega

/-- Where there is room, the buffers are the same. -/
lemma eq_of_inRoom (h : Follows n U B) (hroom : B.InRoom (some n)) : B = U := by
  have hlt := OutBuf.inRoom_some_iff.mp hroom
  have hle := h.pos_le
  have heq : B.pos = U.pos := h.pos_eq_or.resolve_right (by omega)
  have hmem : B.mem = U.mem := by
    rw [h.mem_eq, List.take_of_length_le]
    rw [h.length_mem]
    omega
  cases B
  cases U
  simp_all

/-- Where there is no room, the text has left the buffer. -/
lemma le_of_not_inRoom (h : Follows n U B) (hroom : ¬B.InRoom (some n)) : n ≤ U.pos := by
  have hle := OutBuf.inRoom_some_iff.not.mp hroom
  rcases h.pos_eq_or with heq | hn
  · omega
  · exact hn

end Follows

/-! ## The loop with and without bound -/

/-- No braces of a `%J` have a `%` between them. Behind the end of the buffer they are text of the
format, so a conversion in them would take an argument there, and not with room. -/
inductive PlainBraces : Bytes → Prop where
  | nil : PlainBraces []
  | other {c : Byte} {fmt rest : Bytes} {d : Directive} (hd : directive c fmt = (d, rest))
      (hJ : ∀ raw, d ≠ .conv raw 'J') (hrest : PlainBraces rest) : PlainBraces (c :: fmt)
  | bare {c : Byte} {fmt rest : Bytes} {raw : RawSpec}
      (hd : directive c fmt = (.conv raw 'J', rest)) (hbraces : josaBraces rest = none)
      (hrest : PlainBraces rest) : PlainBraces (c :: fmt)
  | braces {c : Byte} {fmt rest josa rest' : Bytes} {raw : RawSpec} {josalen : ℤ}
      (hd : directive c fmt = (.conv raw 'J', rest))
      (hbraces : josaBraces rest = some (josalen, josa, rest')) (hplain : ('%' : Byte) ∉ josa)
      (hrest : PlainBraces rest') : PlainBraces (c :: fmt)

/-- A text without `%` in front. -/
lemma PlainBraces.text {fmt s : Bytes} (h : PlainBraces fmt) (hs : ('%' : Byte) ∉ s) :
    PlainBraces (s ++ fmt) := by
  induction s with
  | nil => exact h
  | cons c s ih =>
    rw [List.mem_cons, not_or] at hs
    obtain ⟨hc, hs⟩ := hs
    have hd : directive c (s ++ fmt) = (.char c, s ++ fmt) := by rw [directive, if_pos (Ne.symm hc)]
    exact .other hd (by simp) (ih hs)

/-- A round of the loop, and what the loop gives behind it. -/
lemma formatLoop_cons_eq_some {size : Option ℕ} {c : Byte} {fmt : Bytes} {args : List FmtArg}
    {b b' : OutBuf} : formatLoop size (c :: fmt) args b = some b' ↔
      ∃ fmt' args' b1, formatStep size c fmt args b = some (fmt', args', b1) ∧
        formatLoop size fmt' args' b1 = some b' := by
  rw [formatLoop]
  split
  · rename_i hstep
    simp [hstep]
  · rename_i fmt' args' b1 hstep
    simp [hstep]

/-- Characters but `%` are copied.

**Proof sketch.** By induction on the characters, each of which takes one round of the loop. -/
lemma formatLoop_append {s : Bytes} (hs : ('%' : Byte) ∉ s) (size : Option ℕ) (fmt : Bytes)
    (args : List FmtArg) (b : OutBuf) :
    formatLoop size (s ++ fmt) args b = formatLoop size fmt args (b.put size s) := by
  induction s generalizing b with
  | nil => rfl
  | cons c s ih =>
    rw [List.mem_cons, not_or] at hs
    obtain ⟨hc, hs⟩ := hs
    have hstep : formatStep size c (s ++ fmt) args b = some (s ++ fmt, args, b.put size [c]) := by
      rw [formatStep, directive, if_pos (Ne.symm hc)]
    ext b'
    rw [List.cons_append, formatLoop_cons_eq_some]
    simp only [hstep, Option.some.injEq, Prod.mk.injEq]
    constructor
    · rintro ⟨_, _, _, ⟨rfl, rfl, rfl⟩, hloop⟩
      rwa [ih hs] at hloop
    · intro hloop
      exact ⟨_, _, _, ⟨rfl, rfl, rfl⟩, by rwa [ih hs]⟩

/-- Every piece but a particle has one text, whatever the buffer.

**Proof sketch.** By cases on the piece: a character, a last `%`, or a conversion, whose arguments
are taken before anything is written. -/
lemma formatStep_eq_put {c : Byte} {fmt rest : Bytes} {d : Directive}
    (hd : directive c fmt = (d, rest)) (hJ : ∀ raw, d ≠ .conv raw 'J') (args : List FmtArg) :
    ∃ r : Option (Bytes × List FmtArg), ∀ size b,
      formatStep size c fmt args b = r.map fun r => (rest, r.2, b.put size r.1) := by
  cases d with
  | char c' =>
    refine ⟨some ([c'], args), fun size b => ?_⟩
    rw [formatStep, hd]
    rfl
  | last raw =>
    refine ⟨(raw.resolve args).map fun r => (bytes "%", r.2), fun size b => ?_⟩
    rw [formatStep, hd, Option.map_map]
    rfl
  | conv raw conv =>
    have hconv : conv ≠ 'J' := fun h => hJ raw (by rw [h])
    refine ⟨(raw.resolve args).bind fun (spec, args) => convert spec conv args, fun size b => ?_⟩
    rw [formatStep, hd]
    dsimp only
    cases raw.resolve args with
    | none => rfl
    | some r => exact if_neg hconv

/-- A particle. -/
lemma formatStep_josa {c : Byte} {fmt rest : Bytes} {raw : RawSpec}
    (hd : directive c fmt = (.conv raw 'J', rest)) (size : Option ℕ) (args : List FmtArg)
    (b : OutBuf) : formatStep size c fmt args b =
      (raw.resolve args).bind fun r => (josaStep size rest b).map fun q => (q.1, r.2, q.2) := by
  rw [formatStep, hd]
  rfl

/-- A particle beside the one without bound. Behind the end, the twelve characters and the braces
are not less than the particle.

**Proof sketch.** If the buffer has room both passes write the same particle. If it has none the
bounded one counts twelve characters, and the braces as they are come next, so that together it has
counted at least as much as a particle takes. -/
lemma josaStep_follows {n : ℕ} {fmt rest : Bytes} {U B U' : OutBuf} (hf : Follows n U B)
    (h : josaStep none fmt U = some (rest, U')) :
    (josaBraces fmt = none ∧ rest = fmt ∧
      ∃ B', josaStep (some n) fmt B = some (fmt, B') ∧ Follows n U' B') ∨
    ∃ josalen josa, josaBraces fmt = some (josalen, josa, rest) ∧
      ((∃ B', josaStep (some n) fmt B = some (rest, B') ∧ Follows n U' B') ∨
        ∃ B', josaStep (some n) fmt B = some (fmt, B') ∧
          Follows n U' (B'.put (some n) (('{' : Byte) :: (josa ++ [('}' : Byte)])))) := by
  rw [josaStep, if_neg (not_not.mpr (OutBuf.inRoom_none U))] at h
  cases hbraces : josaBraces fmt with
  | none =>
    rw [hbraces] at h
    obtain ⟨rfl, rfl⟩ := Prod.mk.inj (Option.some.inj h)
    refine .inl ⟨rfl, rfl, ?_⟩
    by_cases hroom : B.InRoom (some n)
    · exact ⟨B, by rw [josaStep, if_neg (not_not.mpr hroom), hbraces], hf⟩
    · have hn := hf.le_of_not_inRoom hroom
      have hle := hf.pos_le
      refine ⟨{ B with pos := B.pos + 12 }, by rw [josaStep, if_pos hroom], ?_⟩
      exact hf.behind (s := []) hn rfl (by simp only [List.length_nil]; omega)
  | some r =>
    obtain ⟨josalen, josa, rest'⟩ := r
    rw [hbraces] at h
    by_cases hneg : josalen < 0
    · simp only [if_pos hneg] at h
      cases h
    simp only [if_neg hneg] at h
    obtain ⟨josares, hselect, hr⟩ := Option.map_eq_some_iff.mp h
    obtain ⟨rfl, rfl⟩ := Prod.mk.inj hr
    refine .inr ⟨josalen, josa, rfl, ?_⟩
    by_cases hroom : B.InRoom (some n)
    · have hBU := hf.eq_of_inRoom hroom
      left
      refine ⟨B.put (some n) josares, ?_, hf.put josares⟩
      rw [josaStep, if_neg (not_not.mpr hroom), hbraces]
      simp only [if_neg hneg, hBU, hselect, Option.map_some]
    · right
      have hn := hf.le_of_not_inRoom hroom
      have hle := hf.pos_le
      have hpos := OutBuf.inRoom_some_iff.not.mp hroom
      have hlen := length_selectJosa_le hselect
      have htake : (josa.take josalen.toNat).length ≤ josa.length := List.length_take_le' _ _
      refine ⟨{ B with pos := B.pos + 12 }, by rw [josaStep, if_pos hroom], ?_⟩
      apply hf.behind hn
      · have h0 : n - (B.pos + 12) = 0 := by omega
        rw [OutBuf.mem_put_some, h0, List.take_zero, List.append_nil]
      · simp only [OutBuf.pos_put, List.length_cons, List.length_append, List.length_nil]
        omega

/-- **What is counted is at least what is written without bound**, and the buffer has the start of
that.

**Proof sketch.** By induction on the format. A piece that is no particle writes the same text to
both. A particle finds the same text in front of it while there is room, and the same braces behind
it. Where there is none, twelve is added for it and its braces are copied: together that is fourteen
more than the forms between them, and a particle has at most two more. -/
theorem formatLoop_follows {n : ℕ} {fmt : Bytes} (hplain : PlainBraces fmt) {args : List FmtArg}
    {U B U' : OutBuf} (hf : Follows n U B) (h : formatLoop none fmt args U = some U') :
    ∃ B', formatLoop (some n) fmt args B = some B' ∧ Follows n U' B' := by
  induction hplain generalizing args U B with
  | nil =>
    rw [formatLoop] at h
    refine ⟨B, by rw [formatLoop], ?_⟩
    rwa [← Option.some.inj h]
  | @other c fmt rest d hd hJ hrest ih =>
    obtain ⟨fmt', args', U1, hstep, hloop⟩ := formatLoop_cons_eq_some.mp h
    obtain ⟨r, hr⟩ := formatStep_eq_put hd hJ args
    rw [hr] at hstep
    obtain ⟨⟨text, args1⟩, rfl, heq⟩ := Option.map_eq_some_iff.mp hstep
    simp only [Prod.mk.injEq] at heq
    obtain ⟨rfl, rfl, rfl⟩ := heq
    obtain ⟨B', hB', hf'⟩ := ih (hf.put text) hloop
    exact ⟨B', formatLoop_cons_eq_some.mpr ⟨_, _, _, hr (some n) B, hB'⟩, hf'⟩
  | @bare c fmt rest raw hd hbraces hrest ih =>
    obtain ⟨fmt', args', U1, hstep, hloop⟩ := formatLoop_cons_eq_some.mp h
    rw [formatStep_josa hd] at hstep
    obtain ⟨r, hresolve, hstep⟩ := Option.bind_eq_some_iff.mp hstep
    obtain ⟨⟨fmt1, U2⟩, hjosa, heq⟩ := Option.map_eq_some_iff.mp hstep
    simp only [Prod.mk.injEq] at heq
    obtain ⟨rfl, rfl, rfl⟩ := heq
    rcases josaStep_follows hf hjosa with ⟨-, rfl, B1, hB1, hf1⟩ | ⟨josalen, josa, hsome, -⟩
    · obtain ⟨B', hB', hf'⟩ := ih hf1 hloop
      refine ⟨B', formatLoop_cons_eq_some.mpr ⟨_, _, _, ?_, hB'⟩, hf'⟩
      rw [formatStep_josa hd, hresolve, Option.bind_some, hB1, Option.map_some]
    · rw [hbraces] at hsome
      cases hsome
  | @braces c fmt rest josa rest' raw josalen hd hbraces hplain hrest ih =>
    obtain ⟨fmt', args', U1, hstep, hloop⟩ := formatLoop_cons_eq_some.mp h
    rw [formatStep_josa hd] at hstep
    obtain ⟨r, hresolve, hstep⟩ := Option.bind_eq_some_iff.mp hstep
    obtain ⟨⟨fmt1, U2⟩, hjosa, heq⟩ := Option.map_eq_some_iff.mp hstep
    simp only [Prod.mk.injEq] at heq
    obtain ⟨rfl, rfl, rfl⟩ := heq
    rcases josaStep_follows hf hjosa with ⟨hnone, -⟩ | ⟨josalen', josa', hsome, hcase⟩
    · rw [hbraces] at hnone
      cases hnone
    rw [hbraces] at hsome
    simp only [Option.some.injEq, Prod.mk.injEq] at hsome
    obtain ⟨rfl, rfl, rfl⟩ := hsome
    rcases hcase with ⟨B1, hB1, hf1⟩ | ⟨B1, hB1, hf1⟩
    · obtain ⟨B', hB', hf'⟩ := ih hf1 hloop
      refine ⟨B', formatLoop_cons_eq_some.mpr ⟨_, _, _, ?_, hB'⟩, hf'⟩
      rw [formatStep_josa hd, hresolve, Option.bind_some, hB1, Option.map_some]
    · obtain ⟨B', hB', hf'⟩ := ih hf1 hloop
      refine ⟨B', formatLoop_cons_eq_some.mpr ⟨rest, r.2, B1, ?_, ?_⟩, hf'⟩
      · rw [formatStep_josa hd, hresolve, Option.bind_some, hB1, Option.map_some]
      · -- the braces are copied, and the loop goes on behind them
        have hcopied : ('%' : Byte) ∉ ('{' : Byte) :: (josa ++ [('}' : Byte)]) := by
          simp only [List.mem_cons, List.mem_append, List.not_mem_nil, or_false, not_or]
          exact ⟨by decide, hplain, by decide⟩
        have hrest : rest = (('{' : Byte) :: (josa ++ [('}' : Byte)])) ++ rest' := by
          rw [(josaBraces_eq_some hbraces).1]
          simp
        rw [hrest, formatLoop_append hcopied]
        exact hB'

/-! ## The result -/

/-- What a pass returns. -/
lemma myVsnprintf_eq {size : ℕ} {fmt : Bytes} {args : List FmtArg} {B : OutBuf}
    (hsize : size ≤ int32Max) (hB : formatLoop (some size) (cstr fmt) args .empty = some B) :
    myVsnprintf size fmt args = some ((Int32.ofNat B.pos).toInt,
      if B.pos < size then B.mem ++ [0] else if 0 < size then B.mem.take (size - 1) ++ [0]
      else []) := by
  have hnonneg : ¬(Int32.ofNat size).toInt < 0 := by
    rw [int32Max] at hsize
    rw [Int32.toInt_ofNat_of_lt (by omega)]
    omega
  rw [myVsnprintf, if_neg hnonneg, hB]
  rfl

/-- A text with a NUL behind it is taken as a whole. -/
lemma assignFrom_append_nul (text : Bytes) : assignFrom (text ++ [0]) text.length = some text := by
  rw [assignFrom, if_pos]
  · simp
  · rw [List.length_append]
    omega

/-- A buffer with room for the whole text has it. -/
lemma Follows.eq_of_pos_lt {n : ℕ} {U B : OutBuf} (hf : Follows n U B) (h : U.pos < n) :
    B.pos = U.mem.length ∧ B.mem = U.mem := by
  refine ⟨?_, ?_⟩
  · rw [hf.length_mem]
    exact hf.pos_eq_or.resolve_right (by omega)
  · rw [hf.mem_eq, List.take_of_length_le]
    rw [hf.length_mem]
    omega

/-- A pass with room for the whole text gives it. -/
lemma assignFrom_myVsnprintf {size : ℕ} {fmt : Bytes} {args : List FmtArg} {U B : OutBuf}
    (hsize : size ≤ int32Max) (hB : formatLoop (some size) (cstr fmt) args .empty = some B)
    (hf : Follows size U B) (hroom : U.pos < size) :
    ∃ buf, myVsnprintf size fmt args = some ((U.mem.length : ℤ), buf) ∧
      assignFrom buf U.mem.length = some U.mem := by
  obtain ⟨hpos, hmem⟩ := hf.eq_of_pos_lt hroom
  rw [← hf.length_mem] at hroom
  refine ⟨U.mem ++ [0], ?_, assignFrom_append_nul U.mem⟩
  rw [int32Max] at hsize
  rw [myVsnprintf_eq hsize hB, hpos, hmem, if_pos hroom, Int32.toInt_ofNat_of_lt (by omega)]

/-- **The two passes give the text** that the conversions have without bound, if what the first pass
counts is below the largest number of type `int`.

**Proof sketch.** The first pass counts at least as many characters as the text has
(`formatLoop_follows`). If it has room for them it has written the text; otherwise the second pass
gets a buffer that has. -/
theorem sVsprintf_eq {fmt : Bytes} {args : List FmtArg} {text : Bytes}
    (hplain : PlainBraces (cstr fmt)) (htext : formatText fmt args = some text)
    (hint : ∀ n ∈ vsnprintfCount 1024 fmt args, n < int32Max) :
    ∃ len buf, myVsnprintf 1024 fmt args = some (len, buf) ∧ (text.length : ℤ) ≤ len ∧
      sVsprintf fmt args = some text := by
  obtain ⟨U, hU, rfl⟩ := Option.map_eq_some_iff.mp htext
  obtain ⟨B, hB, hf⟩ := formatLoop_follows hplain (Follows.empty 1024) hU
  have hcount : B.pos < int32Max := hint B.pos (by rw [vsnprintfCount, hB]; rfl)
  have hle : U.mem.length ≤ B.pos := by
    rw [hf.length_mem]
    exact hf.pos_le
  have hlen : (Int32.ofNat B.pos).toInt = B.pos := by
    rw [int32Max] at hcount
    exact Int32.toInt_ofNat_of_lt (by omega)
  have hfirst := myVsnprintf_eq (by decide) hB
  rw [hlen] at hfirst
  refine ⟨_, _, hfirst, by omega, ?_⟩
  rw [sVsprintf, Option.bind_eq_bind]
  by_cases hlong : 1024 ≤ B.pos
  · -- the second pass has room for all that the first one counted
    obtain ⟨B2, hB2, hf2⟩ := formatLoop_follows hplain (Follows.empty (B.pos + 1)) hU
    rw [hf.length_mem] at hle
    obtain ⟨buf, hsecond, hassign⟩ := assignFrom_myVsnprintf hcount hB2 hf2 (by omega)
    have htoNat : ((B.pos : ℤ) + 1).toNat = B.pos + 1 := by omega
    rw [hfirst, Option.bind_some]
    dsimp only
    rw [if_neg (by omega), if_pos (by omega), if_neg (by omega), htoNat, hsecond]
    exact hassign
  · have hroom : U.pos < 1024 := by
      rw [hf.length_mem] at hle
      omega
    obtain ⟨buf, hsecond, hassign⟩ := assignFrom_myVsnprintf (by decide) hB hf hroom
    rw [hf.length_mem] at hle
    rw [hsecond, Option.bind_some]
    dsimp only
    rw [if_neg (by omega), if_neg (by rw [hf.length_mem]; omega)]
    exact hassign

/-- `2 days`, whatever room there is for six bytes. -/
lemma formatLoop_days {size : Option ℕ} (hsize : size = none ∨ size = some 1024) :
    formatLoop size (bytes "%d day%J{s}") [.int 2] .empty = some ⟨bytes "2 days", 6⟩ := by
  have h1 : formatStep size '%' (bytes "d day%J{s}") [.int 2] .empty =
      some (bytes " day%J{s}", [], ⟨bytes "2", 1⟩) := by
    rcases hsize with rfl | rfl <;> decide
  have h2 : (OutBuf.mk (bytes "2") 1).put size (bytes " day") = ⟨bytes "2 day", 5⟩ := by
    rcases hsize with rfl | rfl <;> decide
  have h3 : formatStep size '%' (bytes "J{s}") [] ⟨bytes "2 day", 5⟩ =
      some ([], [], ⟨bytes "2 days", 6⟩) := by
    rcases hsize with rfl | rfl <;> decide
  refine formatLoop_cons_eq_some.mpr ⟨_, _, _, h1, ?_⟩
  have hsplit : bytes " day%J{s}" = bytes " day" ++ bytes "%J{s}" := by decide
  rw [hsplit, formatLoop_append (by decide), h2]
  exact formatLoop_cons_eq_some.mpr ⟨_, _, _, h3, by rw [formatLoop]⟩

/-- A number and a particle, which is written as it stands behind the last letter.

**Proof sketch.** The braces are plain, and the two passes are evaluated. -/
theorem sVsprintf_eq_days :
    ∃ len buf, myVsnprintf 1024 (bytes "%d day%J{s}") [.int 2] = some (len, buf) ∧
      ((bytes "2 days").length : ℤ) ≤ len ∧
      sVsprintf (bytes "%d day%J{s}") [.int 2] = some (bytes "2 days") := by
  have hcstr : cstr (bytes "%d day%J{s}") = bytes "%d day%J{s}" := by decide
  have hd : directive '%' (bytes "d day%J{s}") =
      (.conv (parseSpec (bytes "d day%J{s}")).1 'd', bytes " day" ++ bytes "%J{s}") := by decide
  have hJ : directive '%' (bytes "J{s}") =
      (.conv (parseSpec (bytes "J{s}")).1 'J', bytes "{s}") := by decide
  have hbraces : josaBraces (bytes "{s}") = some (1, bytes "s", []) := by decide
  refine sVsprintf_eq ?_ ?_ ?_
  · rw [hcstr]
    have hparticle : PlainBraces (bytes "%J{s}") := .braces hJ hbraces (by decide) .nil
    refine .other hd (by rintro raw ⟨⟩) (hparticle.text (by decide))
  · rw [formatText, hcstr, formatLoop_days (.inl rfl)]
    rfl
  · intro n hn
    rw [vsnprintfCount, hcstr, formatLoop_days (.inr rfl)] at hn
    obtain rfl := Option.some.inj hn
    decide

/-- The spaces for a width of the largest number of type `int`. -/
lemma padBefore_int32Max : padBefore 2147483647 = (2147483646, 0) := by
  have hpos : (0 : Int32) < 2147483647 - 1 := by decide
  have hsub : (2147483647 - 1 : Int32) = 2147483646 := by decide
  have hval : (2147483646 : Int32).toInt = 2147483646 := by decide
  rw [padBefore, if_pos hpos, hsub, hval]
  simp

/-- The spaces in front of a character count. -/
lemma length_convertChar {spec : FmtSpec} {k : ℕ} (hleft : spec.flags.left = false)
    (hpad : padBefore spec.fieldWidth = (k, 0)) (v : Int32) :
    (convertChar spec v).length = k + 1 := by
  have hpad0 : padBefore 0 = (0, -1) := by decide
  rw [convertChar, hleft, Bool.not_false, if_pos rfl, hpad]
  simp [hpad0]

/-- The conversion of `%2147483647c`. -/
def wideSpec : FmtSpec := ⟨⟨false, false, false, false, false⟩, 2147483647, -1, false, none⟩

/-- A character with that width, and another one.

**Proof sketch.** The conversion pads the letter up to its width, which is the largest number of
type `int`, and one more character follows. -/
lemma formatLoop_wide (size : Option ℕ) :
    ∃ text : Bytes, text.length = 2147483648 ∧
      formatLoop size (bytes "%2147483647cx") [.int 97] .empty =
        some (OutBuf.empty.put size text) := by
  have hd : directive '%' (bytes "2147483647cx") =
      (.conv ⟨⟨false, false, false, false, false⟩, .num 2147483647, false, .absent, none⟩ 'c',
        bytes "x") := by decide
  have hresolve : RawSpec.resolve
      ⟨⟨false, false, false, false, false⟩, .num 2147483647, false, .absent, none⟩ [.int 97] =
      some (wideSpec, [.int 97]) := by decide
  have hspec : padBefore wideSpec.fieldWidth = (2147483646, 0) := padBefore_int32Max
  have hletter := @length_convertChar wideSpec 2147483646 rfl hspec 97
  generalize hconvert : convertChar wideSpec 97 = letter at hletter
  have hstep : formatStep size '%' (bytes "2147483647cx") [.int 97] .empty =
      some (bytes "x", [], OutBuf.empty.put size letter) := by
    rw [formatStep, hd]
    dsimp only
    rw [hresolve, Option.bind_some]
    dsimp only
    rw [if_neg (by decide), convert, if_pos rfl, Option.map_some, hconvert]
  have hx : (bytes "x").length = 1 := rfl
  refine ⟨letter ++ bytes "x", by rw [List.length_append, hletter, hx], ?_⟩
  refine formatLoop_cons_eq_some.mpr ⟨_, _, _, hstep, ?_⟩
  rw [OutBuf.put_append]
  have hcopy := @formatLoop_append (bytes "x") (by decide) size [] [] (OutBuf.empty.put size letter)
  rw [List.append_nil] at hcopy
  rw [hcopy, formatLoop]

/-- A letter with the greatest width and another one behind it.

**Proof sketch.** The text is longer than the largest number of type `int`, so the number that the
first pass returns is not at least its length. -/
theorem not_sVsprintf_eq : ¬∀ (fmt : Bytes) (args : List FmtArg) (text : Bytes),
    PlainBraces (cstr fmt) → formatText fmt args = some text →
      ∃ len buf, myVsnprintf 1024 fmt args = some (len, buf) ∧ (text.length : ℤ) ≤ len ∧
        sVsprintf fmt args = some text := by
  intro h
  have hcstr : cstr (bytes "%2147483647cx") = bytes "%2147483647cx" := by decide
  obtain ⟨text, hlen, htext⟩ := formatLoop_wide none
  obtain ⟨text1, hlen1, htext1⟩ := formatLoop_wide (some 1024)
  have hd : directive '%' (bytes "2147483647cx") =
      (.conv (parseSpec (bytes "2147483647cx")).1 'c', bytes "x" ++ []) := by decide
  obtain ⟨len, buf, hfirst, hle, -⟩ := h (bytes "%2147483647cx") [.int 97] text
    (by
      rw [hcstr]
      exact .other hd (by rintro raw ⟨⟩) (PlainBraces.nil.text (by decide)))
    (by
      rw [formatText, hcstr, htext, Option.map_some, OutBuf.mem_put_none]
      rfl)
  rw [myVsnprintf_eq (by decide) (by rw [hcstr]; exact htext1)] at hfirst
  have hneg : (Int32.ofNat 2147483648).toInt = -2147483648 := by decide
  have hpos : (OutBuf.empty.put (some 1024) text1).pos = 2147483648 := by
    rw [OutBuf.pos_put, hlen1, OutBuf.empty, Nat.zero_add]
  rw [hpos, hneg] at hfirst
  have hlen2 : (-2147483648 : ℤ) = len := (Prod.mk.inj (Option.some.inj hfirst)).1
  omega

end Meowbot
