import Meowbot.Utf8Validate

set_option relaxedAutoImplicit false
set_option autoImplicit false

/-!
# Characters by their numbers (`utf8_impl.c`, `utf8.cpp`, `luautf8lib.cpp`)

A character is looked up by going over the string from its first byte. The number of the character,
its place in bytes and the length of the string are of type `int`; a negative number is counted from
the end, and is added to the length first. The integers of Lua are cut to `int` before, and a string
of Lua is a C string up to its first NUL.

A function here has no result where the source reads outside of the string and its terminator, where
an `int` overflows and where an assertion fails.

## Main definitions

* `Meowbot.intAdd` — the addition of two `int`.
* `Meowbot.utf8Strlen`, `Meowbot.utf8StrposS`, `Meowbot.utf8SubstrS` — length, character, substring.
* `Meowbot.luaUtf8Sub` — the substring between two characters.
* `Meowbot.Utf8String`, `Meowbot.LuaString` — a C string of the grammar, and a valid string of Lua,
  as the sequence of its characters.
* `Meowbot.Utf8String.IndexesRight`, `Meowbot.Utf8String.FitsInt` — what the numbers stand for, and
  where they are in range.

## Main results

* `Meowbot.Utf8String.indexesRight_iff` — the lookups are right where the sums they form are in the
  range of `int`.
* `Meowbot.LuaString.luaUtf8Sub_eq_iff` — the substring between two characters is right unless
  there are characters between the end and the start, or the cut changes what the numbers are.
-/

namespace Meowbot

/-! ## The source -/

/-- The sum of two `int`, if it is an `int`. -/
def intAdd (a b : ℤ) : Option ℤ :=
  if -(int32Max : ℤ) - 1 ≤ a + b ∧ a + b ≤ int32Max then some (a + b) else none

/-- Some bytes of the memory, if they lie in it. -/
def slice (mem : Bytes) (pos : ℤ) (len : ℕ) : Option Bytes :=
  if 0 ≤ pos ∧ pos.toNat + len ≤ mem.length then some ((mem.drop pos.toNat).take len) else none

/-- The loop of `utf8_strlen`, on the memory from a place on. It counts characters up to the
terminator, and gives -1 at one that is refused; reading behind the memory or a count that is no
`int` has no result. -/
def utf8StrlenLoop : Bytes → ℤ → Option ℤ
  | [], _ => none
  | c :: cs, len =>
    if _ : c = 0 then some len
    else match _ : utf8GetsizeCharMem (c :: cs) with
      | none => none
      | some n =>
        if _ : n < 0 then some (-1)
        else (intAdd len 1).bind fun len => utf8StrlenLoop ((c :: cs).drop n.toNat) len
termination_by p => p.length
decreasing_by
  have := pos_of_utf8GetsizeCharMem ‹c ≠ 0› ‹utf8GetsizeCharMem (c :: cs) = some n› ‹¬ n < 0›
  simp only [List.length_drop, List.length_cons]
  omega

/-- `utf8_strlen` -/
def utf8Strlen (mem : Bytes) : Option ℤ := utf8StrlenLoop mem 0

/-- The loop of `utf8_strpos_getpos`, on the memory from the place `i` on: no character, or the
place of a character and its size. -/
def utf8StrposLoop (pos : ℤ) : Bytes → ℤ → ℤ → Option (Option (ℤ × ℕ))
  | [], _, _ => none
  | c :: cs, i, n =>
    if _ : c = 0 then some none
    else match _ : utf8GetsizeCharMem (c :: cs) with
      | none => none
      | some len =>
        if _ : len < 0 then some none
        else if pos = n then some (some (i, len.toNat))
        else (intAdd i len).bind fun i => (intAdd n 1).bind fun n =>
          utf8StrposLoop pos ((c :: cs).drop len.toNat) i n
termination_by p => p.length
decreasing_by
  have := pos_of_utf8GetsizeCharMem ‹c ≠ 0› ‹utf8GetsizeCharMem (c :: cs) = some len› ‹¬ len < 0›
  simp only [List.length_drop, List.length_cons]
  omega

/-- A position from the end is added to the length, and none comes before the first. -/
def fromEnd {α : Type} (mem : Bytes) (pos : ℤ) (f : ℤ → Option (Option α)) : Option (Option α) := do
  let len ← utf8Strlen mem
  if len ≤ 0 then some none
  else
    let newpos ← intAdd len pos
    if newpos < 0 then some none else f newpos

/-- `utf8_strpos_getpos`: `startpos_out` and `len_out`, none for a result of `-1`. -/
def utf8StrposGetpos (mem : Bytes) (pos : ℤ) : Option (Option (ℤ × ℕ)) :=
  if 0 ≤ pos then utf8StrposLoop pos mem 0 0
  else fromEnd mem pos fun newpos => utf8StrposLoop newpos mem 0 0

/-- `utf8_strpos`: the string in `dest`, none for a result of `-1`. -/
def utf8Strpos (mem : Bytes) (pos : ℤ) : Option (Option Bytes) := do
  let size := 8
  match ← utf8StrposGetpos mem pos with
  | none => some none
  | some (startpos, len) => (slice mem startpos (if len < size then len else size - 1)).map some

/-- `utf8_strpos_s` -/
def utf8StrposS (str : Bytes) (pos : Int32) : Option Bytes := do
  match ← utf8Strpos (str ++ [0]) pos.toInt with
  | none => some []
  | some buf => some (cstr buf)

/-- The loop of `utf8_substr_getpos`, on the memory from the place `pos` on: `startpos`, `endpos`
and `pos` behind the loop. -/
def utf8SubstrLoop (str : Bytes) (start nchar : ℤ) : Bytes → ℤ → ℤ → ℤ → Option (ℤ × ℤ × ℤ)
  | [], _, _, _ => none
  | c :: cs, pos, n, startpos =>
    if _ : c = 0 then some (startpos, -1, pos)
    else match _ : utf8GetsizeCharMem (c :: cs) with
      | none => none
      | some len =>
        if _ : 0 < len then
          let startpos := if n = start then pos else startpos
          if n = start ∧ nchar < 0 then
            some (startpos, (Int32.ofNat (cstr str).length).toInt, pos)
          else
            (if 0 ≤ nchar then (intAdd start nchar).map fun e => decide (e ≤ n)
              else some false).bind fun stop =>
            if stop then some (startpos, pos, pos)
            else (intAdd pos len).bind fun pos => (intAdd n 1).bind fun n =>
              utf8SubstrLoop str start nchar ((c :: cs).drop len.toNat) pos n startpos
        else some (startpos, -1, pos)
termination_by p => p.length
decreasing_by
  simp only [List.length_drop, List.length_cons]
  omega

/-- The branch of `utf8_substr_getpos` for a position from the start: `startpos_out` and `len_out`,
none for a result of `-1`. -/
def utf8SubstrFrom (mem : Bytes) (nchar start : ℤ) : Option (Option (ℤ × ℕ)) := do
  let (startpos, endpos, pos) ← utf8SubstrLoop mem start nchar mem 0 0 (-1)
  if 0 ≤ startpos then
    let endpos := if endpos < 0 then pos else endpos
    -- the assertion
    if endpos ≥ startpos then some (some (startpos, (endpos - startpos).toNat)) else none
  else some none

/-- `utf8_substr_getpos` -/
def utf8SubstrGetpos (mem : Bytes) (start nchar : ℤ) : Option (Option (ℤ × ℕ)) :=
  if 0 ≤ start then utf8SubstrFrom mem nchar start
  else fromEnd mem start (utf8SubstrFrom mem nchar)

/-- `utf8_substr_s` -/
def utf8SubstrS (str : Bytes) (start len : Int32) : Option Bytes := do
  match ← utf8SubstrGetpos (str ++ [0]) start.toInt len.toInt with
  | none => some []
  | some (startpos, size) => slice (str ++ [0]) startpos size

/-- A position of Lua, which counts from one, as a position of `utf8_strpos_getpos`. -/
def zeroBased (pos : ℤ) : ℤ := if 0 < pos then pos - 1 else pos

/-- `luaL_checkint` of an integer: the number is converted to a `lua_Integer` of 64 bits, of which
the low half is the `int`. The conversion of a number out of range gives the smallest one, as it
does on x86-64. -/
def luaCheckint (n : ℤ) : ℤ :=
  if -2 ^ 63 ≤ n ∧ n < 2 ^ 63 then (Int32.ofInt n).toInt else (Int32.ofInt (-2 ^ 63)).toInt

/-- `lua_utf8_sub`: the string that is pushed. The arguments are a string of Lua, which may hold
NUL, and two integers. -/
def luaUtf8Sub (str : Bytes) (start last : ℤ) : Option Bytes := do
  let mem := cstr str ++ [0]
  let ret ← utf8StrposGetpos mem (zeroBased (luaCheckint start))
  let ret2 ← utf8StrposGetpos mem (zeroBased (luaCheckint last))
  match ret, ret2 with
  | some (startpos, _), some (endpos, len) =>
    slice mem startpos ((endpos + len - startpos) % 2 ^ 64).toNat
  | _, _ => some []

/-! ## A string of characters -/

/-- A character of the grammar, that holds no terminator. -/
structure IsChar (c : Bytes) : Prop where
  piece : Pieces.IsPiece leadSize IsTail c
  nonzero : 0 ∉ c

/-- **A C string of the grammar**, as the sequence of its characters. -/
structure Utf8String where
  /-- The characters. -/
  chars : List Bytes
  isChar : ∀ c ∈ chars, IsChar c

namespace Utf8String

/-- The bytes. -/
def str (s : Utf8String) : Bytes := s.chars.flatten

/-- The number of characters. -/
def size (s : Utf8String) : ℕ := s.chars.length

/-- The number of bytes in front of a character, or in the string if it has no such character. -/
def before (s : Utf8String) (i : ℕ) : ℕ := (s.chars.take i).flatten.length

/-- A position, counted from the end where it is negative. -/
def front (s : Utf8String) (pos : ℤ) : ℤ := if pos < 0 then s.size + pos else pos

/-- The character at a position, empty if there is none. -/
def charFrom (s : Utf8String) (pos : ℤ) : Bytes :=
  if s.front pos < 0 then [] else s.chars.getD (s.front pos).toNat []

/-- As many characters as asked for, all of them for a negative count. -/
def substrAt (s : Utf8String) (i : ℕ) (count : ℤ) : Bytes :=
  (if count < 0 then s.chars.drop i else (s.chars.drop i).take count.toNat).flatten

/-- The characters from a position on, or as many as asked for, empty if there is no such
position. -/
def substrFrom (s : Utf8String) (start count : ℤ) : Bytes :=
  if s.front start < 0 then [] else s.substrAt (s.front start).toNat count

end Utf8String

/-! ## One character -/

/-- The memory that holds the characters and the terminator. -/
def charMem (cs : List Bytes) : Bytes := cs.flatten ++ [0]

/-- The memory from the second character on. -/
lemma charMem_cons (c : Bytes) (cs : List Bytes) : charMem (c :: cs) = c ++ charMem cs := by
  simp [charMem]

/-- The characters hold no terminator. -/
lemma zero_notMem_flatten {cs : List Bytes} (h : ∀ c ∈ cs, IsChar c) : 0 ∉ cs.flatten := by
  intro h0
  obtain ⟨c, hc, hmem⟩ := List.mem_flatten.mp h0
  exact (h c hc).nonzero hmem

/-- There are at most three bytes behind a first byte. -/
lemma leadSize_le {c : Byte} {k : ℕ} (h : leadSize c = some k) : k ≤ 3 := by
  rw [leadSize] at h
  split_ifs at h <;> simp only [Option.some.injEq] at h <;> omega

/-- The size of the first character of a C string, refused or not. -/
lemma exists_utf8GetsizeCharMem {c : Byte} {cs : Bytes} (hc : c ≠ 0) (h : 0 ∉ cs) :
    ∃ n : ℤ, utf8GetsizeCharMem (c :: (cs ++ [0])) = some n ∧
      (n < 0 ∨ 0 < n ∧ n ≤ 4 ∧ n ≤ cs.length + 1) := by
  rw [utf8GetsizeCharMem_eq hc h]
  cases hsize : leadSize c with
  | none => exact ⟨-1, rfl, .inl (by omega)⟩
  | some k =>
    have hk := leadSize_le hsize
    dsimp only
    split_ifs with hall
    · exact ⟨k + 1, rfl, .inr ⟨by omega, by omega, by omega⟩⟩
    · exact ⟨-(k + 1), rfl, .inl (by omega)⟩

/-- The loop over the later bytes, whatever is behind them. -/
lemma utf8TailLoop_tails (len : ℤ) (done : Bytes) {l : Bytes} (rest : Bytes)
    (h : ∀ t ∈ l, IsTail t) :
    utf8TailLoop (done ++ (l ++ rest)) len (List.range' done.length l.length) = some len := by
  induction l generalizing done with
  | nil => rfl
  | cons t l ih =>
    obtain ⟨ht, hl⟩ := List.forall_mem_cons.mp h
    have hne : t ≠ 0 := by
      rintro rfl
      exact absurd ht (by unfold IsTail; decide)
    have hpass : t &&& 0x80 = 0x80 := (passesAsTail_iff t).mpr (.inl ht)
    have hget : (done ++ (t :: l ++ rest))[done.length]? = some t := by simp
    have hnext := ih (done ++ [t]) hl
    rw [List.length_append, List.length_singleton, List.append_assoc] at hnext
    rw [List.length_cons, List.range'_succ, utf8TailLoop, hget, Option.bind_eq_bind,
      Option.bind_some, if_neg (by simp [hne, hpass])]
    exact hnext

/-- **The size of a character**, whatever is behind it. -/
lemma IsChar.utf8GetsizeCharMem_append {c : Bytes} (hc : IsChar c) (rest : Bytes) :
    utf8GetsizeCharMem (c ++ rest) = some (c.length : ℤ) := by
  obtain ⟨hpiece, hzero⟩ := hc
  cases c with
  | nil => exact absurd hpiece id
  | cons b l =>
    obtain ⟨hsize, htails⟩ := hpiece
    have hb : b ≠ 0 := fun h => hzero (h ▸ List.mem_cons_self)
    have hloop := utf8TailLoop_tails ((b :: l).length : ℤ) [b] rest htails
    rw [utf8GetsizeCharMem, List.cons_append, utf8GetsizeCharNc_cons hb, hsize]
    simpa using hloop

/-- **One character of the memory**: the byte at its place, its size, and what is behind it. -/
lemma exists_charMem_cons {c : Bytes} (hc : IsChar c) (cs : List Bytes) :
    ∃ b bs, b ≠ 0 ∧ charMem (c :: cs) = b :: bs ∧
      utf8GetsizeCharMem (b :: bs) = some (c.length : ℤ) ∧
        (b :: bs).drop (c.length : ℤ).toNat = charMem cs := by
  have hsize := hc.utf8GetsizeCharMem_append (charMem cs)
  have hdrop : (c ++ charMem cs).drop (c.length : ℤ).toNat = charMem cs := by
    rw [Int.toNat_natCast, List.drop_left]
  have hzero := hc.nonzero
  cases c with
  | nil => exact absurd hc.piece id
  | cons b l =>
    have hb : b ≠ 0 := fun h => hzero (h ▸ List.mem_cons_self)
    exact ⟨b, l ++ charMem cs, hb, charMem_cons _ _, hsize, hdrop⟩

/-- A character is not empty. -/
lemma IsChar.length_pos {c : Bytes} (hc : IsChar c) : 0 < c.length := by
  match c, hc.piece with
  | b :: l, _ => simp

/-- A character has at most four bytes. -/
lemma IsChar.length_le {c : Bytes} (hc : IsChar c) : c.length ≤ 4 := by
  match c, hc.piece with
  | b :: l, ⟨hsize, _⟩ =>
    have := leadSize_le hsize
    rw [List.length_cons]
    omega

/-- The size of the first characters of a list. -/
lemma length_flatten_take_succ (c : Bytes) (cs : List Bytes) (k : ℕ) :
    (((c :: cs).take (k + 1)).flatten.length : ℤ) = c.length + (cs.take k).flatten.length := by
  rw [List.take_succ_cons, List.flatten_cons, List.length_append, Nat.cast_add]

/-! ## The length -/

/-- One round of the loop of `utf8_strlen`. -/
lemma utf8StrlenLoop_cons {c : Bytes} (hc : IsChar c) (cs : List Bytes) (len : ℤ) :
    utf8StrlenLoop (charMem (c :: cs)) len = (intAdd len 1).bind (utf8StrlenLoop (charMem cs)) := by
  obtain ⟨b, bs, hb, hmem, hsize, hdrop⟩ := exists_charMem_cons hc cs
  rw [hmem, utf8StrlenLoop, dif_neg hb]
  split
  · rename_i hnone
    rw [hsize] at hnone
    cases hnone
  · rename_i n hsome
    obtain rfl := Option.some.inj (hsize.symm.trans hsome)
    rw [dif_neg (by omega), hdrop]

/-- The loop of `utf8_strlen` counts the characters, as long as they can be counted. -/
lemma utf8StrlenLoop_eq {cs : List Bytes} (hcs : ∀ c ∈ cs, IsChar c) {len : ℤ} (hlen : 0 ≤ len)
    (hmax : len ≤ int32Max) :
    utf8StrlenLoop (charMem cs) len =
      if len + cs.length ≤ int32Max then some (len + cs.length) else none := by
  induction cs generalizing len with
  | nil =>
    rw [show charMem [] = [0] from rfl, utf8StrlenLoop, dif_pos rfl, if_pos (by simpa using hmax)]
    simp
  | cons c cs ih =>
    obtain ⟨hc, hcs⟩ := List.forall_mem_cons.mp hcs
    rw [utf8StrlenLoop_cons hc, intAdd, List.length_cons, Nat.cast_add, Nat.cast_one]
    by_cases hfit : len + 1 ≤ int32Max
    · rw [if_pos ⟨by omega, hfit⟩, Option.bind_some, ih hcs (by omega) hfit,
        show len + 1 + (cs.length : ℤ) = len + (cs.length + 1) by omega]
    · rw [if_neg (fun h => hfit h.2), Option.bind_none, if_neg (by omega)]

namespace Utf8String

variable (s : Utf8String)

/-- The memory of the string. -/
lemma str_append_zero : s.str ++ [0] = charMem s.chars := rfl

/-- **The length** is the number of characters, if this is an `int`. -/
lemma utf8Strlen_eq :
    utf8Strlen (s.str ++ [0]) = if s.size ≤ int32Max then some (s.size : ℤ) else none := by
  rw [str_append_zero, utf8Strlen, utf8StrlenLoop_eq s.isChar le_rfl (by simp), zero_add]
  exact if_congr Nat.cast_le rfl rfl

/-- A position from the end. -/
lemma fromEnd_eq {α : Type} {pos : ℤ} (hneg : pos < 0) (hmin : -(int32Max : ℤ) - 1 ≤ pos)
    (f : ℤ → Option (Option α)) :
    fromEnd (s.str ++ [0]) pos f =
      if s.size ≤ int32Max then (if s.front pos < 0 then some none else f (s.front pos))
      else none := by
  rw [fromEnd, utf8Strlen_eq, front, if_pos hneg]
  by_cases hfit : s.size ≤ int32Max
  · rw [if_pos hfit, if_pos hfit, Option.bind_eq_bind, Option.bind_some]
    by_cases hzero : (s.size : ℤ) ≤ 0
    · rw [if_pos hzero, if_pos (by omega)]
    · rw [if_neg hzero, intAdd, if_pos (by omega), Option.bind_some]
  · rw [if_neg hfit, if_neg hfit, Option.bind_eq_bind, Option.bind_none]

/-! ## The bytes of some characters -/

/-- The bytes between two others. -/
lemma slice_append (a b c : Bytes) : slice (a ++ b ++ c) a.length b.length = some b := by
  rw [slice, if_pos ⟨by omega, by simp⟩, Int.toNat_natCast, List.append_assoc, List.drop_left,
    List.take_left]

/-- Bytes of the memory, if there is more of it. -/
lemma slice_append_of_eq_some {mem bs : Bytes} {pos : ℤ} {len : ℕ}
    (h : slice mem pos len = some bs) (rest : Bytes) : slice (mem ++ rest) pos len = some bs := by
  rw [slice] at h ⊢
  split_ifs at h with hin
  obtain ⟨hpos, hlen⟩ := hin
  rw [if_pos ⟨hpos, by rw [List.length_append]; omega⟩, List.drop_append_of_le_length (by omega),
    List.take_append_of_le_length (by rw [List.length_drop]; omega)]
  exact h

/-- **The bytes of some characters** lie behind those of the characters in front of them. -/
lemma slice_before (i k : ℕ) :
    slice (s.str ++ [0]) (s.before i) ((s.chars.drop i).take k).flatten.length =
      some ((s.chars.drop i).take k).flatten := by
  have hstr : s.str ++ [0] =
      (s.chars.take i).flatten ++ ((s.chars.drop i).take k).flatten ++
        (((s.chars.drop i).drop k).flatten ++ [0]) := by
    rw [str, ← List.append_assoc, List.append_assoc (s.chars.take i).flatten,
      ← List.flatten_append, List.take_append_drop, ← List.flatten_append, List.take_append_drop]
  rw [hstr]
  exact slice_append _ _ _

/-- The place behind some characters. -/
lemma before_add (i k : ℕ) :
    s.before (i + k) = s.before i + ((s.chars.drop i).take k).flatten.length := by
  rw [before, before, List.take_add, List.flatten_append, List.length_append]

/-- The places of the characters grow. -/
lemma before_mono {i j : ℕ} (h : i ≤ j) : s.before i ≤ s.before j := by
  have := s.before_add i (j - i)
  rw [show i + (j - i) = j by omega] at this
  omega

/-- The place behind a character. -/
lemma before_succ {i : ℕ} (hi : i < s.size) :
    s.before (i + 1) = s.before i + (s.chars.get ⟨i, hi⟩).length := by
  rw [s.before_add, List.drop_eq_getElem_cons hi, List.take_succ_cons, List.take_zero,
    List.flatten_singleton]
  rfl

/-- No character is at the place of another. -/
lemma before_lt {i j : ℕ} (h : i < j) (hi : i < s.size) : s.before i < s.before j := by
  have hsucc := s.before_succ hi
  have hmono := s.before_mono (show i + 1 ≤ j from h)
  have hc := (s.isChar _ (s.chars.get_mem ⟨i, hi⟩)).length_pos
  omega

/-- Behind the last character lies the whole string. -/
lemma before_of_size_le {i : ℕ} (h : s.size ≤ i) : s.before i = s.str.length := by
  rw [before, List.take_of_length_le h, str]

/-! ## The place of a character -/

end Utf8String

/-- One round of the loop of `utf8_strpos_getpos`, on any memory. -/
lemma utf8StrposLoop_of_size {b : Byte} {bs : Bytes} {len : ℤ} (hb : b ≠ 0)
    (hsize : utf8GetsizeCharMem (b :: bs) = some len) (pos i n : ℤ) :
    utf8StrposLoop pos (b :: bs) i n =
      if len < 0 then some none
      else if pos = n then some (some (i, len.toNat))
      else (intAdd i len).bind fun i => (intAdd n 1).bind fun n =>
        utf8StrposLoop pos ((b :: bs).drop len.toNat) i n := by
  rw [utf8StrposLoop, dif_neg hb]
  split
  · rename_i hnone
    rw [hsize] at hnone
    cases hnone
  · rename_i len' hsome
    obtain rfl := Option.some.inj (hsize.symm.trans hsome)
    split_ifs <;> rfl

/-- A round of the loop of `utf8_strpos_getpos` over a character, whatever is behind it. -/
lemma utf8StrposLoop_append {c : Bytes} (hc : IsChar c) (rest : Bytes) (pos i n : ℤ) :
    utf8StrposLoop pos (c ++ rest) i n =
      if pos = n then some (some (i, c.length))
      else (intAdd i c.length).bind fun i => (intAdd n 1).bind fun n =>
        utf8StrposLoop pos rest i n := by
  have hsize := hc.utf8GetsizeCharMem_append rest
  have hdrop : (c ++ rest).drop c.length = rest := List.drop_left
  have hzero := hc.nonzero
  cases c with
  | nil => exact absurd hc.piece id
  | cons b l =>
    have hb : b ≠ 0 := fun h => hzero (h ▸ List.mem_cons_self)
    rw [List.cons_append] at hsize hdrop ⊢
    rw [utf8StrposLoop_of_size hb hsize, if_neg (by omega), Int.toNat_natCast, hdrop]

/-- **The place of a character**: the sizes of the characters in front of it are added up, as long
as the sum is an `int`. Nothing behind the terminator is read.

**Proof sketch.** By induction on the characters. A round takes one of them, and stops if its end is
no `int`; at the terminator there is no character at the place. -/
lemma utf8StrposLoop_eq {cs : List Bytes} (hcs : ∀ c ∈ cs, IsChar c) (rest : Bytes) {i n : ℤ}
    (hn : 0 ≤ n) (hni : n ≤ i) (hmax : i ≤ int32Max) (k : ℕ) :
    utf8StrposLoop (n + k) (cs.flatten ++ 0 :: rest) i n =
      if i + (cs.take k).flatten.length ≤ int32Max then
        some (cs[k]?.map fun c => (i + (cs.take k).flatten.length, c.length))
      else none := by
  induction cs generalizing i n k with
  | nil =>
    rw [List.flatten_nil, List.nil_append, utf8StrposLoop, dif_pos rfl]
    simp [hmax]
  | cons c cs ih =>
    obtain ⟨hc, hcs⟩ := List.forall_mem_cons.mp hcs
    have hpos := hc.length_pos
    rw [List.flatten_cons, List.append_assoc, utf8StrposLoop_append hc]
    cases k with
    | zero =>
      rw [if_pos (by simp)]
      simp [hmax]
    | succ k =>
      rw [if_neg (by omega), show n + ((k + 1 : ℕ) : ℤ) = n + 1 + k by omega, intAdd, intAdd,
        length_flatten_take_succ, List.getElem?_cons_succ]
      by_cases hfit : i + c.length ≤ int32Max
      · have hnext := ih hcs (i := i + c.length) (n := n + 1) (by omega) (by omega) hfit k
        rw [if_pos ⟨by omega, hfit⟩, Option.bind_some, if_pos ⟨by omega, by omega⟩,
          Option.bind_some, hnext, add_assoc]
      · rw [if_neg (fun h => hfit h.2), Option.bind_none, if_neg (by omega)]

namespace Utf8String

variable (s : Utf8String)

/-- **A lookup stays in the range of `int`**: so do the length, where it is needed, and the size of
what is in front of the character. -/
structure PosFits (pos : ℤ) : Prop where
  size : pos < 0 → s.size ≤ int32Max
  before : s.before (s.front pos).toNat ≤ int32Max

/-- The places of a character that `utf8_strpos_getpos` finds. -/
def placeFrom (pos : ℤ) : Option (ℤ × ℕ) :=
  if s.front pos < 0 then none
  else s.chars[(s.front pos).toNat]?.map fun c => ((s.before (s.front pos).toNat : ℤ), c.length)

/-- A position from the start. -/
lemma front_of_nonneg {pos : ℤ} (h : 0 ≤ pos) : s.front pos = pos := if_neg (by omega)

/-- The loop of `utf8_strpos_getpos` from the first character on. -/
lemma utf8StrposLoop_zero {pos : ℤ} (h : 0 ≤ pos) :
    utf8StrposLoop pos (s.str ++ [0]) 0 0 =
      if s.before pos.toNat ≤ int32Max then
        some (s.chars[pos.toNat]?.map fun c => ((s.before pos.toNat : ℤ), c.length))
      else none := by
  have hloop := utf8StrposLoop_eq s.isChar [] (le_refl 0) (le_refl 0) (by simp) pos.toNat
  rw [Int.toNat_of_nonneg h, zero_add] at hloop
  rw [str, hloop, zero_add]
  exact if_congr Nat.cast_le rfl rfl

/-- **A lookup** finds the character, if it stays in the range of `int`. -/
lemma utf8StrposGetpos_eq {pos : ℤ} (hfit : s.PosFits pos) (hmin : -(int32Max : ℤ) - 1 ≤ pos) :
    utf8StrposGetpos (s.str ++ [0]) pos = some (s.placeFrom pos) := by
  have hbefore := hfit.before
  rw [utf8StrposGetpos, placeFrom]
  by_cases hpos : 0 ≤ pos
  · rw [s.front_of_nonneg hpos] at hbefore ⊢
    rw [if_pos hpos, s.utf8StrposLoop_zero hpos, if_pos hbefore, if_neg (by omega)]
  · rw [if_neg hpos, s.fromEnd_eq (by omega) hmin, if_pos (hfit.size (by omega))]
    by_cases hfront : s.front pos < 0
    · rw [if_pos hfront, if_pos hfront]
    · rw [if_neg hfront, if_neg hfront, s.utf8StrposLoop_zero (by omega), if_pos hbefore]

/-- A lookup that leaves the range of `int` has no result. -/
lemma utf8StrposGetpos_eq_none {pos : ℤ} (hfit : ¬ s.PosFits pos)
    (hmin : -(int32Max : ℤ) - 1 ≤ pos) : utf8StrposGetpos (s.str ++ [0]) pos = none := by
  rw [utf8StrposGetpos]
  by_cases hpos : 0 ≤ pos
  · have hbefore : ¬ s.before pos.toNat ≤ int32Max := fun h =>
      hfit ⟨by omega, by rwa [s.front_of_nonneg hpos]⟩
    rw [if_pos hpos, s.utf8StrposLoop_zero hpos, if_neg hbefore]
  · rw [if_neg hpos, s.fromEnd_eq (by omega) hmin]
    by_cases hsize : s.size ≤ int32Max
    · have hbefore : ¬ s.before (s.front pos).toNat ≤ int32Max := fun h => hfit ⟨fun _ => hsize, h⟩
      have hfront : ¬ s.front pos < 0 := by
        intro h
        exact hbefore (by simp [before, Int.toNat_of_nonpos h.le])
      rw [if_pos hsize, if_neg hfront, s.utf8StrposLoop_zero (by omega), if_neg hbefore]
    · rw [if_neg hsize]

/-- The character at a place that was found. -/
lemma charFrom_of_placeFrom_eq_none {pos : ℤ} (h : s.placeFrom pos = none) :
    s.charFrom pos = [] := by
  rw [placeFrom] at h
  rw [charFrom]
  split_ifs at h ⊢
  · rfl
  · rw [Option.map_eq_none_iff] at h
    rw [List.getD_eq_getElem?_getD, h, Option.getD_none]

/-- The character at a place that was found: its bytes are there. -/
lemma charFrom_of_placeFrom_eq_some {pos startpos : ℤ} {len : ℕ}
    (h : s.placeFrom pos = some (startpos, len)) :
    IsChar (s.charFrom pos) ∧ (s.charFrom pos).length = len ∧
      slice (s.str ++ [0]) startpos len = some (s.charFrom pos) := by
  rw [placeFrom] at h
  split_ifs at h with hfront
  obtain ⟨c, hc, hplace⟩ := Option.map_eq_some_iff.mp h
  obtain ⟨rfl, rfl⟩ := Prod.mk.inj hplace
  obtain ⟨hi, rfl⟩ := List.getElem?_eq_some_iff.mp hc
  have hchar : s.charFrom pos = s.chars[(s.front pos).toNat] := by
    rw [charFrom, if_neg hfront, List.getD_eq_getElem?_getD, hc, Option.getD_some]
  have hslice := s.slice_before (s.front pos).toNat 1
  rw [List.drop_eq_getElem_cons hi, List.take_succ_cons, List.take_zero, List.flatten_singleton]
    at hslice
  rw [hchar]
  exact ⟨s.isChar _ (List.getElem_mem hi), rfl, hslice⟩

end Utf8String

/-- **What is found** when a place is: the character that lies there. -/
lemma utf8StrposS_of_getpos {str c : Bytes} {pos : Int32} {startpos : ℤ} (hc : IsChar c)
    (hget : utf8StrposGetpos (str ++ [0]) pos.toInt = some (some (startpos, c.length)))
    (hslice : slice (str ++ [0]) startpos c.length = some c) : utf8StrposS str pos = some c := by
  have hle := hc.length_le
  rw [utf8StrposS, utf8Strpos, hget]
  simp only [Option.bind_eq_bind, Option.bind_some]
  rw [if_pos (by omega), hslice]
  exact congrArg some (cstr_eq_self hc.nonzero)

/-! ## The places of a substring -/

/-- One round of the loop of `utf8_substr_getpos`, on any memory.

**Proof sketch.** The loop is unfolded once; what it does with the character depends on its measured
size only. -/
lemma utf8SubstrLoop_of_size {b : Byte} {bs : Bytes} {len : ℤ} (hb : b ≠ 0)
    (hsize : utf8GetsizeCharMem (b :: bs) = some len) (str : Bytes)
    (start nchar pos n startpos : ℤ) :
    utf8SubstrLoop str start nchar (b :: bs) pos n startpos =
      if 0 < len then
        if n = start ∧ nchar < 0 then
          some (if n = start then pos else startpos, (Int32.ofNat (cstr str).length).toInt, pos)
        else
          (if 0 ≤ nchar then (intAdd start nchar).map fun e => decide (e ≤ n)
            else some false).bind fun stop =>
          if stop then some (if n = start then pos else startpos, pos, pos)
          else (intAdd pos len).bind fun pos' => (intAdd n 1).bind fun n' =>
            utf8SubstrLoop str start nchar ((b :: bs).drop len.toNat) pos' n'
              (if n = start then pos else startpos)
      else some (startpos, -1, pos) := by
  rw [utf8SubstrLoop, dif_neg hb]
  split
  · rename_i hnone
    rw [hsize] at hnone
    cases hnone
  · rename_i len' hsome
    obtain rfl := Option.some.inj (hsize.symm.trans hsome)
    by_cases hlen : 0 < len
    · rw [dif_pos hlen, if_pos hlen]
    · rw [dif_neg hlen, if_neg hlen]

/-- One round of the loop of `utf8_substr_getpos`. -/
lemma utf8SubstrLoop_cons {c : Bytes} (hc : IsChar c) (cs : List Bytes) (str : Bytes)
    (start nchar pos n startpos : ℤ) :
    utf8SubstrLoop str start nchar (charMem (c :: cs)) pos n startpos =
      if n = start ∧ nchar < 0 then
        some (if n = start then pos else startpos, (Int32.ofNat (cstr str).length).toInt, pos)
      else
        (if 0 ≤ nchar then (intAdd start nchar).map fun e => decide (e ≤ n)
          else some false).bind fun stop =>
        if stop then some (if n = start then pos else startpos, pos, pos)
        else (intAdd pos c.length).bind fun pos' => (intAdd n 1).bind fun n' =>
          utf8SubstrLoop str start nchar (charMem cs) pos' n'
            (if n = start then pos else startpos) := by
  obtain ⟨b, bs, hb, hmem, hsize, hdrop⟩ := exists_charMem_cons hc cs
  have hpos := hc.length_pos
  rw [hmem, utf8SubstrLoop_of_size hb hsize, if_pos (by omega), hdrop]

/-- The loop at the end of the string. -/
lemma utf8SubstrLoop_nil (str : Bytes) (start nchar pos n startpos : ℤ) :
    utf8SubstrLoop str start nchar (charMem []) pos n startpos = some (startpos, -1, pos) := by
  rw [show charMem [] = [0] from rfl, utf8SubstrLoop, dif_pos rfl]

/-- A round of the loop that goes on to the next character.

**Proof sketch.** The tests that end the loop fail by the hypotheses, so what is left are the two
additions, of which the larger one decides. -/
lemma utf8SubstrLoop_next {c : Bytes} (hc : IsChar c) (cs : List Bytes) (str : Bytes)
    {start nchar pos n : ℤ} (startpos : ℤ) (hn : 0 ≤ n) (hnpos : n ≤ pos)
    (hall : n = start → 0 ≤ nchar)
    (hcount : 0 ≤ nchar → start + nchar ≤ int32Max ∧ n < start + nchar) :
    utf8SubstrLoop str start nchar (charMem (c :: cs)) pos n startpos =
      if pos + c.length ≤ int32Max then
        utf8SubstrLoop str start nchar (charMem cs) (pos + c.length) (n + 1)
          (if n = start then pos else startpos)
      else none := by
  have hpos := hc.length_pos
  have hstop : (if 0 ≤ nchar then (intAdd start nchar).map fun e => decide (e ≤ n)
      else some false) = some false := by
    split_ifs with hneg
    · obtain ⟨hmax, hlt⟩ := hcount hneg
      rw [intAdd, if_pos ⟨by omega, hmax⟩, Option.map_some, decide_eq_false (by omega)]
    · rfl
  rw [utf8SubstrLoop_cons hc, if_neg (fun h => absurd (hall h.1) (by omega)), hstop,
    Option.bind_some, if_neg Bool.false_ne_true, intAdd, intAdd]
  by_cases hfit : pos + c.length ≤ int32Max
  · rw [if_pos ⟨by omega, hfit⟩, Option.bind_some, if_pos ⟨by omega, by omega⟩, Option.bind_some,
      if_pos hfit]
  · rw [if_neg (fun h => hfit h.2), Option.bind_none, if_neg hfit]

/-- **All that is left**: behind the characters in front of the first, the length of the string is
the end.

**Proof sketch.** By induction on the characters. In front of the first one each round goes on; at
the first one the loop ends, with the length of the string as the end. -/
lemma utf8SubstrLoop_all {cs : List Bytes} (hcs : ∀ c ∈ cs, IsChar c) (str : Bytes)
    {nchar pos n : ℤ} (startpos : ℤ) (hneg : nchar < 0) (hn : 0 ≤ n) (hnpos : n ≤ pos)
    (hmax : pos ≤ int32Max) (k : ℕ) :
    utf8SubstrLoop str (n + k) nchar (charMem cs) pos n startpos =
      if pos + (cs.take k).flatten.length ≤ int32Max then
        some (if k < cs.length then
          (pos + (cs.take k).flatten.length, (Int32.ofNat (cstr str).length).toInt,
            pos + (cs.take k).flatten.length)
          else (startpos, -1, pos + (cs.take k).flatten.length))
      else none := by
  induction cs generalizing pos n k with
  | nil =>
    rw [utf8SubstrLoop_nil]
    simp [hmax]
  | cons c cs ih =>
    obtain ⟨hc, hcs⟩ := List.forall_mem_cons.mp hcs
    have hpos := hc.length_pos
    cases k with
    | zero =>
      rw [utf8SubstrLoop_cons hc, if_pos ⟨by simp, hneg⟩, if_pos (by simp)]
      simp [hmax]
    | succ k =>
      have hne : ¬ n = n + ((k + 1 : ℕ) : ℤ) := by omega
      rw [utf8SubstrLoop_next hc cs str startpos hn hnpos (by omega) (by omega),
        if_neg hne, show n + ((k + 1 : ℕ) : ℤ) = n + 1 + k by omega, length_flatten_take_succ,
        ← add_assoc, List.length_cons]
      by_cases hfit : pos + c.length ≤ int32Max
      · rw [if_pos hfit, ih hcs (by omega) (by omega) hfit k]
        simp only [Nat.add_lt_add_iff_right]
      · rw [if_neg hfit, if_neg (by omega)]

/-- The rounds of the loop behind the first character of the substring.

**Proof sketch.** By induction on the characters: a round goes on until as many as were asked for
have been passed, or the string ends. -/
lemma utf8SubstrLoop_count {cs : List Bytes} (hcs : ∀ c ∈ cs, IsChar c) (str : Bytes)
    {start nchar pos n : ℤ} (startpos : ℤ) (hstart : 0 ≤ start) (hcount : 0 ≤ nchar)
    (hend : start + nchar ≤ int32Max) (hn : start < n) (hnpos : n ≤ pos) (hmax : pos ≤ int32Max)
    (m : ℕ) (hm : n + m = start + nchar) :
    utf8SubstrLoop str start nchar (charMem cs) pos n startpos =
      if pos + (cs.take m).flatten.length ≤ int32Max then
        some (startpos, if m < cs.length then pos + (cs.take m).flatten.length else -1,
          pos + (cs.take m).flatten.length)
      else none := by
  induction cs generalizing pos n m with
  | nil =>
    rw [utf8SubstrLoop_nil]
    simp [hmax]
  | cons c cs ih =>
    obtain ⟨hc, hcs⟩ := List.forall_mem_cons.mp hcs
    have hpos := hc.length_pos
    cases m with
    | zero =>
      rw [utf8SubstrLoop_cons hc, if_neg (by omega), if_pos hcount, intAdd,
        if_pos ⟨by omega, hend⟩, Option.map_some, decide_eq_true (by omega), Option.bind_some,
        if_pos rfl, if_neg (by omega)]
      simp [hmax]
    | succ m =>
      have hne : ¬ n = start := by omega
      rw [utf8SubstrLoop_next hc cs str startpos (by omega) hnpos (by omega)
        (fun _ => ⟨hend, by omega⟩), if_neg hne, length_flatten_take_succ, ← add_assoc,
        List.length_cons]
      by_cases hfit : pos + c.length ≤ int32Max
      · rw [if_pos hfit, ih hcs (by omega) (by omega) hfit m (by omega)]
        simp only [Nat.add_lt_add_iff_right]
      · rw [if_neg hfit, if_neg (by omega)]

/-- **As many characters as asked for**: the end is behind them, or at the end of the string.

**Proof sketch.** By induction on the characters in front of the first one; there the position is
taken, and the other rounds are those of `utf8SubstrLoop_count`. -/
lemma utf8SubstrLoop_some {cs : List Bytes} (hcs : ∀ c ∈ cs, IsChar c) (str : Bytes)
    {pos n : ℤ} (startpos : ℤ) (hn : 0 ≤ n) (hnpos : n ≤ pos) (hmax : pos ≤ int32Max) (k m : ℕ)
    (hend : n + k + m ≤ int32Max) :
    utf8SubstrLoop str (n + k) m (charMem cs) pos n startpos =
      if pos + (cs.take (k + m)).flatten.length ≤ int32Max then
        some (if k < cs.length then pos + (cs.take k).flatten.length else startpos,
          if k + m < cs.length then pos + (cs.take (k + m)).flatten.length else -1,
          pos + (cs.take (k + m)).flatten.length)
      else none := by
  induction cs generalizing pos n k with
  | nil =>
    rw [utf8SubstrLoop_nil]
    simp [hmax]
  | cons c cs ih =>
    obtain ⟨hc, hcs⟩ := List.forall_mem_cons.mp hcs
    have hpos := hc.length_pos
    cases k with
    | zero =>
      cases m with
      | zero =>
        rw [utf8SubstrLoop_cons hc, if_neg (by omega), if_pos (by omega), intAdd,
          if_pos ⟨by omega, hend⟩, Option.map_some, decide_eq_true (by omega), Option.bind_some,
          if_pos rfl, if_pos (by omega)]
        simp [hmax]
      | succ m =>
        have heq : n = n + ((0 : ℕ) : ℤ) := by omega
        rw [utf8SubstrLoop_next hc cs str startpos hn hnpos (by omega)
          (fun _ => ⟨hend, by omega⟩), if_pos heq, show 0 + (m + 1) = m + 1 by omega,
          length_flatten_take_succ, ← add_assoc, List.length_cons]
        by_cases hfit : pos + c.length ≤ int32Max
        · rw [if_pos hfit, utf8SubstrLoop_count hcs str pos (by omega) (by omega) hend (by omega)
            (by omega) hfit m (by omega)]
          simp only [Nat.add_lt_add_iff_right, Nat.zero_lt_succ, if_true, List.take_zero,
            List.flatten_nil, List.length_nil, Nat.cast_zero, add_zero]
        · rw [if_neg hfit, if_neg (by omega)]
    | succ k =>
      have hne : ¬ n = n + ((k + 1 : ℕ) : ℤ) := by omega
      rw [utf8SubstrLoop_next hc cs str startpos hn hnpos (by omega)
        (fun _ => ⟨by omega, by omega⟩), if_neg hne,
        show n + ((k + 1 : ℕ) : ℤ) = n + 1 + k by omega, show k + 1 + m = k + m + 1 by omega,
        length_flatten_take_succ, length_flatten_take_succ, ← add_assoc, ← add_assoc,
        List.length_cons]
      by_cases hfit : pos + c.length ≤ int32Max
      · rw [if_pos hfit, ih hcs (by omega) (by omega) hfit k (by omega)]
        simp only [Nat.add_lt_add_iff_right]
      · rw [if_neg hfit, if_neg (by omega)]

/-- What was read has the length asked for. -/
lemma length_of_slice {mem b : Bytes} {pos : ℤ} {len : ℕ} (h : slice mem pos len = some b) :
    b.length = len := by
  rw [slice] at h
  split_ifs at h with hin
  rw [← Option.some.inj h, List.length_take, List.length_drop]
  omega

namespace Utf8String

variable (s : Utf8String)

/-- The bytes in front of a character are bytes of the string. -/
lemma before_le (i : ℕ) : s.before i ≤ s.str.length := by
  rw [before, str, ← List.take_append_drop i s.chars, List.flatten_append, List.length_append,
    List.take_append_drop]
  omega

/-- The string holds no terminator. -/
lemma zero_notMem_str : 0 ∉ s.str := zero_notMem_flatten s.isChar

/-- The loop of `utf8_substr_getpos` for a count. -/
lemma utf8SubstrLoop_zero_some {i k : ℕ} (hsum : i + k ≤ int32Max) :
    utf8SubstrLoop (s.str ++ [0]) i k (s.str ++ [0]) 0 0 (-1) =
      if s.before (i + k) ≤ int32Max then
        some (if i < s.size then (s.before i : ℤ) else -1,
          if i + k < s.size then (s.before (i + k) : ℤ) else -1, (s.before (i + k) : ℤ))
      else none := by
  have hloop := utf8SubstrLoop_some s.isChar (s.str ++ [0]) (-1) (le_refl 0) (le_refl 0) (by simp)
    i k (by omega)
  simp only [zero_add] at hloop
  exact hloop.trans (if_congr Nat.cast_le rfl rfl)

/-- The loop of `utf8_substr_getpos` for all that is left. -/
lemma utf8SubstrLoop_zero_all {i : ℕ} {nchar : ℤ} (hneg : nchar < 0) :
    utf8SubstrLoop (s.str ++ [0]) i nchar (s.str ++ [0]) 0 0 (-1) =
      if s.before i ≤ int32Max then
        some (if i < s.size then
          ((s.before i : ℤ), (Int32.ofNat s.str.length).toInt, (s.before i : ℤ))
          else (-1, -1, (s.before i : ℤ)))
      else none := by
  have hloop := utf8SubstrLoop_all s.isChar (s.str ++ [0]) (-1) hneg (le_refl 0) (le_refl 0)
    (by simp) i
  rw [cstr_append_zero s.zero_notMem_str] at hloop
  simp only [zero_add] at hloop
  exact hloop.trans (if_congr Nat.cast_le rfl rfl)

/-- A substring from a position from the start, for a count.

**Proof sketch.** The loop is `utf8SubstrLoop_some`. Without an end the position behind the last
character is taken, so the length is that of the characters between. -/
lemma utf8SubstrFrom_count {i k : ℕ} (hsum : i + k ≤ int32Max) :
    utf8SubstrFrom (s.str ++ [0]) k i =
      if s.before (i + k) ≤ int32Max then
        some (if i < s.size then
          some ((s.before i : ℤ), ((s.chars.drop i).take k).flatten.length) else none)
      else none := by
  have hadd := s.before_add i k
  rw [utf8SubstrFrom, s.utf8SubstrLoop_zero_some hsum]
  by_cases hfit : s.before (i + k) ≤ int32Max
  · simp only [if_pos hfit, Option.bind_eq_bind, Option.bind_some]
    by_cases hi : i < s.size
    · have hend : (if (if i + k < s.size then (s.before (i + k) : ℤ) else -1) < 0 then
          (s.before (i + k) : ℤ)
          else if i + k < s.size then (s.before (i + k) : ℤ) else -1) = s.before (i + k) := by
        split_ifs <;> omega
      have hlen : ((s.before (i + k) : ℤ) - s.before i).toNat =
          ((s.chars.drop i).take k).flatten.length := by
        omega
      simp only [if_pos hi]
      rw [hend, if_pos (by omega), if_pos (by omega), hlen]
    · simp only [if_neg hi]
      rfl
  · rw [if_neg hfit, if_neg hfit]
    rfl

/-- A substring of an empty string. -/
lemma utf8SubstrFrom_empty (hs : s.size = 0) (nchar start : ℤ) :
    utf8SubstrFrom (s.str ++ [0]) nchar start = some none := by
  rw [utf8SubstrFrom, str_append_zero, List.length_eq_zero_iff.mp hs, utf8SubstrLoop_nil]
  rfl

/-- A substring for a count that is too large to be added. -/
lemma utf8SubstrFrom_overflow (hs : 0 < s.size) {i k : ℕ} (hsum : ¬ i + k ≤ int32Max) :
    utf8SubstrFrom (s.str ++ [0]) k i = none := by
  obtain ⟨c, cs, hchars⟩ := List.exists_cons_of_length_pos hs
  obtain ⟨hc, hcs⟩ := List.forall_mem_cons.mp (hchars ▸ s.isChar)
  rw [utf8SubstrFrom, str_append_zero, hchars, utf8SubstrLoop_cons hc, if_neg (by omega),
    if_pos (by omega), intAdd, if_neg (by omega)]
  rfl

/-- A substring from a position from the start, for all that is left.

**Proof sketch.** The loop is `utf8SubstrLoop_all`. The end is the length of the string as an `int`,
or the position itself if this is negative. -/
lemma utf8SubstrFrom_all {i : ℕ} {nchar : ℤ} (hneg : nchar < 0) :
    utf8SubstrFrom (s.str ++ [0]) nchar i =
      if s.before i ≤ int32Max then
        if i < s.size then
          let size := (Int32.ofNat s.str.length).toInt
          let endpos := if size < 0 then (s.before i : ℤ) else size
          if endpos ≥ s.before i then
            some (some ((s.before i : ℤ), (endpos - s.before i).toNat)) else none
        else some none
      else none := by
  rw [utf8SubstrFrom, s.utf8SubstrLoop_zero_all hneg]
  by_cases hfit : s.before i ≤ int32Max
  · simp only [if_pos hfit, Option.bind_eq_bind, Option.bind_some]
    by_cases hi : i < s.size
    · simp only [if_pos hi]
      rw [if_pos (by omega)]
    · simp only [if_neg hi]
      rfl
  · rw [if_neg hfit, if_neg hfit]
    rfl

/-! ## Exactness -/

/-- What `utf8_substr_s` returns for the places that were found. -/
def substrOut (places : Option (Option (ℤ × ℕ))) : Option Bytes := do
  match ← places with
  | none => some []
  | some (startpos, size) => slice (s.str ++ [0]) startpos size

/-- **A substring stays in the range of `int`**, from a position from the start on: for all that is
left the size of the string does, else the sum of the two numbers and the size of what is in front
of the end. -/
structure SubstrAtFits (i : ℕ) (count : ℤ) : Prop where
  all : count < 0 → s.str.length ≤ int32Max
  sum : 0 ≤ count → 0 < s.size → i + count ≤ int32Max
  before : 0 ≤ count → s.before (i + count.toNat) ≤ int32Max

/-- A substring behind the end is empty. -/
lemma substrAt_of_size_le {i : ℕ} (h : s.size ≤ i) (count : ℤ) : s.substrAt i count = [] := by
  rw [substrAt, List.drop_of_length_le h]
  simp

/-- All that is left, from a position from the start on.

**Proof sketch.** If there is no such character, only the positions have to be in the range, the
last of which is the length. If there is one, what is taken is right exactly if the length is an
`int`; otherwise it wraps, and is not that of the rest. -/
lemma substrOut_all_iff (i : ℕ) {count : ℤ} (hneg : count < 0) :
    s.substrOut (utf8SubstrFrom (s.str ++ [0]) count i) = some (s.substrAt i count) ↔
      s.str.length ≤ int32Max := by
  rw [s.utf8SubstrFrom_all hneg]
  by_cases hi : s.size ≤ i
  · rw [s.before_of_size_le hi, s.substrAt_of_size_le hi, if_neg (show ¬ i < s.size by omega)]
    split_ifs with hfit
    · exact iff_of_true rfl hfit
    · exact iff_of_false (by simp [substrOut]) hfit
  · have hlt := s.before_lt (show i < s.size by omega) (by omega)
    rw [s.before_of_size_le le_rfl] at hlt
    have hdrop : s.substrAt i count = ((s.chars.drop i).take s.size).flatten := by
      rw [substrAt, if_pos hneg, List.take_of_length_le (by rw [List.length_drop, size]; omega)]
    have hlen : s.before i + (s.substrAt i count).length = s.str.length := by
      rw [hdrop, ← s.before_add, s.before_of_size_le (by omega)]
    have hslice := s.slice_before i s.size
    rw [← hdrop] at hslice
    rw [if_pos (show i < s.size by omega)]
    constructor
    · intro h
      by_contra hbig
      have hwrap := (Int32.ofNat s.str.length).toInt_lt
      rw [int32Max] at hbig
      split_ifs at h with hfit
      · simp only at h
        generalize hend : (if (Int32.ofNat s.str.length).toInt < 0 then (s.before i : ℤ)
          else (Int32.ofNat s.str.length).toInt) = endpos at h
        have hshort : endpos < s.str.length := by
          rw [← hend]
          split_ifs <;> omega
        split_ifs at h with hle
        · have := length_of_slice h
          omega
        · cases h
      · cases h
    · intro hfit
      have hcast : (Int32.ofNat s.str.length).toInt = s.str.length := by
        rw [int32Max] at hfit
        exact Int32.toInt_ofNat_of_lt (by omega)
      have hnonneg : ¬ (s.str.length : ℤ) < 0 := by omega
      simp only [hcast, if_neg hnonneg]
      rw [if_pos (by omega), if_pos (by omega),
        show ((s.str.length : ℤ) - s.before i).toNat = (s.substrAt i count).length by omega]
      exact hslice

/-- **A substring from a position from the start on** is right where it stays in the range.

**Proof sketch.** With a negative count this is `substrOut_all_iff`. Otherwise both positions, and
the sum of the two numbers if there is a character, have to be `int`, and then the bytes between are
the characters. -/
lemma substrOut_iff (i : ℕ) (count : ℤ) :
    s.substrOut (utf8SubstrFrom (s.str ++ [0]) count i) = some (s.substrAt i count) ↔
      s.SubstrAtFits i count := by
  by_cases hneg : count < 0
  · rw [s.substrOut_all_iff i hneg]
    exact ⟨fun h => ⟨fun _ => h, by omega, by omega⟩, fun h => h.all hneg⟩
  · obtain ⟨k, rfl⟩ := Int.eq_ofNat_of_zero_le (show 0 ≤ count by omega)
    have hslice := s.slice_before i k
    have hdrop : s.substrAt i k = ((s.chars.drop i).take k).flatten := by
      rw [substrAt, if_neg hneg, Int.toNat_natCast]
    have hfits : s.SubstrAtFits i k ↔
        (0 < s.size → i + k ≤ int32Max) ∧ s.before (i + k) ≤ int32Max := by
      refine ⟨fun h => ⟨fun hs => ?_, ?_⟩,
        fun h => ⟨fun h => by omega, fun _ hs => ?_, fun _ => ?_⟩⟩
      · have := h.sum (by omega) hs
        omega
      · simpa using h.before (by omega)
      · have := h.1 hs
        omega
      · simpa using h.2
    rw [hfits]
    by_cases hsum : i + k ≤ int32Max
    · rw [s.utf8SubstrFrom_count hsum]
      by_cases hfit : s.before (i + k) ≤ int32Max
      · rw [if_pos hfit]
        refine iff_of_true ?_ ⟨fun _ => hsum, hfit⟩
        by_cases hi : i < s.size
        · rw [if_pos hi, hdrop]
          exact hslice
        · rw [if_neg hi, s.substrAt_of_size_le (by omega)]
          rfl
      · rw [if_neg hfit]
        exact iff_of_false (by simp [substrOut]) fun h => hfit h.2
    · by_cases hs : s.size = 0
      · rw [s.utf8SubstrFrom_empty hs, s.substrAt_of_size_le (by omega),
          s.before_of_size_le (by omega), str, List.length_eq_zero_iff.mp hs]
        exact iff_of_true rfl ⟨fun _ => by omega, by simp⟩
      · rw [s.utf8SubstrFrom_overflow (by omega) hsum]
        exact iff_of_false (by simp [substrOut]) fun h => hsum (h.1 (by omega))

/-- **A substring stays in the range of `int`**: so do the length, where it is needed, and the
substring from the position from the start on, if there is one. -/
structure SubstrFits (start count : ℤ) : Prop where
  size : start < 0 → s.size ≤ int32Max
  front : 0 ≤ s.front start → s.SubstrAtFits (s.front start).toNat count

/-- **A substring** is right where it stays in the range of `int`.

**Proof sketch.** A position from the start is `substrOut_iff`. One from the end is first turned
into one from the start, for which the number of characters has to be an `int`. -/
lemma utf8SubstrS_iff (start count : Int32) :
    utf8SubstrS s.str start count = some (s.substrFrom start.toInt count.toInt) ↔
      s.SubstrFits start.toInt count.toInt := by
  have hout : utf8SubstrS s.str start count =
      s.substrOut (utf8SubstrGetpos (s.str ++ [0]) start.toInt count.toInt) := rfl
  have hmin : -(int32Max : ℤ) - 1 ≤ start.toInt := by
    have := start.le_toInt
    rw [int32Max]
    omega
  rw [hout, utf8SubstrGetpos, substrFrom]
  by_cases hpos : 0 ≤ start.toInt
  · have hiff := s.substrOut_iff start.toInt.toNat count.toInt
    rw [Int.toNat_of_nonneg hpos] at hiff
    have hfront := s.front_of_nonneg hpos
    rw [if_pos hpos, hfront, if_neg (by omega), hiff]
    exact ⟨fun h => ⟨by omega, fun _ => by rwa [hfront]⟩,
      fun h => by simpa only [hfront] using h.front (by rwa [hfront])⟩
  · rw [if_neg hpos, s.fromEnd_eq (by omega) hmin]
    by_cases hsize : s.size ≤ int32Max
    · rw [if_pos hsize]
      by_cases hfront : s.front start.toInt < 0
      · rw [if_pos hfront, if_pos hfront]
        exact iff_of_true rfl ⟨fun _ => hsize, by omega⟩
      · have hiff := s.substrOut_iff (s.front start.toInt).toNat count.toInt
        rw [Int.toNat_of_nonneg (by omega)] at hiff
        rw [if_neg hfront, if_neg hfront, hiff]
        exact ⟨fun h => ⟨fun _ => hsize, fun _ => h⟩, fun h => h.front (by omega)⟩
    · rw [if_neg hsize]
      exact iff_of_false (by simp [substrOut]) fun h => hsize (h.size (by omega))

/-- What is found when the place of a position is, where more of the memory may lie behind the
terminator. -/
lemma utf8StrposS_of_placeFrom {str rest : Bytes} (hstr : str ++ [0] = s.str ++ 0 :: rest)
    {pos : Int32}
    (hget : utf8StrposGetpos (str ++ [0]) pos.toInt = some (s.placeFrom pos.toInt)) :
    utf8StrposS str pos = some (s.charFrom pos.toInt) := by
  cases hplace : s.placeFrom pos.toInt with
  | none =>
    rw [hplace] at hget
    rw [s.charFrom_of_placeFrom_eq_none hplace, utf8StrposS, utf8Strpos, hget]
    rfl
  | some place =>
    obtain ⟨hchar, hlen, hslice⟩ := s.charFrom_of_placeFrom_eq_some hplace
    rw [hplace] at hget
    obtain ⟨startpos, len⟩ := place
    subst hlen
    refine utf8StrposS_of_getpos hchar hget ?_
    rw [hstr, ← List.singleton_append, ← List.append_assoc]
    exact slice_append_of_eq_some hslice rest

/-- **A character** is right where its lookup stays in the range of `int`. -/
lemma utf8StrposS_iff (pos : Int32) :
    utf8StrposS s.str pos = some (s.charFrom pos.toInt) ↔ s.PosFits pos.toInt := by
  have hmin : -(int32Max : ℤ) - 1 ≤ pos.toInt := by
    have := pos.le_toInt
    rw [int32Max]
    omega
  by_cases hfit : s.PosFits pos.toInt
  · exact iff_of_true (s.utf8StrposS_of_placeFrom rfl (s.utf8StrposGetpos_eq hfit hmin)) hfit
  · rw [utf8StrposS, utf8Strpos, s.utf8StrposGetpos_eq_none hfit hmin]
    exact iff_of_false (by simp) hfit

/-- **The characters are found by their numbers**: the length, the character at a position, and the
characters from a start on. -/
structure IndexesRight (pos start count : Int32) : Prop where
  strlen : utf8Strlen (s.str ++ [0]) = some (s.size : ℤ)
  strpos : utf8StrposS s.str pos = some (s.charFrom pos.toInt)
  substr : utf8SubstrS s.str start count = some (s.substrFrom start.toInt count.toInt)

/-- **All that is computed is an `int`**: the length, and what is looked up. -/
structure FitsInt (pos start count : ℤ) : Prop where
  size : s.size ≤ int32Max
  pos : s.PosFits pos
  substr : s.SubstrFits start count

/-- **The characters are found by their numbers** exactly where the sums that the lookups form are
in the range of `int`.

**Proof sketch.** The loops add up the sizes of the characters in front of the one that is looked
for. Where such a sum, or the sum of start and count, leaves the range, there is no result. The
length of the string, which is the end of a substring without a count, is not added up but
converted: a length that is no `int` becomes a smaller one, so that bytes are missing. -/
theorem indexesRight_iff (pos start count : Int32) :
    s.IndexesRight pos start count ↔ s.FitsInt pos.toInt start.toInt count.toInt := by
  have hstrlen : utf8Strlen (s.str ++ [0]) = some (s.size : ℤ) ↔ s.size ≤ int32Max := by
    rw [s.utf8Strlen_eq]
    split_ifs with hsize
    · exact iff_of_true rfl hsize
    · exact iff_of_false (by simp) hsize
  constructor
  · rintro ⟨hlen, hpos, hsub⟩
    exact ⟨hstrlen.mp hlen, (s.utf8StrposS_iff pos).mp hpos,
      (s.utf8SubstrS_iff start count).mp hsub⟩
  · rintro ⟨hlen, hpos, hsub⟩
    exact ⟨hstrlen.mpr hlen, (s.utf8StrposS_iff pos).mpr hpos,
      (s.utf8SubstrS_iff start count).mpr hsub⟩

/-- Two characters of one byte. -/
def ab : Utf8String where
  chars := [bytes "a", bytes "b"]
  isChar := by
    intro c hc
    obtain rfl | rfl : c = bytes "a" ∨ c = bytes "b" := by simpa using hc
    · exact ⟨⟨rfl, by simp⟩, by decide⟩
    · exact ⟨⟨rfl, by simp⟩, by decide⟩

/-- **The last character and all that follow**, with the largest count: start and count have a sum,
but the position that the start stands for and the count have none. -/
theorem not_indexesRight_ab :
    -1 + 2147483647 ≤ (int32Max : ℤ) ∧ ab.substrFrom (-1) 2147483647 = bytes "b" ∧
      utf8SubstrS ab.str (-1) 2147483647 ≠ some (bytes "b") ∧
        ¬ ab.IndexesRight 0 (-1) 2147483647 := by
  have hsub : ab.substrFrom (-1) 2147483647 = bytes "b" := by decide
  have hnot : ¬ ab.SubstrFits (-1) 2147483647 := by
    intro h
    have hsum := (h.front (by decide)).sum (by decide) (by decide)
    revert hsum
    decide
  have hne := fun h => hnot ((ab.utf8SubstrS_iff (-1) 2147483647).mp h)
  exact ⟨by decide, hsub, fun h => hne (h.trans (congrArg some hsub.symm)), fun h => hne h.substr⟩

/-! ## The substring between two characters -/

end Utf8String

/-- The position that a number of Lua stands for among so many characters, counted from the end
where it is negative. Zero is looked up as one is. -/
def place (size : ℕ) (pos : ℤ) : ℤ := if 0 < pos then pos - 1 else if pos < 0 then size + pos else 0

/-- There is a character at a position. -/
def HasChar (cs : List Bytes) (i : ℤ) : Prop := 0 ≤ i ∧ i < cs.length

instance (cs : List Bytes) (i : ℤ) : Decidable (HasChar cs i) := inferInstanceAs (Decidable (_ ∧ _))

/-- The characters from one to another, empty if there is none or they stand the other way round. -/
def charsBetween (cs : List Bytes) (start last : ℤ) : Bytes :=
  let i := place cs.length start
  let j := place cs.length last
  if HasChar cs i ∧ HasChar cs j ∧ i ≤ j then ((cs.drop i.toNat).take (j + 1 - i).toNat).flatten
  else []

namespace Utf8String

variable (s : Utf8String)

/-- The position that a number of Lua stands for is the one that is looked up. -/
lemma front_zeroBased (pos : ℤ) : s.front (zeroBased pos) = place s.size pos := by
  rw [front, zeroBased, place]
  split_ifs <;> omega

/-- A lookup finds the characters that there are. -/
lemma placeFrom_zeroBased (pos : ℤ) :
    (HasChar s.chars (place s.size pos) ∧ s.placeFrom (zeroBased pos) =
        some ((s.before (place s.size pos).toNat : ℤ),
          s.before ((place s.size pos).toNat + 1) - s.before (place s.size pos).toNat)) ∨
      ¬ HasChar s.chars (place s.size pos) ∧ s.placeFrom (zeroBased pos) = none := by
  rw [placeFrom, s.front_zeroBased]
  by_cases hneg : place s.size pos < 0
  · exact .inr ⟨fun hchar => absurd hchar.1 (by omega), if_pos hneg⟩
  · rw [if_neg hneg]
    by_cases hi : (place s.size pos).toNat < s.size
    · have hi' : (place s.size pos).toNat < s.chars.length := hi
      refine .inl ⟨⟨by omega, by omega⟩, ?_⟩
      rw [List.getElem?_eq_getElem hi, Option.map_some, s.before_succ hi, Nat.add_sub_cancel_left]
      rfl
    · have hi' : ¬ (place s.size pos).toNat < s.chars.length := hi
      refine .inr ⟨fun hchar => absurd hchar.2 (by omega), ?_⟩
      rw [List.getElem?_eq_none (by omega), Option.map_none]

/-- The memory between two characters, the second not in front of the first. -/
lemma slice_between {i j : ℕ} (h : i ≤ j + 1) (hj : j < s.size) (hfit : s.before j ≤ int32Max) :
    slice (s.str ++ [0]) (s.before i)
        (((s.before j : ℤ) + (s.before (j + 1) - s.before j : ℕ) - s.before i) % 2 ^ 64).toNat =
      some ((s.chars.drop i).take (j + 1 - i)).flatten := by
  have hslice := s.slice_before i (j + 1 - i)
  have hadd := s.before_add i (j + 1 - i)
  have hsucc := s.before_succ hj
  have hc := (s.isChar _ (s.chars.get_mem ⟨j, hj⟩)).length_le
  rw [show i + (j + 1 - i) = j + 1 by omega] at hadd
  rw [int32Max] at hfit
  rw [Int.emod_eq_of_lt (by omega) (by omega),
    show ((s.before j : ℤ) + (s.before (j + 1) - s.before j : ℕ) - s.before i).toNat =
      ((s.chars.drop i).take (j + 1 - i)).flatten.length by omega]
  exact hslice

/-- The memory between two characters, others being between the second and the first: it would have
to be nearly as large as all that there can be. -/
lemma slice_wrap {i j : ℕ} (h : j + 1 < i) (hi : i < s.size) (hfit : s.before i ≤ int32Max)
    (hlen : s.str.length < 2 ^ 64) :
    slice (s.str ++ [0]) (s.before i)
        (((s.before j : ℤ) + (s.before (j + 1) - s.before j : ℕ) - s.before i) % 2 ^ 64).toNat =
      none := by
  have hmono := s.before_mono (show j ≤ j + 1 by omega)
  have hfirst := s.before_lt (show j < j + 1 by omega) (by omega)
  have hlt := s.before_lt h (by omega)
  rw [int32Max] at hfit
  rw [← Int.add_emod_right, Int.emod_eq_of_lt (by omega) (by omega), slice, if_neg]
  rintro ⟨-, hmem⟩
  rw [List.length_append, List.length_singleton] at hmem
  omega

/-- **What is pushed for two characters**: what is between them, unless others are between the
second and the first.

**Proof sketch.** What is pushed begins at the first character and ends behind the second. If the
second one is further in front, the length is negative, and as a `size_t` it reaches out of the
string. -/
lemma slice_of_hasChar {start last : ℤ} (hi : HasChar s.chars (place s.size start))
    (hj : HasChar s.chars (place s.size last))
    (hfit : s.before (place s.size start).toNat ≤ int32Max)
    (hfit' : s.before (place s.size last).toNat ≤ int32Max) (hlen : s.str.length < 2 ^ 64) :
    slice (s.str ++ [0]) (s.before (place s.size start).toNat)
        (((s.before (place s.size last).toNat : ℤ) +
          (s.before ((place s.size last).toNat + 1) - s.before (place s.size last).toNat : ℕ) -
            s.before (place s.size start).toNat) % 2 ^ 64).toNat =
      if place s.size start ≤ place s.size last + 1 then some (charsBetween s.chars start last)
      else none := by
  have hpos := hi.1
  have hpos' := hj.1
  have hlt : place s.size start < s.size := hi.2
  have hlt' : place s.size last < s.size := hj.2
  have hbetween : charsBetween s.chars start last =
      if place s.size start ≤ place s.size last then
        ((s.chars.drop (place s.size start).toNat).take
          (place s.size last + 1 - place s.size start).toNat).flatten
      else [] :=
    if_congr ⟨fun h => h.2.2, fun h => ⟨hi, hj, h⟩⟩ rfl rfl
  by_cases horder : place s.size start ≤ place s.size last + 1
  · rw [if_pos horder, s.slice_between (by omega) (by omega) hfit', hbetween]
    split_ifs with hle
    · rw [show (place s.size last).toNat + 1 - (place s.size start).toNat =
        (place s.size last + 1 - place s.size start).toNat by omega]
    · rw [show (place s.size last).toNat + 1 - (place s.size start).toNat = 0 by omega,
        List.take_zero, List.flatten_nil]
  · rw [if_neg horder]
    exact s.slice_wrap (by omega) (by omega) hfit hlen

/-- **A substring between two characters is in order**: both lookups stay in the range of `int`, and
there are no characters between the last one and the first. -/
structure SubFits (start last : ℤ) : Prop where
  startFits : s.PosFits (zeroBased start)
  lastFits : s.PosFits (zeroBased last)
  order : HasChar s.chars (place s.size start) → HasChar s.chars (place s.size last) →
    place s.size start ≤ place s.size last + 1

/-- A number that has been cut is an `int`. -/
lemma le_zeroBased_luaCheckint (n : ℤ) : -(int32Max : ℤ) - 1 ≤ zeroBased (luaCheckint n) := by
  have hint : ∀ x : Int32, -(int32Max : ℤ) - 1 ≤ zeroBased x.toInt := by
    intro x
    have := x.le_toInt
    rw [int32Max, zeroBased]
    split_ifs <;> omega
  rw [luaCheckint]
  split_ifs
  · exact hint _
  · exact hint _

/-- **What is pushed for a C string**: the characters that the cut numbers stand for, where they are
in order, and else bytes from outside.

**Proof sketch.** Each of the two places is looked for (`utf8StrposGetpos_eq_none` where there is an
overflow). If both have a character, `slice_of_hasChar` says what is pushed; if one has none, it is
the empty string in the cases that the source tests for. -/
lemma luaUtf8Sub_of_cstr {str : Bytes} (hstr : cstr str = s.str) (hlen : s.str.length < 2 ^ 64)
    (start last : ℤ) [Decidable (s.SubFits (luaCheckint start) (luaCheckint last))] :
    luaUtf8Sub str start last =
      if s.SubFits (luaCheckint start) (luaCheckint last) then
        some (charsBetween s.chars (luaCheckint start) (luaCheckint last))
      else none := by
  have hmin := le_zeroBased_luaCheckint start
  have hmin' := le_zeroBased_luaCheckint last
  rw [luaUtf8Sub, hstr]
  generalize luaCheckint start = p at *
  generalize luaCheckint last = q at *
  by_cases hs : s.PosFits (zeroBased p)
  swap
  · rw [if_neg fun h => hs h.startFits, s.utf8StrposGetpos_eq_none hs hmin]
    rfl
  by_cases hl : s.PosFits (zeroBased q)
  swap
  · rw [if_neg fun h => hl h.lastFits]
    simp only [s.utf8StrposGetpos_eq hs hmin, s.utf8StrposGetpos_eq_none hl hmin',
      Option.bind_eq_bind, Option.bind_some, Option.bind_none]
  simp only [s.utf8StrposGetpos_eq hs hmin, s.utf8StrposGetpos_eq hl hmin', Option.bind_eq_bind,
    Option.bind_some]
  obtain ⟨hi, hplace⟩ | ⟨hi, hplace⟩ := s.placeFrom_zeroBased p
  · obtain ⟨hj, hplace'⟩ | ⟨hj, hplace'⟩ := s.placeFrom_zeroBased q
    · have hfit := hs.before
      have hfit' := hl.before
      rw [s.front_zeroBased] at hfit hfit'
      rw [hplace, hplace']
      exact (s.slice_of_hasChar hi hj hfit hfit' hlen).trans
        (if_congr ⟨fun h => ⟨hs, hl, fun _ _ => h⟩, fun h => h.order hi hj⟩ rfl rfl)
    · rw [if_pos ⟨hs, hl, fun _ h => absurd h hj⟩, hplace, hplace', charsBetween,
        if_neg (fun h => hj h.2.1)]
  · rw [if_pos ⟨hs, hl, fun h => absurd h hi⟩, hplace, charsBetween, if_neg (fun h => hi h.1)]

end Utf8String

/-- **A valid UTF-8 string of Lua**, as the sequence of its characters. NUL is one of them, and the
size is a `size_t`. -/
structure LuaString where
  /-- The characters. -/
  chars : List Bytes
  isPiece : ∀ c ∈ chars, Pieces.IsPiece leadSize IsTail c
  length_lt : chars.flatten.length < 2 ^ 64

namespace LuaString

/-- The bytes. -/
def str (t : LuaString) : Bytes := t.chars.flatten

/-- A character that is not NUL holds no terminator. -/
lemma isChar_of_ne {c : Bytes} (hc : Pieces.IsPiece leadSize IsTail c) (hne : c ≠ [0]) :
    IsChar c := by
  refine ⟨hc, fun hmem => ?_⟩
  cases c with
  | nil => exact hc
  | cons b l =>
    obtain ⟨hsize, htails⟩ := hc
    rcases List.mem_cons.mp hmem with rfl | hl
    · -- nothing follows a NUL
      have hnil : l.length = 0 := by
        have hzero : leadSize 0 = some 0 := by decide
        exact (Option.some.inj (hzero.symm.trans hsize)).symm
      exact hne (by rw [List.length_eq_zero_iff.mp hnil])
    · exact absurd (htails 0 hl) (by unfold IsTail; decide)

/-- The C string that is in it: the characters in front of the first NUL. -/
def cString (t : LuaString) : Utf8String where
  chars := t.chars.takeWhile (· ≠ [0])
  isChar c hc := isChar_of_ne (t.isPiece c ((List.takeWhile_prefix _).subset hc))
    (by simpa using List.mem_takeWhile_imp hc)

/-- It is what a function of C sees of the string. -/
lemma cstr_str (t : LuaString) : cstr t.str = t.cString.str := by
  obtain ⟨cs, hcs, hlen⟩ := t
  change cstr cs.flatten = (cs.takeWhile (· ≠ [0])).flatten
  clear hlen
  induction cs with
  | nil => rfl
  | cons c cs ih =>
    obtain ⟨hc, hcs⟩ := List.forall_mem_cons.mp hcs
    by_cases hnul : c = [0]
    · rw [List.takeWhile_cons_of_neg (by simp [hnul]), hnul]
      rfl
    · have hzero := (isChar_of_ne hc hnul).nonzero
      rw [List.takeWhile_cons_of_pos (by simp [hnul]), List.flatten_cons, List.flatten_cons,
        ← ih hcs, cstr, List.takeWhile_append_of_pos]
      · rfl
      · intro x hx
        simpa using fun h : x = 0 => hzero (h ▸ hx)

/-- **A substring between two characters is in order**: in the part in front of the first NUL both
lookups stay in the range of `int`, with no characters between the last one and the first, and what
the cut numbers stand for there is what the numbers stand for in the string. -/
structure SubFits (t : LuaString) (start last : ℤ) : Prop where
  fits : t.cString.SubFits (luaCheckint start) (luaCheckint last)
  same : charsBetween t.cString.chars (luaCheckint start) (luaCheckint last) =
    charsBetween t.chars start last

/-- The numbers stand for the same where they are of type `int` and the string holds no NUL. -/
lemma SubFits.of_int {t : LuaString} (h0 : 0 ∉ t.str) {start last : Int32}
    (h : t.cString.SubFits start.toInt last.toInt) : t.SubFits start.toInt last.toInt := by
  have hcut : ∀ x : Int32, luaCheckint x.toInt = x.toInt := by
    intro x
    have hle := x.le_toInt
    have hlt := x.toInt_lt
    rw [luaCheckint, if_pos ⟨by omega, by omega⟩, Int32.ofInt_toInt]
  have hall : t.cString.chars = t.chars := by
    refine List.takeWhile_eq_self_iff.mpr fun c hc => ?_
    have hne : c ≠ [0] := fun h => h0 (List.mem_flatten.mpr ⟨c, hc, by simp [h]⟩)
    simpa using hne
  refine ⟨?_, ?_⟩
  · rw [hcut, hcut]
    exact h
  · rw [hcut, hcut, hall]

/-- **The substring between two characters** is right exactly where both lookups stay in the range
of `int`, there are no characters between the last one and the first, and neither a NUL nor the cut
of the numbers to `int` changes what they stand for.

**Proof sketch.** The length is the difference of the place behind the last character and the place
of the first. It is not negative if the first comes right behind the last, or earlier; else it is
taken modulo the range of `size_t`, and no string has so many bytes. -/
theorem luaUtf8Sub_eq_iff (t : LuaString) (start last : ℤ) :
    luaUtf8Sub t.str start last = some (charsBetween t.chars start last) ↔
      t.SubFits start last := by
  classical
  have hlen : t.cString.str.length < 2 ^ 64 := by
    rw [← t.cstr_str]
    exact lt_of_le_of_lt (List.takeWhile_prefix _).length_le t.length_lt
  rw [t.cString.luaUtf8Sub_of_cstr t.cstr_str hlen]
  split_ifs with h
  · rw [Option.some_inj]
    exact ⟨fun hsame => ⟨h, hsame⟩, fun hfits => hfits.same⟩
  · exact iff_of_false (by simp) fun hfits => h hfits.fits

/-- Three characters of one byte, for the examples. -/
def abc : LuaString where
  chars := [bytes "a", bytes "b", bytes "c"]
  isPiece := by
    intro c hc
    obtain rfl | rfl | rfl : c = bytes "a" ∨ c = bytes "b" ∨ c = bytes "c" := by simpa using hc
    · exact ⟨rfl, by simp⟩
    · exact ⟨rfl, by simp⟩
    · exact ⟨rfl, by simp⟩
  length_lt := by decide

/-- The second and the last character, the way they should be. -/
theorem luaUtf8Sub_abc : luaUtf8Sub abc.str 2 (-1) = some (bytes "bc") := by
  refine (abc.luaUtf8Sub_eq_iff 2 (-1)).mpr
    (@SubFits.of_int abc (by decide) 2 (-1) ⟨⟨?_, ?_⟩, ⟨?_, ?_⟩, ?_⟩)
  all_goals decide

/-- **From the third character to the first**: the string that should be pushed is empty, and bytes
are read from behind the string. **From a character that is far behind the last one**: the string
should be empty as well, and the first character is pushed. -/
theorem luaUtf8Sub_abc_eq_none :
    charsBetween abc.chars 3 1 = [] ∧ luaUtf8Sub abc.str 3 1 = none ∧
      charsBetween abc.chars 4294967297 4294967297 = [] ∧
        luaUtf8Sub abc.str 4294967297 4294967297 = some (bytes "a") := by
  classical
  have hlen : abc.cString.str.length < 2 ^ 64 := by decide
  refine ⟨by decide, ?_, by decide, ?_⟩
  · rw [abc.cString.luaUtf8Sub_of_cstr abc.cstr_str hlen, if_neg]
    intro h
    have horder := h.order (by decide) (by decide)
    revert horder
    decide
  · rw [abc.cString.luaUtf8Sub_of_cstr abc.cstr_str hlen,
      if_pos ⟨⟨by decide, by decide⟩, ⟨by decide, by decide⟩, by decide⟩]
    decide

end LuaString

/-! ## A character with anything behind it -/

/-- The encoding of a character is a piece of the grammar.

**Proof sketch.** By the four classes: the first byte announces as many tail bytes as there are. -/
lemma isPiece_utf8EncodeChar (x : Char) :
    Pieces.IsPiece leadSize IsTail (String.utf8EncodeChar x) := by
  have htail : ∀ x < 0x40, IsTail (tailByte x) := by
    unfold IsTail
    decide
  rcases utf8EncodeChar_cases x with ⟨h, henc⟩ | ⟨w, hw, x, hx, -, -, henc⟩ |
    ⟨w, hw, x, hx, y, hy, -, -, -, henc⟩ | ⟨w, hw, x, hx, y, hy, z, hz, -, -, -, henc⟩
  · have hlead : ∀ v < 0x80, leadSize (UInt8.ofNat v) = some 0 := by decide
    rw [henc]
    exact ⟨hlead _ h, by simp⟩
  · obtain ⟨-, h1, h2, -⟩ := lead2_spec w hw
    rw [henc]
    refine ⟨?_, by simpa using htail x hx⟩
    rw [leadSize, if_neg h1, if_pos h2]
    rfl
  · obtain ⟨-, h1, h2, h3, -⟩ := lead3_spec w hw
    rw [henc]
    refine ⟨?_, by simpa using ⟨htail x hx, htail y hy⟩⟩
    rw [leadSize, if_neg h1, if_neg h2, if_pos h3]
    rfl
  · obtain ⟨-, h1, h2, h3, h4, -⟩ := lead4_spec w hw
    rw [henc]
    refine ⟨?_, by simpa using ⟨htail x hx, htail y hy, htail z hz⟩⟩
    rw [leadSize, if_neg h1, if_neg h2, if_neg h3, if_pos h4]
    rfl

/-- The encoding of a character but NUL is a character of the grammar. -/
lemma isChar_utf8EncodeChar {x : Char} (hx : x.val ≠ 0) : IsChar (String.utf8EncodeChar x) :=
  ⟨isPiece_utf8EncodeChar x, zero_notMem_utf8EncodeChar hx⟩

/-- **A character from the start**, where more of the memory lies behind the terminator.

**Proof sketch.** The loop looks at the characters in front of the terminator only
(`utf8StrposLoop_eq`), so what lies behind it does not matter; the bytes of the character are then
read at its place. -/
lemma Utf8String.utf8StrposS_of_append (s : Utf8String) {str rest : Bytes}
    (hstr : str ++ [0] = s.str ++ 0 :: rest) {pos : Int32} (hpos : 0 ≤ pos.toInt) :
    utf8StrposS str pos =
      if s.before pos.toInt.toNat ≤ int32Max then some (s.charFrom pos.toInt) else none := by
  have hloop := utf8StrposLoop_eq s.isChar rest (le_refl 0) (le_refl 0) (by simp) pos.toInt.toNat
  rw [Int.toNat_of_nonneg hpos, zero_add, zero_add] at hloop
  have hget : utf8StrposGetpos (s.str ++ 0 :: rest) pos.toInt =
      if s.before pos.toInt.toNat ≤ int32Max then some (s.placeFrom pos.toInt) else none := by
    have hplace : s.placeFrom pos.toInt =
        s.chars[pos.toInt.toNat]?.map fun c => ((s.before pos.toInt.toNat : ℤ), c.length) := by
      rw [Utf8String.placeFrom, s.front_of_nonneg hpos, if_neg (by omega)]
    rw [utf8StrposGetpos, if_pos hpos, hplace]
    exact hloop.trans (if_congr Nat.cast_le rfl rfl)
  split_ifs with hfit
  · rw [if_pos hfit] at hget
    exact s.utf8StrposS_of_placeFrom hstr (by rw [hstr, hget])
  · rw [if_neg hfit] at hget
    rw [utf8StrposS, utf8Strpos, hstr, hget]
    rfl

/-- **The first character**, whatever is behind it. -/
lemma utf8StrposS_first {c : Bytes} (hc : IsChar c) (rest : Bytes) :
    utf8StrposS (c ++ rest) 0 = some c := by
  have hslice : slice (c ++ rest ++ [0]) 0 c.length = some c := by
    have := Utf8String.slice_append [] c (rest ++ [0])
    simpa using this
  have hget : utf8StrposGetpos (c ++ rest ++ [0]) 0 = some (some (0, c.length)) := by
    rw [utf8StrposGetpos, if_pos (by omega), List.append_assoc, utf8StrposLoop_append hc,
      if_pos rfl]
  exact utf8StrposS_of_getpos hc hget hslice

/-- **The second character**, whatever is behind it. -/
lemma utf8StrposS_second {c d : Bytes} (hc : IsChar c) (hd : IsChar d) (rest : Bytes) :
    utf8StrposS (c ++ (d ++ rest)) 1 = some d := by
  have hle := hc.length_le
  have hslice : slice (c ++ (d ++ rest) ++ [0]) c.length d.length = some d := by
    have := Utf8String.slice_append c d (rest ++ [0])
    simpa using this
  have hget : utf8StrposGetpos (c ++ (d ++ rest) ++ [0]) 1 =
      some (some ((c.length : ℤ), d.length)) := by
    have h1 : intAdd 0 c.length = some (c.length : ℤ) := by
      rw [intAdd, if_pos (by rw [int32Max]; omega), Int.zero_add]
    rw [utf8StrposGetpos, if_pos (by omega), List.append_assoc, utf8StrposLoop_append hc,
      if_neg (by omega), h1, List.append_assoc]
    exact (utf8StrposLoop_append hd _ _ _ _).trans (if_pos rfl)
  exact utf8StrposS_of_getpos hd hget hslice

end Meowbot
