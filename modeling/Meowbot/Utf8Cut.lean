import Mathlib.Order.Bounds.Basic
import Meowbot.Utf8Index

set_option relaxedAutoImplicit false
set_option autoImplicit false

/-!
# Cutting between characters (`utf8_impl.c`)

`utf8_cut_by_size` looks for the last place of a string, up to some size, at which no character is
cut. It goes back from there over the later bytes of a character, to a byte of another kind; the
size of the character that starts with it tells whether the character is cut.

The length of the string and the result are of type `int`, the size is a `size_t`.

## Main definitions

* `Meowbot.utf8CutBySize` — the source.
* `Meowbot.Utf8String.Boundaries` — the places between the characters of a string.

## Main results

* `Meowbot.utf8CutBySize_spec` — a string is cut within the size, and nothing else is read; a string
  of the grammar is cut at the last place between two characters.
-/

namespace Meowbot

/-! ## The source -/

/-- The assignment of a number to an `int`. -/
def asInt (n : ℤ) : ℤ := (Int32.ofInt n).toInt

/-- The conversion of an `int` to `size_t`. -/
def asSize (n : ℤ) : ℕ := (n % 2 ^ 64).toNat

/-- The loop of `utf8_cut_by_size`, `p` being the place in front of some number of bytes. It goes
back to the first byte of a character, which is kept if it ends within the size; reading outside of
the memory has no result. -/
def utf8CutLoop (utf8str : Bytes) (maxsize : ℕ) : ℕ → Option ℤ
  | 0 => some 0
  | p + 1 => do
    let b ← utf8str[p]?
    let c := b &&& 0xc0
    if c = 0xc0 then
      let cs ← utf8GetsizeCharMem (utf8str.drop p)
      if 0 < cs then
        let res := asInt (p + (cs - 1) + 1)
        if maxsize < asSize res then some (asInt p) else some res
      else utf8CutLoop utf8str maxsize p
    else if c ≠ 0x80 then some (asInt (p + 1))
    else utf8CutLoop utf8str maxsize p

/-- `utf8_cut_by_size`, on the memory from the string on. -/
def utf8CutBySize (utf8str : Bytes) (len : Int32) (maxsize : ℕ) : Option ℤ :=
  let len := if len.toInt < 0 then asInt (cstr utf8str).length else len.toInt
  if asSize len ≤ maxsize then some len else utf8CutLoop utf8str maxsize maxsize

/-- A number that is an `int` is assigned as it is. -/
lemma asInt_natCast {n : ℕ} (h : n ≤ int32Max) : asInt n = n := by
  rw [int32Max] at h
  exact Int32.toInt_ofInt_of_le (by omega) (by omega)

/-- A number that is not negative is converted as it is. -/
lemma asSize_natCast {n : ℕ} (h : n ≤ int32Max) : asSize n = n := by
  rw [int32Max] at h
  rw [asSize, Int.emod_eq_of_lt (by omega) (by omega), Int.toNat_natCast]

/-- The call with the length left open, for a string the length of which is an `int`. -/
lemma utf8CutBySize_eq {str : Bytes} (h : 0 ∉ str) (hlen : str.length ≤ int32Max) (maxsize : ℕ) :
    utf8CutBySize (str ++ [0]) (-1) maxsize =
      if str.length ≤ maxsize then some (str.length : ℤ)
      else utf8CutLoop (str ++ [0]) maxsize maxsize := by
  rw [utf8CutBySize, cstr_append_zero h, asInt_natCast hlen, if_pos (show (-1 : Int32).toInt < 0 by
    decide), asSize_natCast hlen]

/-! ## Bytes of all kinds -/

/-- A byte string from one of its bytes on. -/
lemma exists_drop_eq_cons {str : Bytes} (h : 0 ∉ str) {p : ℕ} (hp : p < str.length) :
    ∃ b cs, b ≠ 0 ∧ 0 ∉ cs ∧ str.drop p = b :: cs ∧ (str ++ [0])[p]? = some b ∧
      (str ++ [0]).drop p = b :: (cs ++ [0]) := by
  have hdrop := List.drop_eq_getElem_cons hp
  have hzero : 0 ∉ str.drop p := fun h0 => h (List.mem_of_mem_drop h0)
  rw [hdrop] at hzero
  obtain ⟨hb, hcs⟩ := List.ne_and_not_mem_of_not_mem_cons hzero
  refine ⟨str[p], str.drop (p + 1), hb.symm, hcs, hdrop, ?_, ?_⟩
  · rw [List.getElem?_append_left hp, List.getElem?_eq_getElem hp]
  · rw [List.drop_append_of_le_length hp.le, hdrop, List.cons_append]

/-- One round of the loop, at a byte of the string. -/
lemma utf8CutLoop_succ {mem : Bytes} {p : ℕ} {b : Byte} {n : ℤ} (maxsize : ℕ)
    (hget : mem[p]? = some b) (hsize : utf8GetsizeCharMem (mem.drop p) = some n) :
    utf8CutLoop mem maxsize (p + 1) =
      if b &&& 0xc0 = 0xc0 then
        if 0 < n then
          if maxsize < asSize (asInt (p + (n - 1) + 1)) then some (asInt p)
          else some (asInt (p + (n - 1) + 1))
        else utf8CutLoop mem maxsize p
      else if b &&& 0xc0 ≠ 0x80 then some (asInt (p + 1))
      else utf8CutLoop mem maxsize p := by
  rw [utf8CutLoop, hget, hsize]
  rfl

/-- **The loop stays in the string**: from a place in the string on it ends at a place that is no
greater, or at the end of a character within the size.

**Proof sketch.** By induction on the place. Where the size of a character is positive and it ends
within the size, the loop ends at its end; otherwise it goes back by one, and ends at the front at
the latest. -/
lemma exists_utf8CutLoop {str : Bytes} (h : 0 ∉ str) (hlen : str.length ≤ int32Max) (maxsize : ℕ)
    {p : ℕ} (hp : p ≤ str.length) (hmax : p ≤ maxsize) :
    ∃ r : ℕ, utf8CutLoop (str ++ [0]) maxsize p = some (r : ℤ) ∧ r ≤ maxsize ∧
      r ≤ str.length := by
  induction p with
  | zero => exact ⟨0, rfl, by omega, by omega⟩
  | succ p ih =>
    obtain ⟨b, cs, hb, hcs, hdrop, hget, hmem⟩ := exists_drop_eq_cons h (Nat.lt_of_succ_le hp)
    obtain ⟨n, hn, hle⟩ := exists_utf8GetsizeCharMem hb hcs
    have hrest := congrArg List.length hdrop
    rw [List.length_drop, List.length_cons] at hrest
    rw [utf8CutLoop_succ maxsize hget (hmem ▸ hn)]
    split_ifs with hlead hpos hbig hascii
    · exact ⟨p, by rw [asInt_natCast (by omega)], by omega, by omega⟩
    · obtain ⟨k, rfl⟩ := Int.eq_ofNat_of_zero_le hpos.le
      have hres : (p : ℤ) + (k - 1) + 1 = (p + k : ℕ) := by omega
      rw [hres, asInt_natCast (by omega)] at hbig ⊢
      rw [asSize_natCast (by omega)] at hbig
      exact ⟨p + k, rfl, by omega, by omega⟩
    · exact ih (by omega) (by omega)
    · exact ⟨p + 1, by rw [← asInt_natCast (show p + 1 ≤ int32Max by omega)]; rfl, hmax, hp⟩
    · exact ih (by omega) (by omega)

/-! ## Characters -/

/-- The kinds of first bytes: those of the characters of one byte, and the others. -/
lemma and_of_leadSize {b : Byte} {n : ℕ} (h : leadSize b = some n) :
    (n = 0 ∧ b &&& 0xc0 ≠ 0xc0 ∧ b &&& 0xc0 ≠ 0x80) ∨ b &&& 0xc0 = 0xc0 := by
  have hbytes : ∀ b, ((leadSize b).all fun n =>
      (n = 0 ∧ b &&& 0xc0 ≠ 0xc0 ∧ b &&& 0xc0 ≠ 0x80) ∨ b &&& 0xc0 = 0xc0) = true :=
    forall_byte (by decide +kernel)
  have hb := hbytes b
  rw [h] at hb
  exact of_decide_eq_true hb

namespace Utf8String

variable (s : Utf8String)

/-- The places between the characters, the ends of the string included. -/
def Boundaries : Set ℕ := Set.range s.before

/-- The memory from a character on. -/
lemma drop_before (i : ℕ) : (s.str ++ [0]).drop (s.before i) = charMem (s.chars.drop i) := by
  have hstr : s.str ++ [0] = (s.chars.take i).flatten ++ charMem (s.chars.drop i) := by
    rw [charMem, ← List.append_assoc, ← List.flatten_append, List.take_append_drop, str]
  rw [hstr, before, List.drop_left]

/-- **The character that holds a byte** of the string. -/
lemma exists_before_lt {n : ℕ} (hn : 0 < n) (hle : n ≤ s.str.length) :
    ∃ i < s.size, s.before i < n ∧ n ≤ s.before (i + 1) := by
  have hall : ∀ k, n ≤ s.before k → ∃ i < k, s.before i < n ∧ n ≤ s.before (i + 1) := by
    intro k
    induction k with
    | zero =>
      intro h
      rw [show s.before 0 = 0 from rfl] at h
      omega
    | succ k ih =>
      intro h
      by_cases hk : n ≤ s.before k
      · obtain ⟨i, hi, hin⟩ := ih hk
        exact ⟨i, by omega, hin⟩
      · exact ⟨k, by omega, by omega, h⟩
  exact hall s.size (by rwa [s.before_of_size_le le_rfl])

/-- A byte of a character is at its place. -/
lemma getElem?_before_add {i k : ℕ} {ch : Bytes} {cs : List Bytes}
    (hdrop : s.chars.drop i = ch :: cs) (hk : k < ch.length) :
    (s.str ++ [0])[s.before i + k]? = some ch[k] := by
  rw [← List.getElem?_drop, s.drop_before, hdrop, charMem_cons, List.getElem?_append_left hk,
    List.getElem?_eq_getElem hk]

/-- The end of a character if it is within the size, else its start. -/
def cutAround (i maxsize : ℕ) : ℕ :=
  if s.before (i + 1) ≤ maxsize then s.before (i + 1) else s.before i

/-- The loop at the first byte of a character.

**Proof sketch.** The character is measured where it begins, so its size is its length. If it ends
within the size the cut is behind it, otherwise in front of it. -/
lemma utf8CutLoop_lead (hlen : s.str.length ≤ int32Max) {i maxsize : ℕ} (hi : i < s.size)
    (hmax : s.before i < maxsize) :
    utf8CutLoop (s.str ++ [0]) maxsize (s.before i + 1) = some (s.cutAround i maxsize : ℤ) := by
  have hle := s.before_le (i + 1)
  have hsucc := s.before_succ hi
  have hdrop : s.chars.drop i = s.chars.get ⟨i, hi⟩ :: s.chars.drop (i + 1) :=
    List.drop_eq_getElem_cons hi
  have hchar := s.isChar _ (s.chars.get_mem ⟨i, hi⟩)
  generalize s.chars.get ⟨i, hi⟩ = c at hsucc hdrop hchar
  obtain ⟨b', bs, -, hmem, hsize, -⟩ := exists_charMem_cons hchar (s.chars.drop (i + 1))
  rw [← hmem, ← hdrop, ← s.drop_before] at hsize
  match c, hchar.piece with
  | b :: l, ⟨hlead, _⟩ =>
    have hget : (s.str ++ [0])[s.before i]? = some b :=
      s.getElem?_before_add hdrop (k := 0) (by simp)
    rw [List.length_cons] at hsucc
    rw [utf8CutLoop_succ maxsize hget hsize, cutAround]
    obtain ⟨hl, hne, hne'⟩ | hlead := and_of_leadSize hlead
    · have hone : ((s.before i : ℤ) + 1) = (s.before (i + 1) : ℕ) := by omega
      rw [if_neg hne, if_pos hne', hone, asInt_natCast (by omega), if_pos (by omega)]
    · have hend : (s.before i : ℤ) + (((b :: l).length : ℤ) - 1) + 1 = (s.before (i + 1) : ℕ) := by
        rw [List.length_cons]
        omega
      rw [if_pos hlead, if_pos (by simp), hend, asInt_natCast (by omega), asSize_natCast (by omega),
        asInt_natCast (by omega)]
      split_ifs
      · omega
      · rfl
      · rfl
      · omega

/-- **The loop in a character**: from a place in the character, or right behind it, it goes back to
the first byte.

**Proof sketch.** By induction on the place in the character: a tail byte is no beginning, so the
loop goes back to the byte before it. -/
lemma utf8CutLoop_char (hlen : s.str.length ≤ int32Max) {i maxsize : ℕ} (hi : i < s.size)
    (hmax : s.before i < maxsize) {k : ℕ} (hk : s.before i + (k + 1) ≤ s.before (i + 1)) :
    utf8CutLoop (s.str ++ [0]) maxsize (s.before i + (k + 1)) =
      some (s.cutAround i maxsize : ℤ) := by
  induction k with
  | zero => exact s.utf8CutLoop_lead hlen hi hmax
  | succ k ih =>
    have hle := s.before_le (i + 1)
    have hsucc := s.before_succ hi
    have hdrop : s.chars.drop i = s.chars.get ⟨i, hi⟩ :: s.chars.drop (i + 1) :=
      List.drop_eq_getElem_cons hi
    have hchar := s.isChar _ (s.chars.get_mem ⟨i, hi⟩)
    generalize s.chars.get ⟨i, hi⟩ = c at hsucc hdrop hchar
    match c, hchar.piece with
    | b :: l, ⟨_, htail⟩ =>
      rw [List.length_cons] at hsucc
      have hkl : k < l.length := by omega
      have hget : (s.str ++ [0])[s.before i + (k + 1)]? = some l[k] :=
        s.getElem?_before_add hdrop (k := k + 1) (by rw [List.length_cons]; omega)
      have htail : l[k] &&& 0xc0 = 0x80 := htail _ (List.getElem_mem hkl)
      obtain ⟨t, cs, ht, hcs, -, -, hmem⟩ := exists_drop_eq_cons s.zero_notMem_str
        (show s.before i + (k + 1) < s.str.length by omega)
      obtain ⟨n, hn, -⟩ := exists_utf8GetsizeCharMem ht hcs
      rw [← hmem] at hn
      rw [show s.before i + (k + 1 + 1) = s.before i + (k + 1) + 1 by omega,
        utf8CutLoop_succ maxsize hget hn, htail, if_neg (by decide), if_neg (by decide)]
      exact ih (by omega)

/-- The last place between two characters within a size. -/
lemma isGreatest_cutAround {i maxsize : ℕ} (hmax : s.before i < maxsize)
    (hend : maxsize ≤ s.before (i + 1)) :
    IsGreatest {b ∈ s.Boundaries | b ≤ maxsize} (s.cutAround i maxsize) := by
  constructor
  · rw [cutAround]
    split_ifs with hfit
    · exact ⟨⟨i + 1, rfl⟩, hfit⟩
    · exact ⟨⟨i, rfl⟩, hmax.le⟩
  · rintro _ ⟨⟨j, rfl⟩, hj⟩
    rw [cutAround]
    by_cases hji : j ≤ i
    · have := s.before_mono hji
      split_ifs <;> omega
    · have := s.before_mono (show i + 1 ≤ j by omega)
      split_ifs <;> omega

/-- The whole string is within a size. -/
lemma isGreatest_length {maxsize : ℕ} (h : s.str.length ≤ maxsize) :
    IsGreatest {b ∈ s.Boundaries | b ≤ maxsize} s.str.length := by
  refine ⟨⟨⟨s.size, s.before_of_size_le le_rfl⟩, h⟩, ?_⟩
  rintro _ ⟨⟨j, rfl⟩, -⟩
  exact s.before_le j

/-- **A string of the grammar** is cut at the last place between two characters.

**Proof sketch.** If all of the string is within the size the cut is at its end. Otherwise the loop
begins within the size and in a character, or right behind one, and goes back to a place between two
characters; the next such place is beyond the size. -/
lemma isGreatest_utf8CutBySize (hlen : s.str.length ≤ int32Max) {maxsize r : ℕ}
    (h : utf8CutBySize (s.str ++ [0]) (-1) maxsize = some (r : ℤ)) :
    IsGreatest {b ∈ s.Boundaries | b ≤ maxsize} r := by
  rw [utf8CutBySize_eq s.zero_notMem_str hlen] at h
  split_ifs at h with hall
  · have hr : s.str.length = r := by exact_mod_cast Option.some.inj h
    rw [← hr]
    exact s.isGreatest_length hall
  · obtain rfl | hpos := Nat.eq_zero_or_pos maxsize
    · have hr : (0 : ℤ) = r := Option.some.inj h
      obtain rfl : r = 0 := by omega
      exact ⟨⟨⟨0, rfl⟩, le_rfl⟩, fun b hb => hb.2⟩
    · obtain ⟨i, hi, hlt, hle⟩ := s.exists_before_lt hpos (by omega)
      have hloop := s.utf8CutLoop_char hlen hi hlt (k := maxsize - s.before i - 1) (by omega)
      rw [show s.before i + (maxsize - s.before i - 1 + 1) = maxsize by omega, h] at hloop
      have hr : r = s.cutAround i maxsize := by exact_mod_cast Option.some.inj hloop
      rw [hr]
      exact s.isGreatest_cutAround hlt hle

end Utf8String

/-- **A string is cut within a size**: for a string the length of which is an `int`, the result is
no more than the size and the length, and nothing behind the terminator is read; a string of the
grammar is cut at the last place between two characters.

**Proof sketch.** The loop goes back over later bytes only. In a string of the grammar these belong
to the character that holds the last byte within the size, and the loop ends at its first byte. -/
theorem utf8CutBySize_spec {str : Bytes} (h : 0 ∉ str) (hlen : str.length ≤ int32Max)
    (maxsize : ℕ) :
    ∃ r : ℕ, utf8CutBySize (str ++ [0]) (-1) maxsize = some (r : ℤ) ∧ r ≤ min maxsize str.length ∧
      ∀ s : Utf8String, s.str = str → IsGreatest {b ∈ s.Boundaries | b ≤ maxsize} r := by
  obtain ⟨r, hr, hmax, hle⟩ : ∃ r : ℕ, utf8CutBySize (str ++ [0]) (-1) maxsize = some (r : ℤ) ∧
      r ≤ maxsize ∧ r ≤ str.length := by
    rw [utf8CutBySize_eq h hlen]
    split_ifs with hall
    · exact ⟨str.length, rfl, hall, le_rfl⟩
    · exact exists_utf8CutLoop h hlen maxsize (by omega) le_rfl
  refine ⟨r, hr, le_min hmax hle, ?_⟩
  rintro s rfl
  exact s.isGreatest_utf8CutBySize hlen hr

/-- A character of two bytes does not fit in one byte. -/
theorem utf8CutBySize_twoBytes :
    ∃ r : ℕ, utf8CutBySize ([0xC3, 0xA9] ++ [0]) (-1) 1 = some (r : ℤ) ∧ r ≤ min 1 2 ∧
      ∀ s : Utf8String, s.str = [0xC3, 0xA9] → IsGreatest {b ∈ s.Boundaries | b ≤ 1} r :=
  utf8CutBySize_spec (by decide) (by decide) 1

/-- A string the length of which is no `int`: it becomes a large size, and the loop begins behind
the terminator. -/
lemma utf8CutBySize_eq_none {str : Bytes} (h : 0 ∉ str) (hlen : str.length = 2147483648) :
    utf8CutBySize (str ++ [0]) (-1) 2147483658 = none := by
  have hwrap : ¬ asSize (asInt ((2147483648 : ℕ) : ℤ)) ≤ 2147483658 := by decide
  have hget : (str ++ [0])[2147483657]? = none := by
    rw [List.getElem?_eq_none_iff, List.length_append, hlen]
    decide
  rw [utf8CutBySize, cstr_append_zero h, hlen, if_pos (show (-1 : Int32).toInt < 0 by decide),
    if_neg hwrap, utf8CutLoop, hget]
  rfl

/-- **A string of two gigabytes**, of characters of one byte: bytes behind the string are read. -/
theorem utf8CutBySize_long :
    IsUtf8 (List.replicate 2147483648 97) ∧ 0 ∉ List.replicate 2147483648 (97 : Byte) ∧
      utf8CutBySize (List.replicate 2147483648 97 ++ [0]) (-1) 2147483658 = none := by
  have hzero : 0 ∉ List.replicate 2147483648 (97 : Byte) := by
    intro h
    exact absurd (List.eq_of_mem_replicate h) (by decide)
  have hcut : IsUtf8 (List.replicate 2147483648 97) := by
    refine ⟨List.replicate 2147483648 [97], List.flatten_replicate_singleton, fun p hp => ?_⟩
    obtain rfl := List.eq_of_mem_replicate hp
    exact ⟨rfl, by simp⟩
  exact ⟨hcut, hzero, utf8CutBySize_eq_none hzero List.length_replicate⟩

end Meowbot
