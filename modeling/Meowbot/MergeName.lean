import Mathlib
import Meowbot.Utf8Index

set_option relaxedAutoImplicit false
set_option autoImplicit false

/-!
# Merging two names (`mod_strutils.cpp`)

`merge_name` takes a character of each string in turn. It keeps the number of the next character of
both; a number is `-1` behind the last character, and the loop ends when both are.

Taking turns is `List.interleave`, which no smaller part of Mathlib brings along than the whole.

## Main definitions

* `Meowbot.mergeName` — the merged name.
* `Meowbot.untilNul` — the characters of a C string.
* `Meowbot.FitsPositions` — a text whose characters have numbers of type `int`.

## Main results

* `Meowbot.mergeNameLoop_eq` — the rounds of the loop, and what they append.
* `Meowbot.mergeName_utf8Text` — the merged name is the interleaving of the characters.
-/

namespace Meowbot

/-! ## The source -/

/-- A branch of the loop of `merge_name`: the next character of one of the strings. -/
def mergeNext (str result : Bytes) (i : ℤ) : Option (Bytes × ℤ) := do
  let s ← utf8StrposS str (Int32.ofInt i)
  let i ← intAdd i 1
  if s.isEmpty then some (result, -1) else some (result ++ s, i)

/-- The loop of `merge_name`. It is `none` without fuel. The sides take turns as long as both have
letters; an index is negative once its name has ended. -/
def mergeNameLoop (s1 s2 : Bytes) : ℕ → Bytes → ℕ → ℤ → ℤ → Option Bytes
  | 0, _, _, _, _ => none
  | fuel + 1, result, side, i1, i2 =>
    if side = 0 then
      (mergeNext s1 result i1).bind fun (result, i1) =>
        if i1 < 0 ∧ i2 < 0 then some result
        else mergeNameLoop s1 s2 fuel result (if 0 ≤ i2 then 1 else side) i1 i2
    else
      (mergeNext s2 result i2).bind fun (result, i2) =>
        if i1 < 0 ∧ i2 < 0 then some result
        else mergeNameLoop s1 s2 fuel result (if 0 ≤ i1 then 0 else side) i1 i2

/-- `merge_name`, with the number of rounds that its loop may take. -/
def mergeName (fuel : ℕ) (s1 s2 : Bytes) : Option Bytes := mergeNameLoop s1 s2 fuel [] 0 0 0

/-- **The two sides of the loop** are the same, with the strings exchanged. -/
lemma mergeNameLoop_one (s1 s2 : Bytes) (fuel : ℕ) (result : Bytes) (i1 i2 : ℤ) :
    mergeNameLoop s1 s2 fuel result 1 i1 i2 = mergeNameLoop s2 s1 fuel result 0 i2 i1 := by
  induction fuel generalizing s1 s2 result i1 i2 with
  | zero => rfl
  | succ fuel ih =>
    rw [mergeNameLoop, mergeNameLoop, if_neg one_ne_zero, if_pos rfl]
    apply Option.bind_congr
    rintro ⟨result', i2'⟩ -
    refine if_congr and_comm rfl ?_
    split_ifs
    · exact (ih s2 s1 result' i2' i1).symm
    · exact ih s1 s2 result' i1 i2'

/-! ## The characters of a C string -/

/-- The characters in front of the first NUL. -/
def untilNul (cs : List Char) : List Char := cs.takeWhile fun x => x.val ≠ 0

/-- **The positions in a text are of type `int`**: the number behind the last character, and the
sizes that are added up. -/
structure FitsPositions (cs : List Char) : Prop where
  count : cs.length < int32Max
  bytes : (utf8Text cs).length ≤ int32Max

/-- The C string of a text. -/
def cstring (cs : List Char) : Utf8String where
  chars := (untilNul cs).map String.utf8EncodeChar
  isChar := by
    intro c hc
    obtain ⟨x, hx, rfl⟩ := List.mem_map.mp hc
    have hne := List.mem_takeWhile_imp hx
    exact isChar_utf8EncodeChar (of_decide_eq_true hne)

/-- The bytes of a C string. -/
lemma str_cstring (cs : List Char) : (cstring cs).str = utf8Text (untilNul cs) :=
  List.flatMap_def.symm

/-- The memory of a text goes on behind the terminator if the text has a NUL. -/
lemma exists_utf8Text_append_zero (cs : List Char) :
    ∃ rest, utf8Text cs ++ [0] = utf8Text (untilNul cs) ++ 0 :: rest := by
  induction cs with
  | nil => exact ⟨[], rfl⟩
  | cons x cs ih =>
    obtain ⟨rest, hrest⟩ := ih
    by_cases hx : x.val = 0
    · obtain rfl : x = '\x00' := Char.ext hx
      exact ⟨utf8Text cs ++ [0], rfl⟩
    · refine ⟨rest, ?_⟩
      rw [untilNul, List.takeWhile_cons_of_pos (by simpa using hx), utf8Text_cons, utf8Text_cons,
        List.append_assoc, hrest, List.append_assoc, untilNul]

/-- **A character of a text** is found unless the sizes in front of it leave the range of `int`. -/
lemma utf8StrposS_utf8Text (cs : List Char) {i : ℤ} (hi : 0 ≤ i) (hmax : i ≤ int32Max) :
    utf8StrposS (utf8Text cs) (Int32.ofInt i) =
      if (utf8Text ((untilNul cs).take i.toNat)).length ≤ int32Max then
        some (((untilNul cs)[i.toNat]?.map String.utf8EncodeChar).getD [])
      else none := by
  have hint : (Int32.ofInt i).toInt = i := by
    rw [int32Max] at hmax
    exact Int32.toInt_ofInt_of_le (by omega) (by omega)
  obtain ⟨rest, hrest⟩ := exists_utf8Text_append_zero cs
  rw [← str_cstring] at hrest
  have hbefore : (cstring cs).before i.toNat = (utf8Text ((untilNul cs).take i.toNat)).length := by
    rw [Utf8String.before, cstring, ← List.map_take, ← List.flatMap_def, utf8Text]
  have hchar : (cstring cs).charFrom i =
      ((untilNul cs)[i.toNat]?.map String.utf8EncodeChar).getD [] := by
    rw [Utf8String.charFrom, Utf8String.front_of_nonneg _ hi, if_neg (by omega),
      List.getD_eq_getElem?_getD, cstring, List.getElem?_map]
  rw [(cstring cs).utf8StrposS_of_append hrest (hint.symm ▸ hi), hint, hbefore, hchar]

/-- **The next character** of a text: it is appended, and behind the last one the number is
`-1`.

**Proof sketch.** The character at a position is found if the sizes in front of it add up within
`int` (`utf8StrposS_utf8Text`), and there is one unless the position is at the end. -/
lemma mergeNext_utf8Text (cs : List Char) (result : Bytes) {i : ℤ} (hi : 0 ≤ i)
    (hmax : i ≤ int32Max) :
    mergeNext (utf8Text cs) result i =
      if (utf8Text ((untilNul cs).take i.toNat)).length ≤ int32Max ∧ i < int32Max then
        some (result ++ utf8Text (((untilNul cs).drop i.toNat).take 1),
          if i < (untilNul cs).length then i + 1 else -1)
      else none := by
  rw [mergeNext, utf8StrposS_utf8Text cs hi hmax]
  by_cases hbytes : (utf8Text ((untilNul cs).take i.toNat)).length ≤ int32Max
  · by_cases hlt : i < int32Max
    · rw [if_pos hbytes, if_pos ⟨hbytes, hlt⟩, intAdd, if_pos ⟨by omega, by omega⟩]
      have hleft := List.length_drop (i := i.toNat) (l := untilNul cs)
      rw [← List.head?_drop]
      cases hdrop : (untilNul cs).drop i.toNat with
      | nil =>
        rw [hdrop, List.length_nil] at hleft
        rw [if_neg (by omega)]
        simp [utf8Text]
      | cons x xs =>
        rw [hdrop, List.length_cons] at hleft
        rw [if_pos (by omega)]
        simp [utf8Text]
    · rw [if_pos hbytes, if_neg (fun h => hlt h.2), intAdd, if_neg (by omega)]
      rfl
  · rw [if_neg hbytes, if_neg (fun h => hbytes h.1)]
    rfl

/-! ## The rounds of the loop -/

/-- The characters from a number on, none for the number `-1`. -/
def left (cs : List Char) (i : ℤ) : List Char :=
  if 0 ≤ i then (untilNul cs).drop i.toNat else []

/-- The rounds of the loop for one of the strings: one for each character that is left, and one
that finds the end. -/
def turns (cs : List Char) (i : ℤ) : ℕ := if 0 ≤ i then (left cs i).length + 1 else 0

/-- No character is left behind the end. -/
lemma left_of_neg (cs : List Char) {i : ℤ} (hi : i < 0) : left cs i = [] := by
  rw [left, if_neg (by omega)]

/-- There is no round behind the end. -/
lemma turns_of_neg (cs : List Char) {i : ℤ} (hi : i < 0) : turns cs i = 0 := by
  rw [turns, if_neg (by omega)]

/-- A number that the loop has for one of the strings. -/
structure InText (cs : List Char) (i : ℤ) : Prop where
  ge : -1 ≤ i
  le : i ≤ (untilNul cs).length

/-- **A round** takes the first character that is left.

**Proof sketch.** The position is in the text, so the sizes in front of it are in the range of
`int`. One character is taken, and it is the first of those that are left; at the end the position
becomes `-1`. -/
lemma exists_mergeNext {cs : List Char} (hfit : FitsPositions (untilNul cs)) (result : Bytes)
    {i : ℤ} (hi : 0 ≤ i) (hin : InText cs i) :
    ∃ i', mergeNext (utf8Text cs) result i =
        some (result ++ utf8Text ((left cs i).take 1), i') ∧
      InText cs i' ∧ left cs i' = (left cs i).tail ∧ turns cs i = turns cs i' + 1 := by
  obtain ⟨hcount, hbytes⟩ := hfit
  have hle := hin.le
  have hpre : (utf8Text ((untilNul cs).take i.toNat)).length ≤ int32Max := by
    have happ := utf8Text_append ((untilNul cs).take i.toNat) ((untilNul cs).drop i.toNat)
    rw [List.take_append_drop] at happ
    rw [happ, List.length_append] at hbytes
    omega
  have hnext := mergeNext_utf8Text cs result hi (by omega)
  rw [if_pos ⟨hpre, by omega⟩] at hnext
  refine ⟨_, by rw [hnext, left, if_pos hi], ?_⟩
  rw [turns, turns, left, left, if_pos hi, if_pos hi, List.tail_drop]
  split_ifs with hlt hneg
  · have hsucc : (i + 1).toNat = i.toNat + 1 := by omega
    rw [hsucc]
    refine ⟨⟨by omega, by omega⟩, rfl, ?_⟩
    rw [List.length_drop, List.length_drop]
    omega
  · omega
  · omega
  · have hend : (untilNul cs).length ≤ i.toNat := by omega
    refine ⟨⟨by omega, by omega⟩, (List.drop_of_length_le (by omega)).symm, ?_⟩
    rw [List.drop_of_length_le hend]
    rfl

/-- The first element of an interleaving, and the rest. -/
lemma interleave_eq_append {α : Type} (xs ys : List α) :
    xs.interleave ys = xs.take 1 ++ ys.interleave xs.tail := by
  cases xs with
  | nil => simp
  | cons x xs => simp

/-- **The rounds of the loop**: it ends after one for each character and one for each end, and has
then appended the interleaving of the characters that were left.

**Proof sketch.** Induction on the rounds that the loop may take. A round takes the first character
that is left of the first string. If there are characters left of the second string, or its end has
not been found, the sides are exchanged; otherwise the same side goes on. -/
lemma mergeNameLoop_eq {as bs : List Char} (ha : FitsPositions (untilNul as))
    (hb : FitsPositions (untilNul bs)) (fuel : ℕ) (result : Bytes) {i1 i2 : ℤ} (hi1 : 0 ≤ i1)
    (hin1 : InText as i1) (hin2 : InText bs i2) :
    mergeNameLoop (utf8Text as) (utf8Text bs) fuel result 0 i1 i2 =
      if turns as i1 + turns bs i2 ≤ fuel then
        some (result ++ utf8Text ((left as i1).interleave (left bs i2)))
      else none := by
  induction fuel generalizing as bs result i1 i2 with
  | zero =>
    have hpos : 0 < turns as i1 := by
      rw [turns, if_pos hi1]
      omega
    rw [mergeNameLoop, if_neg (by omega)]
  | succ fuel ih =>
    obtain ⟨i1', hnext, hin1', hleft, hturns⟩ := exists_mergeNext ha result hi1 hin1
    rw [mergeNameLoop, if_pos rfl, hnext, Option.bind_some, hturns, interleave_eq_append, ← hleft,
      utf8Text_append, ← List.append_assoc]
    dsimp only
    by_cases hi2 : 0 ≤ i2
    · rw [if_neg (by omega), if_pos hi2, mergeNameLoop_one, ih hb ha _ hi2 hin2 hin1']
      exact if_congr (by omega) rfl rfl
    · have hneg : i2 < 0 := by omega
      rw [left_of_neg bs hneg, turns_of_neg bs hneg, List.nil_interleave]
      by_cases hi1' : i1' < 0
      · rw [if_pos ⟨hi1', hneg⟩, left_of_neg as hi1', turns_of_neg as hi1', if_pos (by omega)]
        simp [utf8Text]
      · rw [if_neg (fun h => hi1' h.1), if_neg hi2, ih ha hb _ (by omega) hin1' hin2,
          left_of_neg bs hneg, turns_of_neg bs hneg, List.interleave_nil]
        exact if_congr (by omega) rfl rfl

/-- **A loop that ends** has found the end of both strings, so that the positions in them are of
type `int`.

**Proof sketch.** By induction on the fuel. A round takes a character or finds the end; each time it
adds up the sizes in front of the position, so that these are in the range of `int` when the end is
found. -/
lemma fitsPositions_of_mergeNameLoop {as bs : List Char} {fuel : ℕ} {result r : Bytes} {i1 i2 : ℤ}
    (hi1 : 0 ≤ i1) (hmax1 : i1 ≤ int32Max) (hmax2 : i2 ≤ int32Max) (hin1 : InText as i1)
    (hin2 : InText bs i2)
    (h : mergeNameLoop (utf8Text as) (utf8Text bs) fuel result 0 i1 i2 = some r) :
    FitsPositions (untilNul as) ∧ (0 ≤ i2 → FitsPositions (untilNul bs)) := by
  induction fuel generalizing as bs result i1 i2 with
  | zero => cases h
  | succ fuel ih =>
    have hle := hin1.le
    rw [mergeNameLoop, if_pos rfl, mergeNext_utf8Text as result hi1 hmax1] at h
    split at h
    case isFalse => cases h
    case isTrue hfit =>
      rw [Option.bind_some] at h
      by_cases hlt : i1 < (untilNul as).length
      · -- a character of the first string was taken
        rw [if_pos hlt] at h
        dsimp only at h
        rw [if_neg (by omega)] at h
        by_cases hi2 : 0 ≤ i2
        · rw [if_pos hi2, mergeNameLoop_one] at h
          obtain ⟨hb, ha⟩ := ih hi2 hmax2 (by omega) hin2 ⟨by omega, by omega⟩ h
          exact ⟨ha (by omega), fun _ => hb⟩
        · rw [if_neg hi2] at h
          exact ih (by omega) (by omega) hmax2 ⟨by omega, by omega⟩ hin2 h
      · -- the end of the first string was found
        obtain ⟨hbytes, hcount⟩ := hfit
        rw [List.take_of_length_le (by omega)] at hbytes
        refine ⟨⟨by omega, hbytes⟩, fun hi2 => ?_⟩
        rw [if_neg hlt] at h
        dsimp only at h
        rw [if_neg (by omega), if_pos hi2, mergeNameLoop_one] at h
        exact (ih hi2 hmax2 (by omega) hin2 ⟨by omega, by omega⟩ h).1

/-! ## The merged name -/

/-- Both numbers are in the texts at the start. -/
lemma inText_zero (cs : List Char) : InText cs 0 := ⟨by omega, by omega⟩

/-- **Two names are merged**: the characters of both C strings are taken in turn, and those of the
longer one follow. The loop takes one round for each character and one for the end of each string,
so it terminates; every character of both is there once, and in order.

**Proof sketch.** The loop starts at the first character of both strings. The rest is said by the
library of an interleaving. -/
theorem mergeName_utf8Text {as bs : List Char} (ha : FitsPositions (untilNul as))
    (hb : FitsPositions (untilNul bs)) :
    (∀ fuel, mergeName fuel (utf8Text as) (utf8Text bs) =
      if (untilNul as).length + (untilNul bs).length + 2 ≤ fuel then
        some (utf8Text ((untilNul as).interleave (untilNul bs)))
      else none) ∧
    ((untilNul as).interleave (untilNul bs)).Perm (untilNul as ++ untilNul bs) ∧
    (untilNul as).Sublist ((untilNul as).interleave (untilNul bs)) ∧
    (untilNul bs).Sublist ((untilNul as).interleave (untilNul bs)) := by
  refine ⟨fun fuel => ?_, List.interleave_perm_append, List.left_sublist_interleave,
    List.right_sublist_interleave⟩
  have hzero : ∀ cs, left cs 0 = untilNul cs := fun cs => by simp [left]
  have hturns : ∀ cs, turns cs 0 = (untilNul cs).length + 1 := fun cs => by simp [turns, hzero]
  rw [mergeName, mergeNameLoop_eq ha hb fuel [] le_rfl (inText_zero as) (inText_zero bs), hzero,
    hzero, hturns, hturns, List.nil_append]
  exact if_congr (by omega) rfl rfl

/-- The names of the comment in the source. -/
theorem mergeName_utf8Text_korean :
    mergeName 10 (utf8Text ['가', '나', '다', '라']) (utf8Text ['마', '바', '사', '아']) =
      some (utf8Text ['가', '마', '나', '바', '다', '사', '라', '아']) := by
  have h := (@mergeName_utf8Text ['가', '나', '다', '라'] ['마', '바', '사', '아']
    ⟨by decide, by decide⟩ ⟨by decide, by decide⟩).1 10
  rw [if_pos (by decide)] at h
  simpa [untilNul] using h

/-- A character NUL is not merged, and there is no result for a string that is too long.

**Proof sketch.** A C string ends at its NUL, so nothing is taken of the first text. A loop that
ends has found the end of both strings (`fitsPositions_of_mergeNameLoop`), which the number of
characters of the second text does not allow. -/
theorem not_mergeName_utf8Text :
    (∀ fuel, mergeName fuel (utf8Text ['\x00']) (utf8Text []) ≠
      some (utf8Text (['\x00'].interleave []))) ∧
    ∀ fuel, mergeName fuel (utf8Text (List.replicate (2 ^ 31) 'a')) (utf8Text []) = none := by
  constructor
  · intro fuel h
    have hnul := @mergeNameLoop_eq ['\x00'] [] ⟨by decide, by decide⟩ ⟨by decide, by decide⟩ fuel
      [] 0 0 le_rfl (inText_zero _) (inText_zero _)
    have hleft : (left ['\x00'] 0).interleave (left [] 0) = [] := by simp [left, untilNul]
    rw [mergeName, hnul, hleft, List.interleave_nil] at h
    split_ifs at h
    exact absurd h (by decide)
  · intro fuel
    rw [Option.eq_none_iff_forall_ne_some]
    intro r h
    obtain ⟨⟨hcount, -⟩, -⟩ := fitsPositions_of_mergeNameLoop le_rfl (by simp) (by simp)
      (inText_zero _) (inText_zero _) h
    have hall : untilNul (List.replicate (2 ^ 31) 'a') = List.replicate (2 ^ 31) 'a' := by
      rw [untilNul, List.takeWhile_eq_self_iff]
      intro x hx
      rw [List.eq_of_mem_replicate hx]
      rfl
    rw [hall, List.length_replicate, int32Max] at hcount
    omega

end Meowbot
