import Meowbot.Lib.Pieces
import Meowbot.Utf8

set_option relaxedAutoImplicit false
set_option autoImplicit false

/-!
# Validation of UTF-8 (`utf8_impl.c`)

`utf8_validate` goes from character to character. The length of a character is read off its first
byte, and the bytes that follow are looked at one after the other, up to one that is not allowed
there. The mask of this test is `0x80`, so that a byte `11xxxxxx` passes as a later byte, though it
is the first byte of a character or no byte of UTF-8 at all.

Here a string lies at the end of the memory: a read behind its terminator has no result.

## Main definitions

* `Meowbot.utf8ValidateLoop` — the validation, from a place in the memory on.
* `Meowbot.leadSize`, `Meowbot.IsTail`, `Meowbot.IsUtf8` — the grammar.
* `Meowbot.ValidatesExactly` — the validation ends, and accepts what the grammar accepts.
* `Meowbot.Swallows` — a first byte passes as a later byte.

## Main results

* `Meowbot.utf8Validate_eq` — what is accepted.
* `Meowbot.validatesExactly_iff` — the validation is exact except where a first byte is swallowed.
-/

namespace Meowbot

/-! ## The source -/

/-- The loop of `utf8_getsize_char` over the places of the later bytes. -/
def utf8TailLoop (utf8char : Bytes) (len : ℤ) : List ℕ → Option ℤ
  | [] => some len
  | i :: is => do
    let c ← utf8char[i]?
    if c = 0 ∨ c &&& 0x80 ≠ 0x80 then some (-len) else utf8TailLoop utf8char len is

/-- `utf8_getsize_char` on the memory from a place on. -/
def utf8GetsizeCharMem (utf8char : Bytes) : Option ℤ := do
  let _ ← utf8char[0]?
  let len := utf8GetsizeCharNc utf8char
  utf8TailLoop utf8char len (List.range' 1 (len.toNat - 1))

/-- The number of bytes behind a first byte, none for a byte that is no first byte. -/
def leadSize (c : Byte) : Option ℕ :=
  if c &&& 0x80 = 0x00 then some 0
  else if c &&& 0xE0 = 0xC0 then some 1
  else if c &&& 0xF0 = 0xE0 then some 2
  else if c &&& 0xF8 = 0xF0 then some 3
  else none

/-- The size of a character, in terms of the grammar. -/
lemma utf8GetsizeCharNc_cons {c : Byte} (hc : c ≠ 0) (cs : Bytes) :
    utf8GetsizeCharNc (c :: cs) = ((leadSize c).map fun n => (n : ℤ) + 1).getD (-1) := by
  simp only [utf8GetsizeCharNc, charAt, List.getD_cons_zero, if_neg hc, leadSize]
  split_ifs <;> rfl

/-- The loop looks at the later bytes in their order.

**Proof sketch.** By induction on the number of bytes. The loop stops at the terminator, or at the
first byte without the mask, and then the size is refused. -/
lemma utf8TailLoop_eq (len : ℤ) (done : Bytes) {l : Bytes} (rest : Bytes) (h : 0 ∉ l) (n : ℕ) :
    utf8TailLoop (done ++ (l ++ 0 :: rest)) len (List.range' done.length n) =
      some (if n ≤ l.length ∧ (l.take n).all (fun t => t &&& 0x80 = 0x80) then len else -len) := by
  induction n generalizing done l with
  | zero => simp [utf8TailLoop]
  | succ n ih =>
    rw [List.range'_succ, utf8TailLoop]
    cases l with
    | nil => simp
    | cons t l =>
      obtain ⟨ht, hl⟩ := List.ne_and_not_mem_of_not_mem_cons h
      have hget : (done ++ (t :: l ++ 0 :: rest))[done.length]? = some t := by simp
      rw [hget, Option.bind_eq_bind, Option.bind_some]
      by_cases htail : t &&& 0x80 = 0x80
      · have hnext := ih (done ++ [t]) hl
        rw [List.length_append, List.length_singleton, List.append_assoc] at hnext
        rw [if_neg (by simp [ht.symm, htail])]
        refine hnext.trans (congrArg some (if_congr ?_ rfl rfl))
        simp [htail]
      · rw [if_pos (.inr htail), if_neg]
        rintro ⟨-, hall⟩
        exact htail (of_decide_eq_true (List.all_eq_true.mp hall t List.mem_cons_self))

/-- **The size of a character** in front of a terminator: nothing behind it is read, and the size is
negative if the later bytes are not all there. -/
lemma utf8GetsizeCharMem_eq {c : Byte} (hc : c ≠ 0) {cs : Bytes} (h : 0 ∉ cs) :
    utf8GetsizeCharMem (c :: (cs ++ [0])) = some (match leadSize c with
      | none => -1
      | some n =>
        if n ≤ cs.length ∧ (cs.take n).all (fun t => t &&& 0x80 = 0x80) then (n : ℤ) + 1
        else -((n : ℤ) + 1)) := by
  have hloop := fun len n => utf8TailLoop_eq len [c] [] h n
  rw [utf8GetsizeCharMem, utf8GetsizeCharNc_cons hc, List.getElem?_cons_zero, Option.bind_eq_bind,
    Option.bind_some]
  cases leadSize c with
  | none => rfl
  | some n => simpa using hloop ((n : ℤ) + 1) n

/-- A character that is not refused is not empty.

**Proof sketch.** The loop over the tail bytes returns the announced size or its negative, and the
announced size of a byte that begins a character is positive. -/
lemma pos_of_utf8GetsizeCharMem {c : Byte} (hc : c ≠ 0) {cs : Bytes} {n : ℤ}
    (h : utf8GetsizeCharMem (c :: cs) = some n) (hn : ¬ n < 0) : 0 < n.toNat := by
  have hloop : ∀ (len : ℤ) is, utf8TailLoop (c :: cs) len is = some n → n = len ∨ n = -len := by
    intro len is hloop
    induction is with
    | nil => exact .inl (Option.some.inj hloop).symm
    | cons i is ih =>
      obtain ⟨t, -, ht⟩ := Option.bind_eq_some_iff.mp hloop
      split_ifs at ht with hbad
      · exact .inr (Option.some.inj ht).symm
      · exact ih ht
  simp only [utf8GetsizeCharMem, List.getElem?_cons_zero, Option.bind_eq_bind, Option.bind_some,
    utf8GetsizeCharNc_cons hc] at h
  cases hsize : leadSize c with
  | none =>
    rw [hsize] at h
    obtain rfl : -1 = n := Option.some.inj h
    omega
  | some k =>
    rw [hsize] at h
    have hlen := hloop _ _ h
    change n = (k : ℤ) + 1 ∨ n = -((k : ℤ) + 1) at hlen
    omega

/-- The loop of `utf8_validate`, on the memory from a place on. It goes from character to character
up to the terminator, and refuses the text at the first one that is refused; reading behind the
memory has no result. -/
def utf8ValidateLoop : Bytes → Option Bool
  | [] => none
  | c :: cs =>
    if _ : c = 0 then some true
    else match _ : utf8GetsizeCharMem (c :: cs) with
      | none => none
      | some n => if _ : n < 0 then some false else utf8ValidateLoop ((c :: cs).drop n.toNat)
termination_by p => p.length
decreasing_by
  have := pos_of_utf8GetsizeCharMem ‹c ≠ 0› ‹utf8GetsizeCharMem (c :: cs) = some n› ‹¬ n < 0›
  simp only [List.length_drop, List.length_cons]
  omega

/-- `utf8_validate` on a string at the end of the memory. -/
def utf8Validate (str : Bytes) : Option Bool := utf8ValidateLoop (str ++ [0])

/-! ## The grammar -/

/-- A byte `10xxxxxx`. -/
def IsTail (t : Byte) : Prop := t &&& 0xC0 = 0x80

/-- A byte that the mask of the source lets pass behind a first byte. -/
def PassesAsTail (t : Byte) : Prop := t &&& 0x80 = 0x80

/-- A sequence of characters, each with its later bytes. -/
def IsUtf8 (str : Bytes) : Prop := Pieces.Cut leadSize IsTail str

/-- **The validation is exact**: it ends without a read behind the terminator, and accepts the
strings of the grammar and no others. -/
structure ValidatesExactly (str : Bytes) : Prop where
  ends : (utf8Validate str).isSome
  exact : utf8Validate str = some true ↔ IsUtf8 str

/-- **A byte is swallowed**: the string is a sequence of characters if every byte from `0x80` on is
allowed behind a first byte, and then one of these is a byte `11xxxxxx`. -/
def Swallows (str : Bytes) : Prop :=
  ∃ ps, Pieces.IsCut leadSize PassesAsTail str ps ∧ ∃ p ∈ ps, ∃ t ∈ p.tail, t &&& 0xC0 = 0xC0

/-- The bytes from `0x80` on are of two kinds. -/
lemma passesAsTail_iff (t : Byte) : PassesAsTail t ↔ IsTail t ∨ t &&& 0xC0 = 0xC0 := by
  have hbytes : ∀ t : Byte, t &&& 0x80 = 0x80 ↔ t &&& 0xC0 = 0x80 ∨ t &&& 0xC0 = 0xC0 :=
    forall_byte (by decide +kernel)
  exact hbytes t

/-- **What is accepted**: the sequences of characters in which any byte from `0x80` on may follow a
first byte. The validation always ends, without a read behind the terminator.

**Proof sketch.** Induction on the length. The first character is measured and cut off. -/
lemma utf8Validate_eq {str : Bytes} (h : 0 ∉ str) :
    ∃ b, utf8Validate str = some b ∧ (b = true ↔ Pieces.Cut leadSize PassesAsTail str) := by
  rw [utf8Validate]
  induction hn : str.length using Nat.strong_induction_on generalizing str with
  | _ n ih =>
    subst hn
    cases str with
    | nil => exact ⟨true, by rw [List.nil_append, utf8ValidateLoop]; rfl, by simp [Pieces.cut_nil]⟩
    | cons c cs =>
      obtain ⟨hc, hcs⟩ := List.ne_and_not_mem_of_not_mem_cons h
      have hsize := utf8GetsizeCharMem_eq hc.symm hcs
      rw [List.cons_append, utf8ValidateLoop, dif_neg hc.symm, Pieces.cut_cons_iff]
      split
      · rename_i hnone
        rw [hsize] at hnone
        cases hnone
      · rename_i n hsome
        obtain rfl := Option.some.inj (hsize.symm.trans hsome)
        cases hlead : leadSize c with
        | none => exact ⟨false, by simp, by simp⟩
        | some n =>
          simp only
          by_cases htails : n ≤ cs.length ∧ (cs.take n).all (fun t => t &&& 0x80 = 0x80)
          · have hdrop : (c :: (cs ++ [0])).drop ((n : ℤ) + 1).toNat = cs.drop n ++ [0] := by
              rw [show ((n : ℤ) + 1).toNat = n + 1 by omega, List.drop_succ_cons,
                List.drop_append_of_le_length htails.1]
            have hzero : 0 ∉ cs.drop n := fun h0 => hcs (List.mem_of_mem_drop h0)
            have hshort : (cs.drop n).length < (c :: cs).length := by
              rw [List.length_drop, List.length_cons]
              omega
            obtain ⟨b, hb, hcut⟩ := ih _ hshort hzero rfl
            refine ⟨b, ?_, hcut.trans ⟨fun hrest => ?_, ?_⟩⟩
            · rw [if_pos htails, dif_neg (by omega), hdrop, hb]
            · have hpass : ∀ t ∈ cs.take n, t &&& 0x80 = 0x80 := by simpa using htails.2
              exact ⟨n, rfl, htails.1, hpass, hrest⟩
            · rintro ⟨m, hm, -, -, hrest⟩
              obtain rfl := Option.some.inj hm
              exact hrest
          · refine ⟨false, ?_, by simp, ?_⟩
            · rw [if_neg htails, dif_pos (by omega)]
            · rintro ⟨m, hm, hle, hall, -⟩
              obtain rfl := Option.some.inj hm
              exact absurd ⟨hle, List.all_eq_true.mpr fun t ht => decide_eq_true (hall t ht)⟩ htails

/-- **The validation is exact** except on the strings in which a byte is swallowed.

**Proof sketch.** A string of the grammar is accepted, since the mask lets all its later bytes pass.
A string is cut into characters in one way only; so if a byte `11xxxxxx` is among the later bytes of
a string that is accepted, the string is none of the grammar. -/
theorem validatesExactly_iff {str : Bytes} (h : 0 ∉ str) :
    ValidatesExactly str ↔ ¬ Swallows str := by
  obtain ⟨b, hb, hcut⟩ := utf8Validate_eq h
  have haccept : utf8Validate str = some true ↔ Pieces.Cut leadSize PassesAsTail str := by
    rw [hb, Option.some.injEq, hcut]
  have hmono : IsUtf8 str → Pieces.Cut leadSize PassesAsTail str :=
    Pieces.Cut.imp fun t ht => (passesAsTail_iff t).mpr (.inl ht)
  constructor
  · rintro ⟨-, hexact⟩ ⟨ps, hps, p, hp, t, ht, hlead⟩
    obtain ⟨qs, hqs⟩ := hexact.mp (haccept.mpr ⟨ps, hps⟩)
    obtain rfl := hps.unique hqs
    match p, hqs.piece p hp, ht with
    | c :: cs, hpiece, ht =>
      have htail : t &&& 0xC0 = 0x80 := hpiece.2 t ht
      rw [htail] at hlead
      cases hlead
  · intro hnot
    refine ⟨by rw [hb]; rfl, haccept.trans ⟨fun ⟨ps, hps⟩ => ⟨ps, hps.flatten, fun p hp => ?_⟩, hmono⟩⟩
    match p, hp, hps.piece p hp with
    | c :: cs, hp, hpiece =>
      refine ⟨hpiece.1, fun t ht => ?_⟩
      refine ((passesAsTail_iff t).mp (hpiece.2 t ht)).resolve_right fun hlead => hnot ?_
      exact ⟨ps, hps, c :: cs, hp, t, ht, hlead⟩

/-- A character of two bytes, the way it should be. -/
theorem validatesExactly_twoBytes : ValidatesExactly [0xC3, 0xA9] := by
  refine (validatesExactly_iff (by decide)).mpr ?_
  rintro ⟨ps, hps, p, hp, t, ht, hlead⟩
  have hcut : Pieces.IsCut leadSize PassesAsTail [0xC3, 0xA9] [[0xC3, 0xA9]] :=
    ⟨rfl, by simp [Pieces.IsPiece, PassesAsTail]; decide⟩
  obtain rfl := hps.unique hcut
  obtain rfl := List.mem_singleton.mp hp
  obtain rfl := List.mem_singleton.mp ht
  revert hlead
  decide

/-- **A first byte in the place of a later byte** is accepted. -/
theorem not_validatesExactly :
    utf8Validate [0xC3, 0xC3] = some true ∧ ¬ IsUtf8 [0xC3, 0xC3] ∧
      ¬ ValidatesExactly [0xC3, 0xC3] := by
  have hcut : Pieces.Cut leadSize PassesAsTail [0xC3, 0xC3] :=
    ⟨[[0xC3, 0xC3]], rfl, by simp [Pieces.IsPiece, PassesAsTail]; decide⟩
  have haccept : utf8Validate [0xC3, 0xC3] = some true := by
    obtain ⟨b, hb, hiff⟩ := utf8Validate_eq (show 0 ∉ [0xC3, 0xC3] by decide)
    rw [hb, hiff.mpr hcut]
  have hnot : ¬ IsUtf8 [0xC3, 0xC3] := by
    intro h
    obtain ⟨n, hn, -, htails, -⟩ := Pieces.cut_cons_iff.mp h
    obtain rfl : 1 = n := Option.some.inj hn
    have htail : (0xC3 : Byte) &&& 0xC0 = 0x80 := htails 0xC3 List.mem_cons_self
    revert htail
    decide
  exact ⟨haccept, hnot, fun h => hnot (h.exact.mp haccept)⟩

end Meowbot
