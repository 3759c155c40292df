import Meowbot.Basic
import Meowbot.Lib.FoldMap

set_option relaxedAutoImplicit false
set_option autoImplicit false

/-!
# The IRC case mapping (`ircstring.h`, `ircstring.cpp`)

Nicks and channel names are compared under the case mapping `rfc1459` in the variant of
`IRC_CHARMAP_RFC1459E`, in which `[]\^` are the capitals of `{}|~`.

## Main definitions

* `Meowbot.ircTolower`, `Meowbot.ircToupper` — the two tables.
* `Meowbot.ircStrlower`, `Meowbot.ircStrupper`, `Meowbot.ircStrcasecmp` — their lifting to C
  strings and the comparison.
* `Meowbot.StrMap` — `irc_strmap`, a map whose keys are compared by `ircStrcasecmp`.

## Main results

* `Meowbot.ircStrcasecmp_eq_zero` — two strings compare equal exactly when their lower-case
  forms are the same, so `StrMap` keyed through `ircStrlower` is keyed through the comparison.
-/

namespace Meowbot

/-- `irc_tolowertab`: `A..Z`, `[`, `\`, `]` and `^` are mapped 32 places up, every other byte to
itself. -/
def ircTolower (c : Byte) : Byte := if 'A' ≤ c ∧ c ≤ '^' then c + 32 else c

/-- `irc_touppertab`: `a..z`, `{`, `|`, `}` and `~` are mapped 32 places down, every other byte to
itself. -/
def ircToupper (c : Byte) : Byte := if 'a' ≤ c ∧ c ≤ '~' then c - 32 else c

/-- `irc_strlower`. -/
def ircStrlower (s : Bytes) : Bytes := (cstr s).map ircTolower

/-- `irc_strupper`. -/
def ircStrupper (s : Bytes) : Bytes := (cstr s).map ircToupper

/-- The value of a byte as a signed `char`. -/
def schar (c : Byte) : ℤ := if c < 128 then c.toNat else c.toNat - 256

/-- The loop of `irc_strcasecmp`, on two C strings: the difference of the first two bytes that
differ after lower-casing, the terminator counting as a byte. -/
def ircStrcasecmpLoop : Bytes → Bytes → ℤ
  | [], [] => 0
  | [], y :: _ => schar 0 - schar (ircTolower y)
  | x :: _, [] => schar (ircTolower x) - schar 0
  | x :: xs, y :: ys =>
    if schar (ircTolower x) - schar (ircTolower y) = 0 then ircStrcasecmpLoop xs ys
    else schar (ircTolower x) - schar (ircTolower y)

/-- `irc_strcasecmp`. -/
def ircStrcasecmp (s1 s2 : Bytes) : ℤ := ircStrcasecmpLoop (cstr s1) (cstr s2)

/-- `irc_strmap`: a `std::map` whose comparator is `irc_strcasecmp(...) < 0`. -/
abbrev StrMap (α : Type) := FoldMap ircStrlower α

/-! ## Comparison and normal form -/

/-- Different bytes have different signed values. -/
lemma schar_inj {c d : Byte} (h : schar c = schar d) : c = d := by
  have hc := c.toNat_lt
  have hd := d.toNat_lt
  apply UInt8.toNat_inj.mp
  simp only [schar, UInt8.lt_iff_toNat_lt] at h
  simp only [show (128 : UInt8).toNat = 128 from rfl] at h
  split_ifs at h <;> omega

/-- Only the terminator is lower-cased to the terminator. -/
lemma ircTolower_ne_zero {c : Byte} (h : c ≠ 0) : ircTolower c ≠ 0 := by
  have hc := c.toNat_lt
  unfold ircTolower
  split_ifs with hr
  · rw [UInt8.le_iff_toNat_le, UInt8.le_iff_toNat_le] at hr
    simp only [show (UInt8.ofNat 'A'.toNat).toNat = 65 from rfl,
      show (UInt8.ofNat '^'.toNat).toNat = 94 from rfl] at hr
    intro h0
    have := congrArg UInt8.toNat h0
    simp [UInt8.toNat_add] at this
    omega
  · exact h

/-- The loop returns zero exactly on C strings that agree after lower-casing.

**Proof sketch.** By induction on the first string. Where the folded bytes are equal the loop goes
on; where they differ the result is their difference, which is not zero, and at the end of one
string only the other one has a byte that is not zero. -/
lemma ircStrcasecmpLoop_eq_zero {s t : Bytes} (hs : 0 ∉ s) (ht : 0 ∉ t) :
    ircStrcasecmpLoop s t = 0 ↔ s.map ircTolower = t.map ircTolower := by
  induction s generalizing t with
  | nil =>
    cases t with
    | nil => simp [ircStrcasecmpLoop]
    | cons y ys =>
      have hy : ircTolower y ≠ 0 := ircTolower_ne_zero fun h => ht (by simp [h])
      simp only [ircStrcasecmpLoop, List.map_nil, List.map_cons, List.nil_eq, reduceCtorEq,
        iff_false]
      intro h
      exact hy (schar_inj (by omega)).symm
  | cons x xs ih =>
    have hx : ircTolower x ≠ 0 := ircTolower_ne_zero fun h => hs (by simp [h])
    cases t with
    | nil =>
      simp only [ircStrcasecmpLoop, List.map_nil, List.map_cons, reduceCtorEq, iff_false]
      intro h
      exact hx (schar_inj (by omega))
    | cons y ys =>
      have ih' := ih (fun h => hs (List.mem_cons_of_mem _ h))
        (fun h => ht (List.mem_cons_of_mem _ h) : 0 ∉ ys)
      by_cases hxy : ircTolower x = ircTolower y
      · simp [ircStrcasecmpLoop, hxy, ih']
      · have hne : schar (ircTolower x) - schar (ircTolower y) ≠ 0 := by
          intro h
          exact hxy (schar_inj (by omega))
        simp [ircStrcasecmpLoop, hne, hxy]

/-- **Strings compare equal exactly when their lower-case forms agree.** -/
lemma ircStrcasecmp_eq_zero (s t : Bytes) :
    ircStrcasecmp s t = 0 ↔ ircStrlower s = ircStrlower t :=
  ircStrcasecmpLoop_eq_zero (zero_notMem_cstr s) (zero_notMem_cstr t)

/-- A string whose lower-case form is empty is empty as a C string. -/
lemma ircStrlower_eq_nil {s : Bytes} : ircStrlower s = [] ↔ cstr s = [] := by
  simp [ircStrlower]

end Meowbot
