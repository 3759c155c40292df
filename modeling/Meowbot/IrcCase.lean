import Meowbot.IrcString
import Meowbot.Lib.OrderedMap
import Meowbot.Lib.Strcmp

set_option relaxedAutoImplicit false
set_option autoImplicit false

/-!
# The case mapping as an order of keys (`ircstring.h`, `ircstring.cpp`)

Tables of nicks and channels are `std::map`s whose comparator is `irc_strcasecmp(a, b) < 0`. The
comparison takes differences of signed characters, so bytes from `0x80` on are in front of all
others and also in front of the terminator. It is a strict weak order all the same, and the keys
that count as the same are those with the same lower-case form, or with the same upper-case form.

## Main definitions

* `Meowbot.ircTolowertab`, `Meowbot.ircTouppertab` — the tables, as in the source.
* `Meowbot.IrcLess` — the comparator; `Meowbot.IrcStrmap` — `irc_strmap`, an ordered map over it.

## Main results

* `Meowbot.ircTolower_eq_tab`, `Meowbot.ircToupper_eq_tab` — the tables and the two functions.
* `Meowbot.ircStrcasecmp_order` — the comparator is sound, and so are the maps.
* `Meowbot.Agrees.update`, `Meowbot.Agrees.erase` — `StrMap` yields what `IrcStrmap` does.
-/

namespace Meowbot

/-! ## The tables -/

/-- `IRCCHAR_RFC1459_C1_LOWERCASE` -/
def ircchar1Lowercase : Byte := '~'

/-- `IRCCHAR_RFC1459_C1_UPPERCASE` -/
def ircchar1Uppercase : Byte := '^'

/-- `IRCCHAR_RFC1459_C2_LOWERCASE` -/
def ircchar2Lowercase : Byte := '~'

/-- `IRCCHAR_RFC1459_C2_UPPERCASE` -/
def ircchar2Uppercase : Byte := '^'

/-- The entries of a table that map bytes to themselves. -/
def plainBytes (first count : ℕ) : Bytes := (List.range' first count).map UInt8.ofNat

/-- `irc_tolowertab` -/
def ircTolowertab : Bytes :=
  plainBytes 0x00 0x41 ++ bytes "abcdefghijklmno" ++ bytes "pqrstuvwxyz\x7b|\x7d" ++
    [ircchar1Lowercase, '_'] ++ bytes "`abcdefghijklmno" ++ bytes "pqrstuvwxyz\x7b|\x7d" ++
    [ircchar2Lowercase, 0x7f] ++ plainBytes 0x80 0x80

/-- `irc_touppertab` -/
def ircTouppertab : Bytes :=
  plainBytes 0x00 0x41 ++ bytes "ABCDEFGHIJKLMNO" ++ bytes "PQRSTUVWXYZ[\\]" ++
    [ircchar1Uppercase, '_'] ++ bytes "`ABCDEFGHIJKLMNO" ++ bytes "PQRSTUVWXYZ[\\]" ++
    [ircchar2Uppercase, 0x7f] ++ plainBytes 0x80 0x80

/-- **The first table** is the function of the model. -/
lemma ircTolower_eq_tab (c : Byte) : ircTolowertab[c.toNat]? = some (ircTolower c) := by
  have htab : ∀ n < 256, ircTolowertab[n]? = some (ircTolower (UInt8.ofNat n)) := by decide +kernel
  simpa using htab c.toNat c.toNat_lt

/-- **The second table** is the function of the model. -/
lemma ircToupper_eq_tab (c : Byte) : ircTouppertab[c.toNat]? = some (ircToupper c) := by
  have htab : ∀ n < 256, ircTouppertab[n]? = some (ircToupper (UInt8.ofNat n)) := by decide +kernel
  simpa using htab c.toNat c.toNat_lt

/-- The tables undo each other up to case. -/
lemma ircTolower_ircToupper (c : Byte) :
    ircTolower (ircToupper c) = ircTolower c ∧ ircToupper (ircTolower c) = ircToupper c := by
  revert c
  exact forall_byte (by decide +kernel)

/-- **The tables describe the same equivalence** of bytes. -/
lemma ircTolower_eq_iff (c d : Byte) :
    ircTolower c = ircTolower d ↔ ircToupper c = ircToupper d := by
  constructor
  · intro h
    rw [← (ircTolower_ircToupper c).2, h, (ircTolower_ircToupper d).2]
  · intro h
    rw [← (ircTolower_ircToupper c).1, h, (ircTolower_ircToupper d).1]

/-- Lower-case forms agree exactly when upper-case forms do. -/
lemma ircStrlower_eq_iff (s t : Bytes) :
    ircStrlower s = ircStrlower t ↔ ircStrupper s = ircStrupper t := by
  rw [ircStrlower, ircStrlower, ircStrupper, ircStrupper]
  generalize cstr s = s
  generalize cstr t = t
  induction s generalizing t with
  | nil => cases t <;> simp
  | cons x xs ih =>
    cases t with
    | nil => simp
    | cons y ys => simp only [List.map_cons, List.cons.injEq, ircTolower_eq_iff x y, ih ys]

/-! ## The comparator -/

/-- The loop of the comparison, as one of the library. -/
lemma ircStrcasecmpLoop_eq (s t : Bytes) :
    ircStrcasecmpLoop s t = Strcmp.loop (fun c => schar (ircTolower c)) s t := by
  induction s generalizing t with
  | nil => cases t <;> rfl
  | cons x xs ih =>
    cases t with
    | nil => rfl
    | cons y ys => rw [ircStrcasecmpLoop, Strcmp.loop, ih ys]

/-- A byte of a C string has no value zero. -/
lemma schar_ircTolower_ne_zero (s : Bytes) : ∀ x ∈ cstr s, schar (ircTolower x) ≠ 0 := by
  intro x hx h
  refine ircTolower_ne_zero (c := x) ?_ (schar_inj (h.trans rfl))
  rintro rfl
  exact zero_notMem_cstr s hx

/-- `irc_string_lesscomparator` -/
def IrcLess (s1 s2 : Bytes) : Prop := ircStrcasecmp s1 s2 < 0

instance : DecidableRel IrcLess :=
  fun s1 s2 => inferInstanceAs (Decidable (ircStrcasecmp s1 s2 < 0))

/-- **The comparator is a strict weak order**, in spite of the signed differences. -/
instance : IsStrictWeakOrder Bytes IrcLess := by
  have hless : IrcLess = fun s t =>
      Strcmp.loop (fun c => schar (ircTolower c)) (cstr s) (cstr t) < 0 := by
    funext s t
    rw [IrcLess, ircStrcasecmp, ircStrcasecmpLoop_eq]
  rw [hless]
  exact Strcmp.isStrictWeakOrder cstr schar_ircTolower_ne_zero

/-- Keys count as the same when they compare equal. -/
lemma same_ircLess (s t : Bytes) : OrderedMap.Same IrcLess s t ↔ ircStrcasecmp s t = 0 := by
  have hswap : ircStrcasecmp t s = -ircStrcasecmp s t := by
    rw [ircStrcasecmp, ircStrcasecmp, ircStrcasecmpLoop_eq, ircStrcasecmpLoop_eq, Strcmp.loop_swap]
  rw [OrderedMap.Same, IrcLess, IrcLess, hswap]
  omega

/-- `irc_strmap` -/
abbrev IrcStrmap (α : Type) := OrderedMap IrcLess α

/-- **The case mapping is a sound order of keys**: the comparator is a strict weak order; keys that
compare equal are those with the same lower-case form, and those with the same upper-case form; and
a map holds at most one entry for each key up to case, which is found under every spelling.

**Proof sketch.** The comparison is the lexicographic order of the signed lower-case values, with
the terminator at the end. -/
theorem ircStrcasecmp_order :
    IsStrictWeakOrder Bytes IrcLess ∧
    Equivalence (fun s t => ircStrcasecmp s t = 0) ∧
    (∀ s t, ircStrcasecmp s t = 0 ↔ ircStrlower s = ircStrlower t) ∧
    (∀ s t, ircStrcasecmp s t = 0 ↔ ircStrupper s = ircStrupper t) ∧
    ∀ (α : Type) (m : IrcStrmap α), ∀ e ∈ m.entries,
      (∀ e' ∈ m.entries, ircStrcasecmp e.1 e'.1 = 0 → e' = e) ∧
      ∀ k, ircStrcasecmp e.1 k = 0 → m.find? k = some e := by
  have hequiv : (fun s t => ircStrcasecmp s t = 0) = fun s t => ircStrlower s = ircStrlower t := by
    funext s t
    exact propext (ircStrcasecmp_eq_zero s t)
  refine ⟨inferInstance, ?_, ircStrcasecmp_eq_zero, ?_, fun α m e he => ⟨fun e' he' h => ?_, ?_⟩⟩
  · rw [hequiv]
    exact ⟨fun s => rfl, fun h => h.symm, fun h h' => h.trans h'⟩
  · exact fun s t => (ircStrcasecmp_eq_zero s t).trans (ircStrlower_eq_iff s t)
  · exact OrderedMap.eq_of_same he' he ((same_ircLess _ _).mpr h).symm
  · exact fun k h => OrderedMap.find?_of_mem he ((same_ircLess _ _).mpr h)

/-! ## The maps of the model -/

/-- A map of the model yields what an ordered map yields. -/
def Agrees {α : Type} (m : IrcStrmap α) (m' : StrMap α) : Prop := ∀ k, m.get? k = m'.find? k

/-- The empty maps agree. -/
lemma Agrees.empty {α : Type} : Agrees (.empty : IrcStrmap α) .empty := fun _ => rfl

/-- Keys that count as the same have the same normal form. -/
lemma same_iff_ircStrlower (s t : Bytes) :
    OrderedMap.Same IrcLess s t ↔ ircStrlower s = ircStrlower t :=
  (same_ircLess s t).trans (ircStrcasecmp_eq_zero s t)

/-- An update keeps the agreement. -/
lemma Agrees.update {α : Type} {m : IrcStrmap α} {m' : StrMap α} (h : Agrees m m') (k : Bytes)
    (f : Option α → α) : Agrees (m.update k f) (m'.update k f) := by
  intro k'
  rw [OrderedMap.get?_update, FoldMap.find?_update, h k, h k']
  simp only [same_iff_ircStrlower]

/-- A removal keeps the agreement. -/
lemma Agrees.erase {α : Type} {m : IrcStrmap α} {m' : StrMap α} (h : Agrees m m') (k : Bytes) :
    Agrees (m.erase k) (m'.erase k) := by
  intro k'
  rw [OrderedMap.get?_erase, FoldMap.find?_erase, h k']
  simp only [same_iff_ircStrlower]

end Meowbot
