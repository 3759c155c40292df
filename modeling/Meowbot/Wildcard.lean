import Meowbot.IrcString
import Meowbot.Lib.Glob

set_option relaxedAutoImplicit false
set_option autoImplicit false

/-!
# Wildcards (`wildcard.cpp`) and bot administrators

`wc_match_tmpl` walks through a mask and a string with two pointers, and comes back to the last star
when it cannot go on. A pointer is what is left of its string, so that a pointer behind the
terminator, like `NULL`, is one that must not be read. The loops get fuel.

## Main definitions

* `Meowbot.CharPtr` — pointers; `Meowbot.CaseConverter` — the three comparators.
* `Meowbot.wcHead`, `Meowbot.wcSearch`, `Meowbot.wcTail`, `Meowbot.wcMatchTmpl` — the matcher.
* `Meowbot.isBotadmin` — the admin masks of the configuration.
* `Meowbot.globOf` — the glob pattern of a mask.

## Main results

* `Meowbot.wcMatch_exact` — the matcher decides the glob pattern of the mask.
-/

namespace Meowbot

open Glob

/-! ## Pointers -/

/-- A NUL-terminated string. -/
abbrev CStr := {s : Bytes // 0 ∉ s}

/-- `c_str()`. -/
def cStr (s : Bytes) : CStr := ⟨cstr s, zero_notMem_cstr s⟩

/-- A pointer into a NUL-terminated string: the bytes from there to the terminator, or nothing for
`NULL` and for a pointer behind the terminator. -/
abbrev CharPtr := Option Bytes

/-- What may go wrong: a read outside a string, or no end within the fuel. -/
inductive WcError where
  | badRead | outOfFuel
  deriving DecidableEq

/-- `*p` -/
def CharPtr.read : CharPtr → Except WcError Byte
  | some [] => .ok 0
  | some (c :: _) => .ok c
  | none => .error .badRead

/-- `p + 1` -/
def CharPtr.next : CharPtr → CharPtr
  | some (_ :: s) => some s
  | _ => none

/-! ## The matcher -/

/-- `tolower` -/
def tolower (c : Byte) : Byte := if 'A' ≤ c ∧ c ≤ 'Z' then c + 32 else c

/-- The comparators of `wc_match`, `wc_match_nocase` and `wc_match_irccase`. -/
inductive CaseConverter where
  | caseConv | nocaseConv | irccaseConv
  deriving DecidableEq

/-- `operator()` of a comparator. -/
def CaseConverter.conv : CaseConverter → Byte → Byte
  | .caseConv, c => c
  | .nocaseConv, c => tolower c
  | .irccaseConv, c => ircTolower c

/-- The loop up to the first star of the mask: the pointers behind it, or nothing if it has returned
false. -/
def wcHead (C : CaseConverter) : ℕ → CharPtr → CharPtr →
    Except WcError (Option (CharPtr × CharPtr))
  | 0, _, _ => .error .outOfFuel
  | n + 1, mask, str => do
    let s ← str.read
    if s = 0 then return some (mask, str)
    let m ← mask.read
    if m = '*' then return some (mask, str)
    if C.conv m ≠ C.conv s ∧ m ≠ '?' then return none
    wcHead C n mask.next str.next

/-- The variables of the second loop. -/
structure WcVars where
  mask : CharPtr
  str : CharPtr
  mp : CharPtr
  cp : CharPtr

/-- The second loop: the pointer into the mask behind it, or nothing if it has returned true. Where
the letters differ the search goes back to the last star, and one letter further in the string. -/
def wcSearch (C : CaseConverter) : ℕ → WcVars → Except WcError (Option CharPtr)
  | 0, _ => .error .outOfFuel
  | n + 1, v => do
    let s ← v.str.read
    if s = 0 then return some v.mask
    let m ← v.mask.read
    if m = '*' then
      let m' ← v.mask.next.read
      if m' = 0 then return none
      wcSearch C n { v with mask := v.mask.next, mp := v.mask.next, cp := v.str.next }
    else if C.conv m = C.conv s ∨ m = '?' then
      wcSearch C n { v with mask := v.mask.next, str := v.str.next }
    else
      wcSearch C n { v with mask := v.mp, str := v.cp, cp := v.cp.next }

/-- The loop over the stars at the end of the mask, and the result. -/
def wcTail : ℕ → CharPtr → Except WcError Bool
  | 0, _ => .error .outOfFuel
  | n + 1, mask => do
    let m ← mask.read
    if m = '*' then wcTail n mask.next else return m = 0

/-- `wc_match_tmpl` -/
def wcMatchTmpl (C : CaseConverter) (mask str : CStr) (fuel : ℕ) : Except WcError Bool := do
  match ← wcHead C fuel (some mask.1) (some str.1) with
  | none => return false
  | some (mask, str) =>
    match ← wcSearch C fuel { mask, str, mp := none, cp := none } with
    | none => return true
    | some mask => wcTail fuel mask

/-- `wc_match` -/
def wcMatch : CStr → CStr → ℕ → Except WcError Bool := wcMatchTmpl .caseConv

/-- `wc_match_nocase` -/
def wcMatchNocase : CStr → CStr → ℕ → Except WcError Bool := wcMatchTmpl .nocaseConv

/-- `wc_match_irccase` -/
def wcMatchIrccase : CStr → CStr → ℕ → Except WcError Bool := wcMatchTmpl .irccaseConv

/-! ## The configuration -/

/-- A value of a Lua table, as far as `lua_my_tostdstring` tells them apart. -/
inductive LuaItem where
  | string (s : Bytes)
  /-- A number, as it is printed with `%d`. -/
  | number (printed : Bytes)
  | boolean (b : Bool)
  | other

/-- `lua_my_tostdstring`, whose callers take a failure for the empty string. -/
def LuaItem.toStdstring : LuaItem → Bytes
  | .string s => s
  | .number printed => printed
  | .boolean b => bytes (if b then "true" else "false")
  | .other => []

/-- `lconfig::getarray` without a default, by the value that the configuration gives: the values of
a table, in the order of `lua_next`, or something else. -/
def getarray : Option (List LuaItem) → List Bytes
  | some items => items.map LuaItem.toStdstring
  | none => []

/-- The loop of `is_botadmin` over the masks. -/
def isBotadminLoop (ident : Bytes) (fuel : ℕ) : List Bytes → Except WcError Bool
  | [] => .ok false
  | mask :: masks => do
    if ← wcMatchIrccase (cStr mask) (cStr ident) fuel then return true
    isBotadminLoop ident fuel masks

/-- `is_botadmin` -/
def isBotadmin (botadminMasks : Option (List LuaItem)) (ident : Bytes) (fuel : ℕ) :
    Except WcError Bool :=
  isBotadminLoop ident fuel (getarray botadminMasks)

/-! ## What a mask stands for -/

/-- A byte of a mask: `*` stands for any bytes, `?` for one, and every other byte for one that is
equal under the comparator. -/
def globItem (C : CaseConverter) (m : Byte) : Item Byte :=
  if m = '*' then .star
  else if m = '?' then .one fun _ => True
  else .one fun s => C.conv m = C.conv s

/-- The glob pattern of a mask. -/
def globOf (C : CaseConverter) (mask : Bytes) : List (Item Byte) := mask.map (globItem C)

/-- With enough fuel, a function returns a value, and nothing goes wrong. -/
def Returns {β : Type} (f : ℕ → Except WcError β) (b : β) : Prop := ∃ n, ∀ fuel ≥ n, f fuel = .ok b

/-! ## Enough fuel -/

/-- A value that needs no fuel. -/
lemma Returns.const {β : Type} (b : β) : Returns (fun _ => .ok b) b := ⟨0, fun _ _ => rfl⟩

/-- One more step needs one more unit of fuel. -/
lemma Returns.succ {β : Type} {f g : ℕ → Except WcError β} {b : β} (h : Returns g b)
    (hfg : ∀ n, f (n + 1) = g n) : Returns f b := by
  obtain ⟨n, hn⟩ := h
  refine ⟨n + 1, fun fuel hfuel => ?_⟩
  obtain ⟨k, rfl⟩ := Nat.exists_eq_add_of_le' (Nat.one_le_of_lt hfuel)
  rw [hfg, hn k (by omega)]

/-- A step that returns needs one unit of fuel. -/
lemma Returns.one {β : Type} {f : ℕ → Except WcError β} {b : β}
    (h : ∀ n, f (n + 1) = .ok b) : Returns f b :=
  Returns.succ (.const b) h

/-- What a function does once another one has returned. -/
lemma Returns.andThen {β γ : Type} {f : ℕ → Except WcError β} {F G : ℕ → Except WcError γ} {b : β}
    {c : γ} (hf : Returns f b) (hFG : ∀ n, f n = .ok b → F n = G n) (hG : Returns G c) :
    Returns F c := by
  obtain ⟨n, hn⟩ := hf
  obtain ⟨k, hk⟩ := hG
  refine ⟨max n k, fun fuel hfuel => ?_⟩
  rw [hFG fuel (hn fuel (le_of_max_le_left hfuel))]
  exact hk fuel (le_of_max_le_right hfuel)

/-! ## The comparators -/

/-- `tolower` makes no terminators. -/
lemma tolower_ne_zero {c : Byte} (h : c ≠ 0) : tolower c ≠ 0 := by
  have hc := c.toNat_lt
  unfold tolower
  split_ifs with hr
  · rw [UInt8.le_iff_toNat_le, UInt8.le_iff_toNat_le] at hr
    simp only [show (UInt8.ofNat 'A'.toNat).toNat = 65 from rfl,
      show (UInt8.ofNat 'Z'.toNat).toNat = 90 from rfl] at hr
    intro h0
    have := congrArg UInt8.toNat h0
    simp [UInt8.toNat_add] at this
    omega
  · exact h

/-- No comparator takes another byte for the terminator. -/
lemma CaseConverter.conv_ne_zero (C : CaseConverter) {s : Byte} (hs : s ≠ 0) :
    C.conv 0 ≠ C.conv s := by
  cases C with
  | caseConv => exact hs.symm
  | nocaseConv => exact (tolower_ne_zero hs).symm
  | irccaseConv => exact (ircTolower_ne_zero hs).symm

/-- A byte that is not `*` fits the byte at a place of the mask. -/
def CaseConverter.Equal (C : CaseConverter) (m s : Byte) : Prop := C.conv m = C.conv s ∨ m = '?'

instance (C : CaseConverter) (m s : Byte) : Decidable (C.Equal m s) :=
  inferInstanceAs (Decidable (C.conv m = C.conv s ∨ m = ('?' : Byte)))

/-- The item of a byte that is not `*`. -/
lemma globItem_of_ne {C : CaseConverter} {m : Byte} (hm : m ≠ '*') :
    globItem C m = .one fun s => C.Equal m s := by
  rw [globItem, if_neg hm]
  split_ifs with h
  · congr 1
    funext s
    exact (eq_true (Or.inr h)).symm
  · congr 1
    funext s
    exact propext (or_iff_left h).symm

/-- What the first byte of a string must be for a mask that does not start with `*`. -/
lemma matches_globOf_cons {C : CaseConverter} {m s : Byte} {mask str : Bytes} (hm : m ≠ '*') :
    Matches (globOf C (m :: mask)) (s :: str) ↔ C.Equal m s ∧ Matches (globOf C mask) str := by
  rw [globOf, List.map_cons, globItem_of_ne hm, Matches]
  constructor
  · rintro ⟨a, t, heq, hequal, hmatch⟩
    obtain ⟨rfl, rfl⟩ := List.cons.inj heq
    exact ⟨hequal, hmatch⟩
  · rintro ⟨hequal, hmatch⟩
    exact ⟨s, str, rfl, hequal, hmatch⟩

/-! ## The loops -/

/-- One step of the first loop.

**Proof sketch.** The test for equality and the one for the question mark are put together, as the
loop goes on in both cases. -/
lemma wcHead_succ (C : CaseConverter) (n : ℕ) {mask : CharPtr} {m s : Byte} (hs : s ≠ 0)
    (hread : mask.read = .ok m) (str : Bytes) :
    wcHead C (n + 1) mask (some (s :: str)) =
      if m = '*' then .ok (some (mask, some (s :: str)))
      else if C.Equal m s then wcHead C n mask.next (some str)
      else .ok none := by
  change (if s = 0 then _ else mask.read >>= _) = _
  rw [if_neg hs, hread]
  change (if m = '*' then _ else if C.conv m ≠ C.conv s ∧ m ≠ '?' then _ else _) = _
  by_cases hm : m = ('*' : Byte)
  · rw [if_pos hm, if_pos hm]
    rfl
  · rw [if_neg hm, if_neg hm]
    by_cases hequal : C.Equal m s
    · rw [if_pos hequal, if_neg fun h => hequal.elim h.1 h.2]
      rfl
    · rw [if_neg hequal, if_pos (not_or.mp hequal)]
      rfl

/-- The terminator of the mask is equal to no byte. -/
lemma CaseConverter.not_equal_zero (C : CaseConverter) {s : Byte} (hs : s ≠ 0) :
    ¬ C.Equal 0 s := by
  rintro (h | h)
  · exact C.conv_ne_zero hs h
  · exact absurd h (by decide)

/-- **The first loop** compares until the first star: it returns false for a good reason, or leaves
the question to what is left.

**Proof sketch.** By induction on the string. A letter that is equal, or a question mark, is passed
on both sides; another one ends the loop with a mismatch, and a star leaves the rest to the search.
-/
lemma wcHead_returns (C : CaseConverter) {mask str : Bytes} (hmask : 0 ∉ mask) (hstr : 0 ∉ str) :
    (Returns (fun n => wcHead C n (some mask) (some str)) none ∧ ¬ Matches (globOf C mask) str) ∨
    ∃ mask' str', Returns (fun n => wcHead C n (some mask) (some str)) (some (some mask', some str')) ∧
      0 ∉ mask' ∧ 0 ∉ str' ∧ (Matches (globOf C mask) str ↔ Matches (globOf C mask') str') ∧
      (str' = [] ∨ ∃ mask'', mask' = ('*' : Byte) :: mask'') := by
  induction str generalizing mask with
  | nil => exact .inr ⟨mask, [], .one fun n => rfl, hmask, hstr, Iff.rfl, .inl rfl⟩
  | cons s str ih =>
    obtain ⟨hs, hstr'⟩ := not_or.mp (mt List.mem_cons.mpr hstr)
    have hs := Ne.symm hs
    cases mask with
    | nil =>
      refine .inl ⟨.one fun n => ?_, fun h => List.cons_ne_nil s str h⟩
      rw [wcHead_succ C n hs rfl, if_neg (by decide), if_neg (C.not_equal_zero hs)]
    | cons m mask =>
      have hmask' : 0 ∉ mask := fun h => hmask (List.mem_cons_of_mem _ h)
      have hstep : ∀ n, wcHead C (n + 1) (some (m :: mask)) (some (s :: str)) = _ :=
        fun n => wcHead_succ C n hs rfl str
      by_cases hm : m = ('*' : Byte)
      · simp only [if_pos hm] at hstep
        exact .inr ⟨m :: mask, s :: str, .one hstep, hmask, hstr, Iff.rfl, .inr ⟨mask, by rw [hm]⟩⟩
      · have hcons : Matches (globOf C (m :: mask)) (s :: str) ↔ _ := matches_globOf_cons hm
        by_cases hequal : C.Equal m s
        · simp only [if_neg hm, if_pos hequal] at hstep
          rcases ih hmask' hstr' with ⟨hret, hno⟩ | ⟨mask', str', hret, h0, h0', hiff, hstop⟩
          · exact .inl ⟨hret.succ hstep, fun h => hno (hcons.mp h).2⟩
          · exact .inr ⟨mask', str', hret.succ hstep, h0, h0',
              (hcons.trans (and_iff_right hequal)).trans hiff, hstop⟩
        · simp only [if_neg hm, if_neg hequal] at hstep
          exact .inl ⟨.one hstep, fun h => hequal (hcons.mp h).1⟩

/-- **The last loop** looks whether there are stars only.

**Proof sketch.** By induction on the mask: a star is passed, and anything else but the end of the
mask is not matched by the end of the string. -/
lemma wcTail_returns (C : CaseConverter) {mask : Bytes} (hmask : 0 ∉ mask) :
    ∃ b, Returns (fun n => wcTail n (some mask)) b ∧ (b = true ↔ Matches (globOf C mask) []) := by
  induction mask with
  | nil => exact ⟨true, .one fun n => rfl, by simp [globOf, Matches]⟩
  | cons m mask ih =>
    by_cases hm : m = ('*' : Byte)
    · obtain ⟨b, hret, hiff⟩ := ih fun h => hmask (List.mem_cons_of_mem _ h)
      refine ⟨b, hret.succ fun n => ?_, hiff.trans ?_⟩
      · change (if m = '*' then _ else _) = _
        rw [if_pos hm]
        rfl
      · rw [matches_nil, matches_nil, globOf, globOf, List.map_cons, List.forall_mem_cons]
        exact (and_iff_right (by rw [globItem, if_pos hm])).symm
    · refine ⟨false, .one fun n => ?_, ?_⟩
      · have hzero : m ≠ 0 := fun h => hmask (h ▸ List.mem_cons_self)
        change (if m = '*' then _ else _) = _
        rw [if_neg hm]
        exact congrArg Except.ok (decide_eq_false hzero)
      · rw [globOf, List.map_cons, globItem_of_ne hm]
        simp [Matches]

/-- One step of the second loop. -/
lemma wcSearch_succ (C : CaseConverter) (n : ℕ) {mask mp cp : CharPtr} {m s : Byte} (hs : s ≠ 0)
    (hread : mask.read = .ok m) (str : Bytes) :
    wcSearch C (n + 1) { mask, str := some (s :: str), mp, cp } =
      if m = '*' then mask.next.read >>= fun m' =>
        if m' = 0 then .ok none
        else wcSearch C n { mask := mask.next, str := some (s :: str), mp := mask.next, cp := some str }
      else if C.Equal m s then wcSearch C n { mask := mask.next, str := some str, mp, cp }
      else wcSearch C n { mask := mp, str := cp, mp, cp := cp.next } := by
  change (if s = 0 then _ else mask.read >>= _) = _
  rw [if_neg hs, hread]
  rfl

/-- What the second loop says about a question: yes, or whether the rest of the mask matches the end
of the string. -/
def SearchAnswers (C : CaseConverter) (Q : Prop) : Option CharPtr → Prop
  | none => Q
  | some mask => ∃ m, mask = some m ∧ 0 ∉ m ∧ (Q ↔ Matches (globOf C m) [])

/-- **The state of the second loop** behind a star: the mask behind the star is `mp`, the string
from the place where it is tried is `u ++ str`, and the items in front of `mask` fit `u`. -/
structure SearchState (C : CaseConverter) (mp mask u str : Bytes) : Prop where
  zero_notMem_mp : 0 ∉ mp
  zero_notMem_mask : 0 ∉ mask
  zero_notMem_str : 0 ∉ u ++ str
  fits : ∃ ps, Fits ps u ∧ globOf C mp = ps.map .one ++ globOf C mask

/-- The start of a search, at the byte behind a star. -/
lemma SearchState.start {C : CaseConverter} {mp str : Bytes} (hmp : 0 ∉ mp) (hstr : 0 ∉ str) :
    SearchState C mp mp [] str := ⟨hmp, hmp, hstr, [], .nil, rfl⟩

/-- What is to be shown about a state of the second loop. -/
def SearchReturns (C : CaseConverter) (mp mask u str : Bytes) : Prop :=
  ∃ r, Returns (fun n => wcSearch C n
      { mask := some mask, str := some str, mp := some mp, cp := CharPtr.next (some (u ++ str)) }) r ∧
    SearchAnswers C (Matches (.star :: globOf C mp) (u ++ str)) r

/-- The lengths that decide how far the second loop is: the first pointer that moves counts. -/
def searchMeasure (mp u str : Bytes) : ℕ × ℕ × ℕ := (mp.length, (u ++ str).length, str.length)

/-- The order of the progress of the second loop. -/
def SearchLt : ℕ × ℕ × ℕ → ℕ × ℕ × ℕ → Prop := Prod.Lex (· < ·) (Prod.Lex (· < ·) (· < ·))

section Step

variable {C : CaseConverter} {mp mask u str : Bytes} {s : Byte}
  (h : SearchState C mp mask u (s :: str))
  (ih : ∀ mp' mask' u' str', SearchState C mp' mask' u' str' →
    SearchLt (searchMeasure mp' u' str') (searchMeasure mp u (s :: str)) →
    SearchReturns C mp' mask' u' str')

include h in
/-- There is no terminator where a search goes on. -/
lemma SearchState.ne_zero : s ≠ 0 := fun hs =>
  h.zero_notMem_str (List.mem_append_right _ (hs ▸ List.mem_cons_self))

include h ih in
/-- **A place is given up**, since the rest of the mask does not match there: the mask behind the
star is tried at the next place. -/
lemma SearchReturns.of_mismatch {m : Byte} (hread : CharPtr.read (some mask) = .ok m) (hm : m ≠ '*')
    (hnot : ¬ C.Equal m s) (hno : ¬ Matches (globOf C mask) (s :: str)) :
    SearchReturns C mp mask u (s :: str) := by
  obtain ⟨ps, hu, hsplit⟩ := h.fits
  obtain ⟨b, base, hbase⟩ : ∃ b base, u ++ s :: str = b :: base :=
    List.exists_cons_of_ne_nil (by simp)
  have hbase' : 0 ∉ base := fun h' => h.zero_notMem_str (hbase ▸ List.mem_cons_of_mem _ h')
  have hlt : SearchLt (searchMeasure mp [] base) (searchMeasure mp u (s :: str)) := by
    rw [searchMeasure, searchMeasure, hbase]
    exact .right _ (.left _ _ (Nat.lt_succ_self _))
  obtain ⟨r, hret, hanswer⟩ := ih mp mp [] base (.start h.zero_notMem_mp hbase') hlt
  refine ⟨r, hret.succ fun n => ?_, ?_⟩
  · rw [wcSearch_succ C n h.ne_zero hread, if_neg hm, if_neg hnot, hbase]
    rfl
  · rw [hbase, matches_star_cons, ← hbase, hsplit, matches_ones_append_iff hu, or_iff_right hno,
      ← hsplit]
    exact hanswer

include ih in
/-- **Another star**: the earlier one is forgotten.

**Proof sketch.** What was passed since the earlier star was matched by single items, so the earlier
star may be forgotten (`matches_star_ones_star`). The rest of the mask is shorter, so the measure
goes down. -/
lemma SearchReturns.of_star (h : SearchState C mp (('*' : Byte) :: mask) u (s :: str)) :
    SearchReturns C mp (('*' : Byte) :: mask) u (s :: str) := by
  obtain ⟨ps, hu, hsplit⟩ := h.fits
  have hforget : Matches (.star :: globOf C mp) (u ++ s :: str) ↔
      Matches (.star :: globOf C mask) (s :: str) := by
    rw [hsplit]
    exact matches_star_ones_star hu
  have hstep : ∀ n, wcSearch C (n + 1) ⟨some (('*' : Byte) :: mask), some (s :: str), some mp,
      CharPtr.next (some (u ++ s :: str))⟩ = _ := fun n => wcSearch_succ C n h.ne_zero rfl str
  simp only [if_true] at hstep
  rcases mask with _ | ⟨m, mask⟩
  · exact ⟨none, .one hstep, hforget.mpr (matches_star _)⟩
  · have hmask : 0 ∉ m :: mask := fun h' => h.zero_notMem_mask (List.mem_cons_of_mem _ h')
    have hm : m ≠ 0 := fun h' => hmask (h' ▸ List.mem_cons_self)
    have hlt : SearchLt (searchMeasure (m :: mask) [] (s :: str)) (searchMeasure mp u (s :: str)) := by
      have hlen := congrArg List.length hsplit
      simp only [globOf, List.length_map, List.length_append, List.length_cons] at hlen
      refine .left _ _ ?_
      rw [List.length_cons]
      omega
    obtain ⟨r, hret, hanswer⟩ := ih _ _ [] _
      (.start hmask fun h' => h.zero_notMem_str (List.mem_append_right _ h')) hlt
    refine ⟨r, hret.succ fun n => (hstep n).trans ?_, ?_⟩
    · change (if m = 0 then _ else _) = _
      rw [if_neg hm]
      rfl
    · rw [propext hforget]
      exact hanswer

include ih in
/-- **Equal bytes**: the items in front of the mask fit one byte more.

**Proof sketch.** The byte goes over to those that are matched since the star, and the rest of the
mask is one item shorter; so the measure goes down. -/
lemma SearchReturns.of_equal {m : Byte} (h : SearchState C mp (m :: mask) u (s :: str))
    (hm : m ≠ '*') (hequal : C.Equal m s) : SearchReturns C mp (m :: mask) u (s :: str) := by
  obtain ⟨ps, hu, hsplit⟩ := h.fits
  have hassoc : u ++ s :: str = (u ++ [s]) ++ str := by simp
  have hsplit' : globOf C mp = (ps ++ [fun s => C.Equal m s]).map .one ++ globOf C mask := by
    rw [hsplit, globOf, List.map_cons, globItem_of_ne hm]
    simp [globOf]
  have hstate : SearchState C mp mask (u ++ [s]) str :=
    ⟨h.zero_notMem_mp, fun h' => h.zero_notMem_mask (List.mem_cons_of_mem _ h'),
      hassoc ▸ h.zero_notMem_str, _, hu.concat hequal, hsplit'⟩
  have hlt : SearchLt (searchMeasure mp (u ++ [s]) str) (searchMeasure mp u (s :: str)) := by
    rw [searchMeasure, searchMeasure, hassoc]
    exact .right _ (.right _ (Nat.lt_succ_self _))
  obtain ⟨r, hret, hanswer⟩ := ih _ _ _ _ hstate hlt
  rw [SearchReturns, hassoc]
  refine ⟨r, hret.succ fun n => ?_, hanswer⟩
  rw [wcSearch_succ C n h.ne_zero rfl, if_neg hm, if_pos hequal]
  rfl

end Step

/-- **The second loop** returns, and says whether the mask behind the star matches somewhere.

**Proof sketch.** The pointers `mp`, `cp` and `str` move forward, the first of them that moves
deciding. At another star the earlier one is forgotten; when the bytes differ the mask does not
match at this place. -/
lemma wcSearch_returns (C : CaseConverter) (mp mask u str : Bytes)
    (h : SearchState C mp mask u str) : SearchReturns C mp mask u str := by
  have ih : ∀ mp' mask' u' str', SearchState C mp' mask' u' str' →
      SearchLt (searchMeasure mp' u' str') (searchMeasure mp u str) →
      SearchReturns C mp' mask' u' str' :=
    fun mp' mask' u' str' h' _ => wcSearch_returns C mp' mask' u' str' h'
  cases str with
  | nil =>
    obtain ⟨ps, hu, hsplit⟩ := h.fits
    refine ⟨some (some mask), .one fun n => rfl, mask, rfl, h.zero_notMem_mask, ?_⟩
    rw [List.append_nil, hsplit]
    exact matches_star_ones_end hu
  | cons s str =>
    cases mask with
    | nil =>
      exact .of_mismatch h ih rfl (by decide) (C.not_equal_zero h.ne_zero) (List.cons_ne_nil s str)
    | cons m mask =>
      by_cases hm : m = ('*' : Byte)
      · subst hm
        exact .of_star ih h
      · by_cases hequal : C.Equal m s
        · exact .of_equal ih h hm hequal
        · exact .of_mismatch h ih rfl hm hequal fun h' => hequal ((matches_globOf_cons hm).mp h').1
termination_by searchMeasure mp u str
decreasing_by assumption

/-- The second loop, entered with nothing left of the string or at a star.

**Proof sketch.** At the end of the string the loop ends at once. At a star the loop keeps the place
behind it, and the run from there on is `wcSearch_returns`; a star at the end of the mask matches
everything. -/
lemma wcSearch_first (C : CaseConverter) {mask str : Bytes} (hmask : 0 ∉ mask) (hstr : 0 ∉ str)
    (hstop : str = [] ∨ ∃ mask', mask = ('*' : Byte) :: mask') :
    ∃ r, Returns (fun n => wcSearch C n
        { mask := some mask, str := some str, mp := none, cp := none }) r ∧
      SearchAnswers C (Matches (globOf C mask) str) r := by
  rcases str with _ | ⟨s, str⟩
  · exact ⟨some (some mask), .one fun n => rfl, mask, rfl, hmask, Iff.rfl⟩
  · obtain ⟨mask, rfl⟩ := hstop.resolve_left (List.cons_ne_nil s str)
    have hs : s ≠ 0 := fun h => hstr (h ▸ List.mem_cons_self)
    have hstep : ∀ n, wcSearch C (n + 1) ⟨some (('*' : Byte) :: mask), some (s :: str), none, none⟩ =
        _ := fun n => wcSearch_succ C n hs rfl str
    simp only [if_true] at hstep
    rcases mask with _ | ⟨m, mask⟩
    · exact ⟨none, .one hstep, matches_star _⟩
    · have hmask' : 0 ∉ m :: mask := fun h => hmask (List.mem_cons_of_mem _ h)
      have hm : m ≠ 0 := fun h => hmask' (h ▸ List.mem_cons_self)
      obtain ⟨r, hret, hanswer⟩ := wcSearch_returns C _ _ [] _ (.start hmask' hstr)
      refine ⟨r, hret.succ fun n => (hstep n).trans ?_, hanswer⟩
      change (if m = 0 then _ else _) = _
      rw [if_neg hm]
      rfl

/-- **The matcher** returns, and says whether the string matches the mask.

**Proof sketch.** The three loops run one after another. Each of them returns, and leaves the
question to the next one or answers it. -/
lemma wcMatchTmpl_returns (C : CaseConverter) (mask str : CStr) :
    ∃ b, Returns (wcMatchTmpl C mask str) b ∧ (b = true ↔ Matches (globOf C mask.1) str.1) := by
  rcases wcHead_returns C mask.2 str.2 with ⟨hret, hno⟩ | ⟨mask', str', hret, h0, h0', hiff, hstop⟩
  · refine ⟨false, hret.andThen (fun n hn => ?_) (.const false), iff_of_false Bool.false_ne_true hno⟩
    rw [wcMatchTmpl, hn]
    rfl
  · obtain ⟨r, hsearch, hanswer⟩ := wcSearch_first C h0 h0' hstop
    have hthen : ∀ n, wcHead C n (some mask.1) (some str.1) = .ok (some (some mask', some str')) →
        wcMatchTmpl C mask str n =
          wcSearch C n { mask := some mask', str := some str', mp := none, cp := none } >>=
            fun | none => .ok true | some mask => wcTail n mask := by
      intro n hn
      rw [wcMatchTmpl, hn]
      rfl
    rcases r with _ | tail
    · refine ⟨true, hret.andThen hthen (hsearch.andThen (fun n hn => ?_) (.const true)),
        iff_of_true rfl (hiff.mpr hanswer)⟩
      rw [hn]
      rfl
    · obtain ⟨m, rfl, hm, hrest⟩ := hanswer
      obtain ⟨b, htail, hb⟩ := wcTail_returns C hm
      refine ⟨b, hret.andThen hthen (hsearch.andThen (fun n hn => ?_) htail),
        hb.trans (hrest.symm.trans hiff.symm)⟩
      rw [hn]
      rfl

/-! ## The administrators -/

/-- The loop over the masks returns, and says whether one of them matches.

**Proof sketch.** By induction on the masks: each call of the matcher returns, and the loop ends at
the first one that matches. -/
lemma isBotadminLoop_returns (ident : Bytes) (masks : List Bytes) :
    ∃ b, Returns (fun n => isBotadminLoop ident n masks) b ∧
      (b = true ↔ ∃ mask ∈ masks, Matches (globOf .irccaseConv (cstr mask)) (cstr ident)) := by
  induction masks with
  | nil => exact ⟨false, .const false, by simp⟩
  | cons mask masks ih =>
    obtain ⟨b, hret, hb⟩ := wcMatchTmpl_returns .irccaseConv (cStr mask) (cStr ident)
    obtain ⟨b', hret', hb'⟩ := ih
    rcases b with _ | _
    · refine ⟨b', hret.andThen (fun n hn => ?_) hret', hb'.trans ?_⟩
      · rw [isBotadminLoop, wcMatchIrccase, hn]
        rfl
      · have hno := mt hb.mpr Bool.false_ne_true
        simp only [List.mem_cons, exists_eq_or_imp]
        exact (or_iff_right hno).symm
    · refine ⟨true, hret.andThen (fun n hn => ?_) (.const true), iff_of_true rfl ?_⟩
      · rw [isBotadminLoop, wcMatchIrccase, hn]
        rfl
      · exact ⟨mask, List.mem_cons_self, hb.mp rfl⟩

/-- **Wildcards are exact**: with each of the three comparators, the matcher ends for every mask and
every string without a read outside of them, and says whether the string matches the mask as a glob
pattern; `is_botadmin` says whether an ident matches one of the masks in the configuration.

**Proof sketch.** The second loop keeps that the string matches the mask exactly if what is left
matches behind the last star. -/
theorem wcMatch_exact :
    (∀ C mask str, ∃ b, Returns (wcMatchTmpl C mask str) b ∧
      (b = true ↔ Matches (globOf C mask.1) str.1)) ∧
    ∀ masks ident, ∃ b, Returns (isBotadmin masks ident) b ∧
      (b = true ↔
        ∃ mask ∈ getarray masks, Matches (globOf .irccaseConv (cstr mask)) (cstr ident)) :=
  ⟨wcMatchTmpl_returns, fun masks ident => isBotadminLoop_returns ident (getarray masks)⟩

example : wcMatchIrccase (cStr (bytes "*a?^*")) (cStr (bytes "*aabA*~")) 20 = .ok true := by
  decide +kernel

end Meowbot
