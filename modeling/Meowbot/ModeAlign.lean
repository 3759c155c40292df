import Meowbot.ListOps

set_option relaxedAutoImplicit false
set_option autoImplicit false

/-!
# The parameters of MODE

A server announces in 005 which mode letters take a parameter: PREFIX names the letters that change
the mode of a user, and CHANMODES sorts the others into four classes. The handler of MODE does not
look at what was announced. It has classes of its own, so the two may count parameters differently,
and then a letter is given the parameter of another one.

## Main definitions

* `Meowbot.modeKind`, `Meowbot.announcedTakes` — the letters as announced;
  `Meowbot.handlerTakes` — the letters as the handler knows them.
* `Meowbot.WellFormedMode` — a mode string that agrees with what was announced.
* `Meowbot.ModeAligned` — every change of a user's mode is one of the user whom its letter names.

## Main results

* `Meowbot.mode_aligned_iff` — the changes are right exactly when the two ways to count parameters
  lead to the same users.
-/

namespace Meowbot

open Runs

/-! ## Counting parameters -/

/-- A sign in a mode string. -/
def isSign (l : Byte) : Bool := l = '+' ∨ l = '-'

/-- The kinds of mode letters: those of PREFIX and of the four classes of CHANMODES. -/
inductive ModeKind where
  | user | list | always | whenSet | flag
  deriving DecidableEq

/-- What the server has announced about a letter: a status of users, or one of the four groups of
CHANMODES. There is no kind for a letter of neither, and none if the groups are not four. -/
def modeKind (i : SrvInfo) (l : Byte) : Option ModeKind :=
  if l ∈ i.chanusermodePrefixes then some .user
  else match i.chanmodes.splitOn (',' : Byte) with
    | [a, b, c, d] =>
      if l ∈ a then some .list
      else if l ∈ b then some .always
      else if l ∈ c then some .whenSet
      else if l ∈ d then some .flag
      else none
    | _ => none

/-- A letter under a sign takes a parameter, as announced. -/
def announcedTakes (i : SrvInfo) (sign l : Byte) : Bool :=
  match modeKind i l with
  | some .user => true
  | some .list => true
  | some .always => true
  | some .whenSet => sign = '+'
  | _ => false

/-- A letter under a sign takes a parameter, as the handler sees it. -/
def handlerTakes (sign l : Byte) : Bool := (modePrefix l).isSome || modeTakesParam sign l

/-- The number of parameters that letters take, from a sign on. -/
def paramsTaken (takes : Byte → Byte → Bool) : Byte → Bytes → ℕ
  | _, [] => 0
  | sign, l :: ls =>
    if isSign l then paramsTaken takes l ls
    else (if takes sign l then 1 else 0) + paramsTaken takes sign ls

/-- The sign after some letters. -/
def lastSign (sign : Byte) (ls : Bytes) : Byte :=
  ls.foldl (fun sign l => if isSign l then l else sign) sign

/-- The parameter of MODE with a number, empty if there are fewer. -/
def Message.modeParam (m : Message) (k : ℕ) : Bytes := m.params.getD (2 + k) []

/-- A mode string, a sign and letters, agrees with what was announced: all letters are known, and
every letter that takes a parameter has a nonempty one. -/
structure WellFormedMode (i : SrvInfo) (m : Message) (sign : Byte) (ls : Bytes) : Prop where
  modes : m.arg 1 = sign :: ls
  isSign : isSign sign
  known : ∀ l ∈ ls, Meowbot.isSign l ∨ modeKind i l ≠ none
  nparam : m.nparam < 32
  params : ∀ pre l post, ls = pre ++ l :: post → ¬ Meowbot.isSign l →
    announcedTakes i (lastSign sign pre) l = true →
    ∃ p ∈ m.given[2 + paramsTaken (announcedTakes i) sign pre]?, p ≠ []

/-! ## The loop over the letters -/

/-- The variables of the loop after some letters, if it comes so far. -/
def modeVarsAt (m : Message) (chan : Bytes) (v : ModeVars) (ls : Bytes) : Option ModeVars :=
  ls.foldlM (fun v l => (modeLetter m chan v l).toOption.join) v

/-- The variables of the loop at its start. -/
def modeVars (c : Irc) (sign : Byte) : ModeVars := { irc := c, sign, pi := 2 }

/-- **The change for a letter** behind some others is one of the mode of a user: the loop comes to
the letter, and what it does there is to give or take the mode of the user and to report that. -/
def ChangesUser (c : Irc) (m : Message) (sign : Byte) (pre : Bytes) (l newmode : Byte)
    (nick : Bytes) : Prop :=
  ∃ v v', modeVarsAt m (m.arg 0) (modeVars c sign) pre = some v ∧
    modeLetter m (m.arg 0) v l = .ok (some v') ∧
    ∃ param, ircStrcasecmp param nick = 0 ∧
      v'.irc = (v.irc.setUserMode (m.arg 0) param (lastSign sign pre) newmode).sendEvent
        (.mode m.origin (m.arg 0) [lastSign sign pre, l] param)

/-- Every letter of PREFIX that the handler knows changes the mode of the user named by the
parameter of that letter. -/
def ModeAligned (c : Irc) (m : Message) (sign : Byte) (ls : Bytes) : Prop :=
  ∀ pre l post newmode, ls = pre ++ l :: post → l ∈ c.srvinfo.chanusermodePrefixes →
    modePrefix l = some newmode →
    ChangesUser c m sign pre l newmode
      (m.modeParam (paramsTaken (announcedTakes c.srvinfo) sign pre))

/-- The letters of PREFIX that the handler knows find, counting as the handler does, the same user
as counting as announced. -/
def SameUsers (i : SrvInfo) (m : Message) (sign : Byte) (ls : Bytes) : Prop :=
  ∀ pre l post, ls = pre ++ l :: post → l ∈ i.chanusermodePrefixes → (modePrefix l).isSome →
    ircStrcasecmp (m.modeParam (paramsTaken handlerTakes sign pre))
      (m.modeParam (paramsTaken (announcedTakes i) sign pre)) = 0

/-- The signs are neither letters of the handler nor parameters of letters. -/
lemma isSign_iff (l : Byte) : isSign l = true ↔ l = ('+' : Byte) ∨ l = ('-' : Byte) := by
  simp [isSign]

/-- The letters that change users are not signs. -/
lemma not_isSign_of_modePrefix {l newmode : Byte} (h : modePrefix l = some newmode) :
    ¬ (l = ('+' : Byte) ∨ l = ('-' : Byte)) := by
  rintro (rfl | rfl)
  · cases h
  · cases h

/-- A nonempty parameter is taken. -/
lemma ModeVars.withParam_of_ne {m : Message} {v : ModeVars} (h : m.params.getD v.pi [] ≠ [])
    (chan : Bytes) (mode : Byte) (apply : Bytes → Irc) :
    v.withParam m chan mode apply = .ok (some { v with
      irc := (apply (m.params.getD v.pi [])).sendEvent
        (.mode m.origin chan [v.sign, mode] (m.params.getD v.pi []))
      pi := v.pi + 1 }) := by
  rcases Nat.lt_or_ge v.pi m.params.length with hlt | hge
  · have hget : m.params.getD v.pi [] = m.params.get ⟨v.pi, hlt⟩ := by
      simp [List.getD, hlt]
    rw [hget] at h ⊢
    rw [withParam, Message.at_of_lt hlt]
    change (if m.params.get ⟨v.pi, hlt⟩ = [] then _ else _) = _
    rw [if_neg h]
    rfl
  · exact absurd (by simp [List.getD, hge]) h

/-- An empty parameter, or none, ends the loop. -/
lemma ModeVars.withParam_of_nil {m : Message} {v : ModeVars} (h : m.params.getD v.pi [] = [])
    (chan : Bytes) (mode : Byte) (apply : Bytes → Irc) :
    (v.withParam m chan mode apply).toOption.join = none := by
  rcases Nat.lt_or_ge v.pi m.params.length with hlt | hge
  · have hget : m.params.getD v.pi [] = m.params.get ⟨v.pi, hlt⟩ := by
      simp [List.getD, hlt]
    rw [hget] at h
    rw [withParam, Message.at_of_lt hlt, h]
    rfl
  · rw [withParam, Message.at_of_le hge]
    rfl

/-- **What a letter does** to the variables of the loop: a sign is kept, a letter that takes a
parameter needs one, and every letter may change the rest of the state.

**Proof sketch.** By the questions that a letter is asked: whether it is a sign, whether it is one
for a mode of users, and whether it takes another parameter. In the cases that take one, there is no
way on with an empty one. -/
lemma modeLetter_counts (m : Message) (chan : Bytes) (v : ModeVars) (l : Byte) :
    (isSign l = true ∧ modeLetter m chan v l = .ok (some { v with sign := l })) ∨
    (isSign l = false ∧ handlerTakes v.sign l = false ∧
      ∃ c, modeLetter m chan v l = .ok (some { v with irc := c })) ∨
    (isSign l = false ∧ handlerTakes v.sign l = true ∧ m.params.getD v.pi [] ≠ [] ∧
      ∃ c, modeLetter m chan v l = .ok (some { v with irc := c, pi := v.pi + 1 })) ∨
    (isSign l = false ∧ handlerTakes v.sign l = true ∧ m.params.getD v.pi [] = [] ∧
      (modeLetter m chan v l).toOption.join = none) := by
  by_cases hsign : isSign l = true
  · refine .inl ⟨hsign, ?_⟩
    rw [modeLetter, if_pos ((isSign_iff l).mp hsign)]
  refine .inr ?_
  have hnot := fun h => hsign ((isSign_iff l).mpr h)
  rw [Bool.not_eq_true] at hsign
  by_cases htakes : handlerTakes v.sign l = true
  · refine .inr ?_
    have hwith : ∃ apply, modeLetter m chan v l = v.withParam m chan l apply := by
      rw [modeLetter, if_neg hnot]
      rcases hlisted : modePrefix l with _ | newmode
      · rw [handlerTakes, hlisted] at htakes
        simp only [Option.isSome_none, Bool.false_or] at htakes
        rw [if_pos htakes]
        exact ⟨_, rfl⟩
      · exact ⟨_, rfl⟩
    obtain ⟨apply, hwith⟩ := hwith
    rw [hwith]
    by_cases hparam : m.params.getD v.pi [] = []
    · exact .inr ⟨hsign, htakes, hparam, ModeVars.withParam_of_nil hparam _ _ _⟩
    · exact .inl ⟨hsign, htakes, hparam, _, ModeVars.withParam_of_ne hparam _ _ _⟩
  · refine .inl ⟨hsign, by simpa using htakes, ?_⟩
    rw [handlerTakes, Bool.or_eq_true, not_or] at htakes
    obtain ⟨hlisted, hparam⟩ := htakes
    rw [Option.not_isSome_iff_eq_none] at hlisted
    rw [modeLetter, if_neg hnot, hlisted]
    simp only [if_neg hparam]
    exact ⟨_, rfl⟩

/-- The loop, one letter at a time. -/
lemma modeVarsAt_cons (m : Message) (chan : Bytes) (v : ModeVars) (l : Byte) (ls : Bytes) :
    modeVarsAt m chan v (l :: ls) =
      (modeLetter m chan v l).toOption.join.bind fun v' => modeVarsAt m chan v' ls := rfl

/-- **The loop comes through the letters** whose parameters are all there.

**Proof sketch.** By induction on the letters. A letter that takes a parameter finds one that is not
empty, by assumption; the index for the others is one further then. -/
lemma modeVarsAt_of_params {m : Message} {chan : Bytes} {v : ModeVars} {ls : Bytes}
    (h : ∀ k < paramsTaken handlerTakes v.sign ls, m.params.getD (v.pi + k) [] ≠ []) :
    (modeVarsAt m chan v ls).isSome := by
  induction ls generalizing v with
  | nil => rfl
  | cons l ls ih =>
    rw [modeVarsAt_cons]
    rw [paramsTaken] at h
    rcases modeLetter_counts m chan v l with ⟨hs, hl⟩ | ⟨hs, ht, c, hl⟩ | ⟨hs, ht, -, c, hl⟩ |
      ⟨hs, ht, hnil, -⟩
    · rw [if_pos hs] at h
      rw [hl]
      exact ih (v := { v with sign := l }) h
    · rw [if_neg (by simp [hs]), if_neg (by simp [ht]), zero_add] at h
      rw [hl]
      exact ih (v := { v with irc := c }) h
    · rw [if_neg (by simp [hs]), if_pos ht] at h
      rw [hl]
      refine ih (v := { v with irc := c, pi := v.pi + 1 }) fun k hk => ?_
      change m.params.getD (v.pi + 1 + k) [] ≠ []
      rw [Nat.add_assoc]
      exact h (1 + k) (Nat.add_lt_add_left hk 1)
    · rw [if_neg (by simp [hs]), if_pos ht] at h
      exact absurd hnil (h 0 (by omega))

/-- **The sign and the index** when the loop has come through some letters.

**Proof sketch.** By induction on the letters, with `modeLetter_counts` for the first one: a sign is
kept, and the index counts the letters that take a parameter. -/
lemma modeVarsAt_spec {m : Message} {chan : Bytes} {v v' : ModeVars} {ls : Bytes}
    (h : modeVarsAt m chan v ls = some v') :
    v'.sign = lastSign v.sign ls ∧ v'.pi = v.pi + paramsTaken handlerTakes v.sign ls := by
  induction ls generalizing v with
  | nil =>
    obtain rfl := Option.some.inj h
    exact ⟨rfl, rfl⟩
  | cons l ls ih =>
    rw [modeVarsAt_cons] at h
    rw [paramsTaken, lastSign, List.foldl_cons]
    rcases modeLetter_counts m chan v l with ⟨hs, hl⟩ | ⟨hs, ht, c, hl⟩ | ⟨hs, ht, -, c, hl⟩ |
      ⟨hs, ht, -, hl⟩
    · rw [hl] at h
      rw [if_pos hs, if_pos hs]
      exact ih h
    · rw [hl] at h
      rw [if_neg (by simp [hs]), if_neg (by simp [hs]), if_neg (by simp [ht]), zero_add]
      exact ih (v := { v with irc := c }) h
    · rw [hl] at h
      rw [if_neg (by simp [hs]), if_neg (by simp [hs]), if_pos ht, ← Nat.add_assoc]
      exact ih h
    · rw [hl] at h
      cases h

/-- **The handler is the rest of the loop** once the loop has come through some letters.

**Proof sketch.** By induction on the letters in front, each of which is one round of the loop. -/
lemma modeLoop_append {m : Message} {chan : Bytes} {v v' : ModeVars} {pre : Bytes}
    (h : modeVarsAt m chan v pre = some v') (ls : Bytes) :
    modeLoop m chan v (pre ++ ls) =
      (modeLoop m chan v' ls).map fun r => (r.1, r.2 + pre.length) := by
  induction pre generalizing v with
  | nil =>
    obtain rfl := Option.some.inj h
    rw [List.nil_append]
    cases modeLoop m chan v ls <;> rfl
  | cons l pre ih =>
    rw [modeVarsAt_cons] at h
    rcases hl : modeLetter m chan v l with e | _ | v₁
    · rw [hl] at h
      cases h
    · rw [hl] at h
      cases h
    · rw [hl] at h
      rw [List.cons_append, modeLoop_cons_some hl, ih h]
      cases modeLoop m chan v' ls <;> rfl

/-- **Nothing else changes** when the mode of a user is given or taken: the record of that user in
that channel is what it is made of, and every other record is as before.

**Proof sketch.** The table of the channel is updated at the nick; what is looked up under another
name of either is the same record, up to case. -/
lemma find?_setUserMode (c : Irc) (chan nick : Bytes) (sign newmode : Byte) (x y : Bytes) :
    ((c.setUserMode chan nick sign newmode).getChanuserlist x).find? y =
      if ircStrlower x = ircStrlower chan ∧ ircStrlower y = ircStrlower nick then
        some (if sign = '+' then
          (((c.getChanuserlist x).find? y).getD .init).addToChanusermode [newmode]
        else (((c.getChanuserlist x).find? y).getD .init).delFromChanusermode [newmode])
      else ((c.getChanuserlist x).find? y) := by
  change ((c.lists.setMode chan nick sign newmode).usersOf x).find? y = _
  rw [Lists.setMode, Lists.usersOf_mapUsers]
  by_cases hx : ircStrlower x = ircStrlower chan
  · rw [if_pos hx, FoldMap.find?_update]
    by_cases hy : ircStrlower y = ircStrlower nick
    · rw [if_pos hy, if_pos (And.intro hx hy), ← c.lists.usersOf_congr hx, ← FoldMap.find?_congr _ hy]
      rfl
    · rw [if_neg hy, if_neg (fun h => hy h.2), ← c.lists.usersOf_congr hx]
      rfl
  · rw [if_neg hx, if_neg (fun h => hx h.1)]
    rfl

/-- **A letter that changes a user** changes the user named by the parameter that comes next as the
handler counts.

**Proof sketch.** The index of the loop at the letter is the number of parameters that the letters
in front of it have taken (`modeVarsAt_spec`), and the user that is changed is the one of the
parameter at the index. -/
lemma ChangesUser.modeParam {c : Irc} {m : Message} {sign : Byte} {pre : Bytes} {l newmode : Byte}
    {nick : Bytes} (h : ChangesUser c m sign pre l newmode nick)
    (hl : modePrefix l = some newmode) :
    ircStrcasecmp (m.modeParam (paramsTaken handlerTakes sign pre)) nick = 0 := by
  obtain ⟨v, v', hv, hletter, param, hsame, hirc⟩ := h
  obtain ⟨hsign, hpi⟩ := modeVarsAt_spec hv
  rw [modeLetter, if_neg (not_isSign_of_modePrefix hl), hl] at hletter
  by_cases hparam : m.params.getD v.pi [] = []
  · have hnone := ModeVars.withParam_of_nil hparam (m.arg 0) l fun nick =>
      v.irc.setUserMode (m.arg 0) nick v.sign newmode
    dsimp only at hletter
    rw [hletter] at hnone
    cases hnone
  · dsimp only at hletter
    rw [ModeVars.withParam_of_ne hparam] at hletter
    obtain rfl := Option.some.inj (Except.ok.inj hletter)
    have hevents := congrArg (fun c => c.events.getLast?) hirc
    simp only [Irc.sendEvent, List.getLast?_concat, Option.some.injEq, IrcEvent.mode.injEq] at hevents
    rw [Message.modeParam, ← hsame, ← hevents.2.2.2, hpi]
    rfl

/-- The changes are right only if the two ways to count lead to the same users. -/
lemma ModeAligned.sameUsers {c : Irc} {m : Message} {sign : Byte} {ls : Bytes}
    (h : ModeAligned c m sign ls) : SameUsers c.srvinfo m sign ls := by
  intro pre l post hls hlisted hsome
  obtain ⟨newmode, hnewmode⟩ := Option.isSome_iff_exists.mp hsome
  exact (h pre l post newmode hls hlisted hnewmode).modeParam hnewmode

/-! ## When the changes are right -/

/-- Padding does not change the parameters that are counted. -/
lemma Message.modeParam_eq (m : Message) (k : ℕ) : m.modeParam k = (m.given[2 + k]?).getD [] := by
  rw [modeParam, params, List.getD_eq_getElem?_getD]
  split_ifs
  · rw [List.getElem?_append]
    split_ifs with hlt
    · rfl
    · rw [List.getElem?_replicate, List.getElem?_eq_none (by omega)]
      split_ifs <;> rfl
  · rfl

/-- A parameter that is counted contains no NUL, and if it is nonempty, then so are those in front
of it.

**Proof sketch.** The parameters of a line that has been parsed hold no NUL, and only the last one
of them can be empty. -/
lemma Message.modeParam_spec {line : Bytes} {m : Message} (hm : Message.ofLine line = some m)
    (k : ℕ) : 0 ∉ m.modeParam k ∧ (m.modeParam k ≠ [] → ∀ j < k, m.modeParam j ≠ []) := by
  obtain ⟨l, hl, rfl⟩ := Option.map_eq_some_iff.mp hm
  simp only [modeParam_eq]
  constructor
  · intro hmem
    rcases hk : l.params[2 + k]? with _ | p
    · simp [hk] at hmem
    · rw [hk] at hmem
      exact parseIrcLine_zero_notMem hl p (List.mem_of_getElem? hk) hmem
  · intro hne j hj hnil
    have hlt : 2 + k < l.params.length := by
      by_contra hge
      exact hne (by rw [List.getElem?_eq_none (by omega)]; rfl)
    have hmem : (l.params.dropLast)[2 + j]? = l.params[2 + j]? := by
      rw [List.getElem?_dropLast, if_pos (by omega)]
    have hlt' : 2 + j < l.params.length := by omega
    have hget : l.params[2 + j]? = some l.params[2 + j] := List.getElem?_eq_getElem hlt'
    rw [hget] at hmem hnil
    exact parseIrcLine_ne_nil hl _ (List.mem_of_getElem? hmem) hnil

/-- **Equal counts are right**: if the two ways to count lead to the same users, the handler changes
the users whom the letters name.

**Proof sketch.** The parameter that is announced for the letter is given and not empty, so the one
that the handler takes for it is equal to it, and not empty either. Then those in front of it are
not empty, and the loop comes to the letter. -/
lemma SameUsers.modeAligned {c : Irc} {line : Bytes} {m : Message} {sign : Byte} {ls : Bytes}
    (hm : Message.ofLine line = some m) (hw : WellFormedMode c.srvinfo m sign ls)
    (h : SameUsers c.srvinfo m sign ls) : ModeAligned c m sign ls := by
  intro pre l post newmode hls hlisted hnewmode
  have hsame := h pre l post hls hlisted (by rw [hnewmode]; rfl)
  set k := paramsTaken handlerTakes sign pre
  set j := paramsTaken (announcedTakes c.srvinfo) sign pre
  -- the parameter of the letter is given, so the one that the handler takes is not empty either
  have hown : m.modeParam j ≠ [] := by
    have hnot : ¬ isSign l := fun hs => not_isSign_of_modePrefix hnewmode ((isSign_iff l).mp hs)
    have htakes : announcedTakes c.srvinfo (lastSign sign pre) l = true := by
      simp only [announcedTakes, modeKind, if_pos hlisted]
    obtain ⟨p, hp, hne⟩ := hw.params pre l post hls hnot htakes
    rw [m.modeParam_eq, hp]
    exact hne
  have htaken : m.modeParam k ≠ [] := by
    intro hnil
    rw [ircStrcasecmp_eq_zero, hnil] at hsame
    have hcstr := ircStrlower_eq_nil.mp hsame.symm
    rw [cstr_eq_self (Message.modeParam_spec hm j).1] at hcstr
    exact hown hcstr
  -- hence the loop comes to the letter
  have hbefore : (modeVarsAt m (m.arg 0) (modeVars c sign) pre).isSome :=
    modeVarsAt_of_params fun i hi => (Message.modeParam_spec hm k).2 htaken i hi
  obtain ⟨v, hv⟩ := Option.isSome_iff_exists.mp hbefore
  obtain ⟨hsign, hpi⟩ := modeVarsAt_spec hv
  have hparam : m.params.getD v.pi [] = m.modeParam k := by
    rw [hpi]
    rfl
  have hletter := ModeVars.withParam_of_ne (v := v) (by rw [hparam]; exact htaken) (m.arg 0) l
    fun nick => v.irc.setUserMode (m.arg 0) nick v.sign newmode
  rw [hparam, hsign] at hletter
  have hstep : modeLetter m (m.arg 0) v l = v.withParam m (m.arg 0) l
      fun nick => v.irc.setUserMode (m.arg 0) nick (lastSign sign pre) newmode := by
    rw [modeLetter, if_neg (not_isSign_of_modePrefix hnewmode), hnewmode, hsign]
    rfl
  exact ⟨v, _, hv, hstep.trans hletter, m.modeParam k, hsame, rfl⟩

/-- **The changes of a MODE line are right** exactly when counting the parameters as the handler
does leads, for every letter of PREFIX among `q`, `a`, `o`, `h` and `v`, to the user to whom
counting them as announced leads.

**Proof sketch.** The index of the handler is the number of parameters its own classes take. The
loop only stops early at an empty parameter, and a line has no empty parameter in front of a
nonempty one. -/
theorem mode_aligned_iff {c : Irc} {line : Bytes} {m : Message} {sign : Byte} {ls : Bytes}
    (hm : Message.ofLine line = some m) (hw : WellFormedMode c.srvinfo m sign ls) :
    ModeAligned c m sign ls ↔ SameUsers c.srvinfo m sign ls :=
  ⟨fun h => h.sameUsers, fun h => h.modeAligned hm hw⟩

/-- What a server announces, and the letters that take a parameter when they are set. -/
def announced (whenSet : String) : Bytes :=
  bytes (":srv 005 bot PREFIX=(ohv)@%+ CHANMODES=Ibe,k," ++ whenSet ++ ",imnpst :are supported")

/-- A MODE line with two parameters, taken apart. -/
def modeMessage (modes param nick : String) : Message :=
  { ident := bytes "srv", cmd := bytes "MODE",
    given := [bytes "#c", bytes modes, bytes param, bytes nick] }

/-- The start of a connection to such a server, and a channel that the bot and a user join. -/
def joinedAnnounced (whenSet : String) : List Input :=
  [.line 0 (announced whenSet), .line 1 (bytes ":bot!u@h JOIN #c"),
    .line 2 (bytes ":foo!u@h JOIN #c")]

/-- What the bot knows about such a server. -/
def announcedInfo : SrvInfo :=
  { SrvInfo.init with
    chanmodes := bytes "Ibe,k,Ll,imnpst", chanusermodePrefixes := bytes "ohv",
    chanusermodes := bytes "@%+" }

/-- The start of the connection, and the MODE line with `L` and `o`. -/
lemma joinedAnnounced_run :
    ∃ c c', Run (Fun Irc.serve) (Irc.started (bytes "bot")) (joinedAnnounced "Ll") c ∧
      c.srvinfo = announcedInfo ∧
      c.serve (.line 3 (bytes ":srv MODE #c +Lo #x foo")) = some c' ∧
      (c'.getUserData (bytes "#c") (bytes "#x")).map IrcUser.chanmode = some (bytes "@") ∧
      (c'.getUserData (bytes "#c") (bytes "foo")).map IrcUser.chanmode = some [] :=
  ⟨_, _, Run.of_foldlM rfl, rfl, rfl, rfl, rfl⟩

/-- A mode string with two letters and two parameters agrees with what is announced if both letters
take one.

**Proof sketch.** Both letters are known and each takes one of the two parameters, in the order in
which they stand. -/
lemma wellFormedMode_two {modes param nick : String} {i : SrvInfo} {sign a b : Byte}
    {ls : Bytes} (hls : ls = [a, b]) (hmodes : bytes modes = sign :: ls) (hsign : isSign sign)
    (ha : announcedTakes i sign a = true ∧ isSign a = false ∧ modeKind i a ≠ none)
    (hb : modeKind i b ≠ none) (hparam : bytes param ≠ []) (hnick : bytes nick ≠ []) :
    WellFormedMode i (modeMessage modes param nick) sign ls where
  modes := hmodes
  isSign := hsign
  known l hl := by
    rw [hls] at hl
    rcases List.mem_cons.mp hl with rfl | hl
    · exact .inr ha.2.2
    · obtain rfl := List.mem_singleton.mp hl
      exact .inr hb
  nparam := by
    change (4 : ℕ) < 32
    omega
  params pre l post hsplit _ _ := by
    rw [hls] at hsplit
    rcases pre with _ | ⟨x, _ | ⟨y, pre⟩⟩
    · exact ⟨bytes param, rfl, hparam⟩
    · obtain ⟨rfl, -⟩ := List.cons.inj hsplit
      refine ⟨bytes nick, ?_, hnick⟩
      rw [paramsTaken, ha.2.1, ha.1]
      rfl
    · simp at hsplit

/-- The changes of a MODE line that sets a limit and makes a user operator.

**Proof sketch.** The run announces the letters, so both letters have a kind, and the condition of
the general theorem is checked for the letters of this line. -/
theorem modeAligned_limit :
    ∃ c, Run (Fun Irc.serve) (Irc.started (bytes "bot")) (joinedAnnounced "Ll") c ∧
      ModeAligned c (modeMessage "+lo" "5" "foo") '+' (bytes "lo") := by
  obtain ⟨c, -, hrun, hinfo, -⟩ := joinedAnnounced_run
  have hline : Message.ofLine (bytes ":srv MODE #c +lo 5 foo") =
      some (modeMessage "+lo" "5" "foo") := rfl
  refine ⟨c, hrun, (mode_aligned_iff hline ?_).mpr ?_⟩
  · rw [hinfo]
    exact wellFormedMode_two (a := 'l') (b := 'o') rfl rfl (by decide) (by decide) (by decide)
      (by decide) (by decide)
  · rw [hinfo]
    intro pre l post hls hlisted _
    rcases pre with _ | ⟨a, _ | ⟨b, pre⟩⟩
    · rfl
    · obtain ⟨rfl, -⟩ := List.cons.inj hls
      rfl
    · have hlen := congrArg List.length hls
      simp [bytes] at hlen

/-- **A letter that takes a parameter for the server but not for the handler**: with `L` announced
as one that takes a parameter when it is set, the parameter of `L` becomes operator, and the user
named by the parameter of `o` does not. -/
theorem not_modeAligned :
    ∃ c c', Run (Fun Irc.serve) (Irc.started (bytes "bot")) (joinedAnnounced "Ll") c ∧
      Message.ofLine (bytes ":srv MODE #c +Lo #x foo") = some (modeMessage "+Lo" "#x" "foo") ∧
      WellFormedMode c.srvinfo (modeMessage "+Lo" "#x" "foo") '+' (bytes "Lo") ∧
      ¬ ModeAligned c (modeMessage "+Lo" "#x" "foo") '+' (bytes "Lo") ∧
      c.serve (.line 3 (bytes ":srv MODE #c +Lo #x foo")) = some c' ∧
      (c'.getUserData (bytes "#c") (bytes "#x")).map IrcUser.chanmode = some (bytes "@") ∧
      (c'.getUserData (bytes "#c") (bytes "foo")).map IrcUser.chanmode = some [] := by
  obtain ⟨c, c', hrun, hinfo, hserve, hx, hfoo⟩ := joinedAnnounced_run
  refine ⟨c, c', hrun, rfl, ?_, ?_, hserve, hx, hfoo⟩
  · rw [hinfo]
    exact wellFormedMode_two (a := 'L') (b := 'o') rfl rfl (by decide) (by decide) (by decide)
      (by decide) (by decide)
  · intro h
    have hsame := h.sameUsers (bytes "L") 'o' []
    rw [hinfo] at hsame
    exact absurd (hsame rfl (by decide) rfl) (by decide)

end Meowbot
