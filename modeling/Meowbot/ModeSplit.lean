import Meowbot.ModeAlign

set_option relaxedAutoImplicit false
set_option autoImplicit false

/-!
# MODE lines with many changes

The mode string of a MODE line is a list of changes of the modes of users: a sign holds for all
letters up to the next one, and every letter has a parameter of its own. Handling such a line is
handling its changes one by one, and the last change of a mode of a user decides.

## Main definitions

* `Meowbot.ModeChange`, `Meowbot.modeChanges` — the changes of a mode string.
* `Meowbot.ModeMessage` — a MODE message with such changes only.
* `Meowbot.handleAll` — messages, one after the other.
* `Meowbot.Lists.HasMode`, `Meowbot.lastChange` — the modes of a user, and what decides them.

## Main results

* `Meowbot.ModeMessage.lists_handle` — a MODE message is the operations of its changes.
* `Meowbot.Lists.hasMode_changes` — the last change decides.
* `Meowbot.modeMessage_split` — both together.
-/

namespace Meowbot

/-! ## The changes of a mode string -/

/-- A change of the mode of a user. -/
structure ModeChange where
  sign : Byte
  letter : Byte
  nick : Bytes

/-- The mode character that is given or taken. -/
def ModeChange.newmode (ch : ModeChange) : Byte := (modePrefix ch.letter).getD 0

/-- What a change does to the lists. -/
def ModeChange.op (chan : Bytes) (ch : ModeChange) : ListOp :=
  .setMode chan ch.nick ch.sign ch.newmode

/-- The changes of some letters, from a sign on and with the parameters left. -/
def modeChanges : Byte → Bytes → List Bytes → List ModeChange
  | _, [], _ => []
  | sign, l :: ls, nicks =>
    if isSign l then modeChanges l ls nicks
    else ⟨sign, l, nicks.headD []⟩ :: modeChanges sign ls nicks.tail

/-- A MODE message on a channel whose mode string is a sign and letters, all of them signs or
letters that change the mode of a user, with a nonempty parameter for each of the latter. -/
structure ModeMessage (m : Message) (chan : Bytes) (sign : Byte) (ls : Bytes) (nicks : List Bytes) :
    Prop where
  cmd : m.cmd = bytes "MODE"
  given : m.given = chan :: (sign :: ls) :: nicks
  isSign : isSign sign
  letters : ∀ l ∈ ls, Meowbot.isSign l ∨ (modePrefix l).isSome
  nicks : ∀ k < ls.countP (fun l => !Meowbot.isSign l), ∃ nick ∈ nicks[k]?, nick ≠ []

/-- The messages with their times, one after the other. -/
def handleAll (c : Irc) (ms : List (ℤ × Message)) : Except Fault Irc :=
  ms.foldlM (fun c m => (handle c m.1 m.2 (.ofBytes m.2.cmd)).map Handled.irc) c

/-- **The operations of a mode string** are those of its changes.

**Proof sketch.** By induction on the letters. A sign is kept for what follows it; any other letter
is one for a mode of users and takes the next nick, which is not empty. -/
lemma modeOps_eq_changes (chan : Bytes) {sign : Byte} {ls : Bytes} {nicks pad : List Bytes}
    (hletters : ∀ l ∈ ls, isSign l ∨ (modePrefix l).isSome)
    (hnicks : ∀ k < ls.countP (fun l => !isSign l), ∃ nick ∈ nicks[k]?, nick ≠ []) :
    modeOps chan sign (nicks ++ pad) ls = (modeChanges sign ls nicks).map (ModeChange.op chan) := by
  induction ls generalizing sign nicks with
  | nil => rfl
  | cons l ls ih =>
    obtain ⟨hl, hls⟩ := List.forall_mem_cons.mp hletters
    by_cases hsign : isSign l = true
    · rw [List.countP_cons_of_neg (by simp [hsign])] at hnicks
      simp only [modeOps, if_pos ((isSign_iff l).mp hsign), modeChanges, if_pos hsign]
      exact ih hls hnicks
    · rw [List.countP_cons_of_pos (by simp [hsign])] at hnicks
      obtain ⟨newmode, hnewmode⟩ := Option.isSome_iff_exists.mp (hl.resolve_left hsign)
      obtain ⟨nick, hnick, hne⟩ := hnicks 0 (Nat.succ_pos _)
      rcases nicks with _ | ⟨nick', nicks⟩
      · cases hnick
      · obtain rfl := Option.some.inj hnick
        have hrest : modeOps chan sign (nicks ++ pad) ls =
            (modeChanges sign ls nicks).map (ModeChange.op chan) :=
          ih hls fun k hk => hnicks (k + 1) (Nat.succ_lt_succ hk)
        rw [modeChanges, if_neg hsign, List.map_cons, List.tail_cons, ← hrest]
        simp only [modeOps, if_neg (not_isSign_of_modePrefix hnewmode), hnewmode, List.cons_append,
          if_neg hne, ModeChange.op, ModeChange.newmode, Option.getD_some, List.headD_cons]

/-- The handler takes one parameter for each change. -/
lemma paramsTaken_of_letters (sign : Byte) {ls : Bytes}
    (hletters : ∀ l ∈ ls, isSign l ∨ (modePrefix l).isSome) :
    paramsTaken handlerTakes sign ls = ls.countP fun l => !isSign l := by
  induction ls generalizing sign with
  | nil => rfl
  | cons l ls ih =>
    obtain ⟨hl, hls⟩ := List.forall_mem_cons.mp hletters
    by_cases hsign : isSign l = true
    · rw [paramsTaken, if_pos hsign, List.countP_cons_of_neg (by simp [hsign])]
      exact ih l hls
    · have htakes : handlerTakes sign l = true := by
        rw [handlerTakes, hl.resolve_left hsign, Bool.true_or]
      rw [paramsTaken, if_neg hsign, if_pos htakes, List.countP_cons_of_pos (by simp [hsign]),
        ih sign hls, Nat.add_comm]

namespace ModeMessage

variable {m : Message} {chan : Bytes} {sign : Byte} {ls : Bytes} {nicks : List Bytes}

/-- The parameters and the padding behind them. -/
lemma params_eq (hm : ModeMessage m chan sign ls nicks) :
    ∃ pad, m.params = chan :: (sign :: ls) :: (nicks ++ pad) := by
  rw [Message.params, hm.given]
  split_ifs
  · exact ⟨_, rfl⟩
  · exact ⟨[], by rw [List.append_nil]⟩

/-- The first two parameters. -/
lemma arg_eq (hm : ModeMessage m chan sign ls nicks) : m.arg 0 = chan ∧ m.arg 1 = sign :: ls := by
  obtain ⟨pad, hparams⟩ := hm.params_eq
  exact ⟨List.get_of_eq hparams _, List.get_of_eq hparams _⟩

/-- There are enough parameters for the handler. -/
lemma two_le (hm : ModeMessage m chan sign ls nicks) : ¬ m.nparam < 2 := by
  rw [Message.nparam, hm.given, List.length_cons, List.length_cons]
  omega

/-- The mode string contains no NUL. -/
lemma cstr_modes (hm : ModeMessage m chan sign ls nicks) : cstr (sign :: ls) = sign :: ls := by
  refine cstr_eq_self fun hmem => ?_
  have hzero : Meowbot.isSign 0 = false ∧ modePrefix 0 = none := by decide
  rcases List.mem_cons.mp hmem with h0 | hmem
  · have := hm.isSign
    rw [← h0, hzero.1] at this
    cases this
  · rcases hm.letters 0 hmem with h | h
    · rw [hzero.1] at h
      cases h
    · rw [hzero.2] at h
      cases h

/-- The handler comes to the end of the mode string.

**Proof sketch.** Every letter that takes a parameter finds a nick (`modeVarsAt_of_params`), and no
letter is left out, so the loop comes to its end. -/
lemma onMode_ok (hm : ModeMessage m chan sign ls nicks) (c : Irc) : ∃ h, onMode c m = .ok h := by
  obtain ⟨pad, hparams⟩ := hm.params_eq
  have hmodes : cstr (m.arg 1) = sign :: ls := by rw [hm.arg_eq.2, hm.cstr_modes]
  have hgiven : ∀ k < paramsTaken handlerTakes sign ls, m.params.getD (2 + k) [] ≠ [] := by
    intro k hk
    rw [paramsTaken_of_letters sign hm.letters] at hk
    obtain ⟨nick, hnick, hne⟩ := hm.nicks k hk
    have hget : m.params[2 + k]? = some nick := by
      have hnick' : nicks[k]? = some nick := hnick
      rw [hparams, Nat.add_comm, List.getElem?_cons_succ, List.getElem?_cons_succ,
        List.getElem?_append_left (List.getElem?_eq_some_iff.mp hnick').1, hnick']
    rwa [List.getD_eq_getElem?_getD, hget]
  obtain ⟨v, hv⟩ := Option.isSome_iff_exists.mp
    (modeVarsAt_of_params (v := modeVars c sign) hgiven)
  have hloop := modeLoop_append hv []
  rw [List.append_nil] at hloop
  rw [onMode_eq_loop c hm.two_le hmodes]
  change ∃ h, (modeLoop m (m.arg 0) (modeVars c sign) ls).map _ = .ok h
  rw [hloop]
  exact ⟨_, rfl⟩

/-- **A MODE message** is handled without a fault and performs the operations of its changes. -/
lemma lists_handle (hm : ModeMessage m chan sign ls nicks) (c : Irc) (now : ℤ) :
    ∃ h, handle c now m (.ofBytes m.cmd) = .ok h ∧
      h.irc.lists = ((modeChanges sign ls nicks).map (ModeChange.op chan)).foldl Lists.apply
        c.lists := by
  obtain ⟨h, hh⟩ := hm.onMode_ok c
  obtain ⟨pad, hparams⟩ := hm.params_eq
  have hcmd : Command.ofBytes m.cmd = .mode := by
    rw [hm.cmd]
    rfl
  have hops : c.listOps m .mode = (modeChanges sign ls nicks).map (ModeChange.op chan) := by
    have hchanges : modeOps chan sign (nicks ++ pad) ls = _ :=
      modeOps_eq_changes chan hm.letters hm.nicks
    rw [← hchanges, ← hm.arg_eq.1]
    simp only [Irc.listOps, if_neg hm.two_le, hm.arg_eq.2, hm.cstr_modes, hparams]
    rfl
  rw [hcmd, ← hops]
  exact ⟨h, hh, lists_onMode hh⟩

end ModeMessage

/-! ## The last change decides -/

/-- The mode characters after one is given. -/
lemma IrcUser.mem_addToChanusermode (u : IrcUser) (newmode mode : Byte) :
    mode ∈ (u.addToChanusermode [newmode]).chanmode ↔ newmode = mode ∨ mode ∈ u.chanmode := by
  simp only [addToChanusermode, List.foldl_cons, List.foldl_nil]
  split_ifs with h
  · refine (or_iff_right_of_imp ?_).symm
    rintro rfl
    exact h
  · rw [List.mem_append, List.mem_singleton, or_comm, eq_comm]

/-- Giving a mode character makes no duplicates. -/
lemma IrcUser.nodup_addToChanusermode {u : IrcUser} (h : u.chanmode.Nodup) (newmode : Byte) :
    (u.addToChanusermode [newmode]).chanmode.Nodup := by
  simp only [addToChanusermode, List.foldl_cons, List.foldl_nil]
  split_ifs with hmem
  · exact h
  · exact List.nodup_append.mpr ⟨h, List.nodup_singleton _, fun a ha b hb hab => hmem <| by
      rwa [← List.mem_singleton.mp hb, ← hab]⟩

/-- The mode characters after one is taken. -/
lemma IrcUser.mem_delFromChanusermode {u : IrcUser} (h : u.chanmode.Nodup) (newmode mode : Byte) :
    mode ∈ (u.delFromChanusermode [newmode]).chanmode ↔ newmode ≠ mode ∧ mode ∈ u.chanmode := by
  rw [ne_comm]
  exact h.mem_erase_iff

namespace Lists

/-- The record of a user in a channel. -/
def user? (l : Lists) (chan nick : Bytes) : Option IrcUser := (l.usersOf chan).find? nick

/-- A user has a mode character in a channel. -/
def HasMode (l : Lists) (chan nick : Bytes) (mode : Byte) : Prop :=
  ∃ u ∈ l.user? chan nick, mode ∈ u.chanmode

/-- No user has a mode character twice. -/
def NodupModes (l : Lists) : Prop := ∀ chan nick, ∀ u ∈ l.user? chan nick, u.chanmode.Nodup

/-- **What a change does** to the records of the users. -/
lemma user?_op (l : Lists) (chan : Bytes) (ch : ModeChange) (x y : Bytes) :
    (l.apply (ch.op chan)).user? x y =
      if ircStrlower x = ircStrlower chan ∧ ircStrlower y = ircStrlower ch.nick then
        some (if ch.sign = '+' then ((l.user? x y).getD .init).addToChanusermode [ch.newmode]
          else ((l.user? x y).getD .init).delFromChanusermode [ch.newmode])
      else l.user? x y := by
  change (l.setMode chan ch.nick ch.sign ch.newmode).user? x y = _
  rw [user?, setMode, usersOf_mapUsers]
  by_cases hx : ircStrlower x = ircStrlower chan
  · rw [if_pos hx, FoldMap.find?_update]
    by_cases hy : ircStrlower y = ircStrlower ch.nick
    · rw [if_pos hy, if_pos (And.intro hx hy), user?, l.usersOf_congr hx, FoldMap.find?_congr _ hy]
    · rw [if_neg hy, if_neg (fun h => hy h.2), user?, l.usersOf_congr hx]
  · rw [if_neg hx, if_neg (fun h => hx h.1), user?]

/-- A user without a record has no modes. -/
lemma hasMode_iff (l : Lists) (chan nick : Bytes) (mode : Byte) :
    l.HasMode chan nick mode ↔ mode ∈ ((l.user? chan nick).getD .init).chanmode := by
  rw [HasMode]
  cases l.user? chan nick with
  | none => simp [IrcUser.init]
  | some u => simp

/-- The modes of a user, known or not, are without duplicates. -/
lemma NodupModes.getD {l : Lists} (h : l.NodupModes) (chan nick : Bytes) :
    ((l.user? chan nick).getD .init).chanmode.Nodup := by
  cases huser : l.user? chan nick with
  | none => exact List.nodup_nil
  | some u => exact h chan nick u huser

/-- **One change** of a mode of a user.

**Proof sketch.** The user of the change is the same without regard to case. If the mode is the one
of the change, the sign decides; the other modes of the user stay, and so do all other users. -/
lemma hasMode_op {l : Lists} (h : l.NodupModes) (chan : Bytes) (ch : ModeChange) (x y : Bytes)
    (mode : Byte) :
    (l.apply (ch.op chan)).HasMode x y mode ↔
      if (ircStrlower x = ircStrlower chan ∧ ircStrlower y = ircStrlower ch.nick) ∧
          ch.newmode = mode then ch.sign = '+'
      else l.HasMode x y mode := by
  have hu := h.getD x y
  rw [hasMode_iff, hasMode_iff, user?_op]
  by_cases htouched : ircStrlower x = ircStrlower chan ∧ ircStrlower y = ircStrlower ch.nick
  · rw [if_pos htouched, Option.getD_some]
    by_cases hsign : ch.sign = '+'
    · rw [if_pos hsign, IrcUser.mem_addToChanusermode]
      by_cases hmode : ch.newmode = mode
      · rw [if_pos ⟨htouched, hmode⟩]
        exact iff_of_true (.inl hmode) hsign
      · rw [if_neg fun h => hmode h.2]
        exact or_iff_right hmode
    · rw [if_neg hsign, IrcUser.mem_delFromChanusermode hu]
      by_cases hmode : ch.newmode = mode
      · rw [if_pos ⟨htouched, hmode⟩]
        exact iff_of_false (fun h => h.1 hmode) hsign
      · rw [if_neg fun h => hmode h.2]
        exact and_iff_right hmode
  · rw [if_neg htouched, if_neg fun h => htouched h.1]

/-- One change makes no duplicates. -/
lemma NodupModes.op {l : Lists} (h : l.NodupModes) (chan : Bytes) (ch : ModeChange) :
    (l.apply (ch.op chan)).NodupModes := by
  intro x y u hmem
  have hu := h.getD x y
  rw [user?_op] at hmem
  split_ifs at hmem with htouched hsign
  · obtain rfl := Option.some.inj hmem
    exact IrcUser.nodup_addToChanusermode hu _
  · obtain rfl := Option.some.inj hmem
    exact hu.erase _
  · exact h x y u hmem

end Lists

/-- The last change of a mode of a user. -/
def lastChange (changes : List ModeChange) (nick : Bytes) (mode : Byte) : Option ModeChange :=
  (changes.filter fun ch => ircStrcasecmp ch.nick nick = 0 ∧ ch.newmode = mode).getLast?

/-- The last change, seen from the front. -/
lemma lastChange_cons (ch : ModeChange) (changes : List ModeChange) (nick : Bytes) (mode : Byte) :
    lastChange (ch :: changes) nick mode =
      if ircStrcasecmp ch.nick nick = 0 ∧ ch.newmode = mode then
        some ((lastChange changes nick mode).getD ch)
      else lastChange changes nick mode := by
  rw [lastChange, List.filter_cons]
  simp only [decide_eq_true_eq]
  split_ifs
  · rw [List.getLast?_cons, lastChange]
  · rfl

namespace Lists

/-- **The last change decides** whether a user has a mode. -/
lemma hasMode_changes {l : Lists} (h : l.NodupModes) (chan : Bytes) (changes : List ModeChange)
    {x : Bytes} (hx : ircStrcasecmp x chan = 0) (y : Bytes) (mode : Byte) :
    ((changes.map (ModeChange.op chan)).foldl apply l).HasMode x y mode ↔
      (∃ ch ∈ lastChange changes y mode, ch.sign = '+') ∨
        lastChange changes y mode = none ∧ l.HasMode x y mode := by
  induction changes generalizing l with
  | nil => simp [lastChange]
  | cons ch changes ih =>
    have hsame : (ircStrlower x = ircStrlower chan ∧ ircStrlower y = ircStrlower ch.nick) ↔
        ircStrcasecmp ch.nick y = 0 := by
      rw [ircStrcasecmp_eq_zero] at hx ⊢
      exact ⟨fun h => h.2.symm, fun h => ⟨hx, h.symm⟩⟩
    rw [List.map_cons, List.foldl_cons, ih (h.op chan ch), hasMode_op h, lastChange_cons]
    simp only [hsame]
    split_ifs with htouches
    · rcases lastChange changes y mode with _ | ch' <;> simp
    · rfl

/-- The users whom no change names are as before. -/
lemma user?_changes (l : Lists) (chan : Bytes) {changes : List ModeChange} {x y : Bytes}
    (h : ¬ (ircStrcasecmp x chan = 0 ∧ ∃ ch ∈ changes, ircStrcasecmp ch.nick y = 0)) :
    ((changes.map (ModeChange.op chan)).foldl apply l).user? x y = l.user? x y := by
  induction changes generalizing l with
  | nil => rfl
  | cons ch changes ih =>
    rw [List.map_cons, List.foldl_cons, ih, user?_op, if_neg]
    · rintro ⟨hx, hy⟩
      refine h ⟨(ircStrcasecmp_eq_zero _ _).mpr hx, ch, List.mem_cons_self, ?_⟩
      exact (ircStrcasecmp_eq_zero _ _).mpr hy.symm
    · rintro ⟨hx, ch', hmem, hy⟩
      exact h ⟨hx, ch', List.mem_cons_of_mem _ hmem, hy⟩

/-- Changes make no duplicates. -/
lemma NodupModes.changes {l : Lists} (h : l.NodupModes) (chan : Bytes)
    (changes : List ModeChange) :
    ((changes.map (ModeChange.op chan)).foldl apply l).NodupModes := by
  induction changes generalizing l with
  | nil => exact h
  | cons ch changes ih => exact ih (h.op chan ch)

/-- Changes leave the nick and the channels of the bot alone. -/
lemma chans_changes (l : Lists) (chan : Bytes) (changes : List ModeChange) :
    ((changes.map (ModeChange.op chan)).foldl apply l).nick = l.nick ∧
      ((changes.map (ModeChange.op chan)).foldl apply l).chans = l.chans := by
  induction changes generalizing l with
  | nil => exact ⟨rfl, rfl⟩
  | cons ch changes ih => exact ih _

end Lists

/-! ## Lines and single changes -/

/-- The letters of changes are not signs. -/
lemma not_isSign_of_mem_modeChanges {sign : Byte} {ls : Bytes} {nicks : List Bytes}
    {ch : ModeChange} (h : ch ∈ modeChanges sign ls nicks) : ¬ isSign ch.letter := by
  induction ls generalizing sign nicks with
  | nil => cases h
  | cons l ls ih =>
    rw [modeChanges] at h
    split_ifs at h with hsign
    · exact ih h
    · rcases List.mem_cons.mp h with rfl | h
      · exact hsign
      · exact ih h

/-- A message with a single change. -/
def ModeChange.message (chan : Bytes) (ch : ModeChange) : Message :=
  { ident := [], cmd := bytes "MODE", given := [chan, [ch.sign, ch.letter], ch.nick] }

/-- **Every change is a message** of its own.

**Proof sketch.** By induction on the letters: each change takes its nick, which is not empty, and
makes a message with a sign, one letter and this nick. -/
lemma modeMessage_message (chan : Bytes) {sign : Byte} {ls : Bytes} {nicks : List Bytes}
    (hsign : isSign sign) (hletters : ∀ l ∈ ls, isSign l ∨ (modePrefix l).isSome)
    (hnicks : ∀ k < ls.countP (fun l => !isSign l), ∃ nick ∈ nicks[k]?, nick ≠ [])
    {ch : ModeChange} (h : ch ∈ modeChanges sign ls nicks) :
    ModeMessage (ch.message chan) chan ch.sign [ch.letter] [ch.nick] := by
  induction ls generalizing sign nicks with
  | nil => cases h
  | cons l ls ih =>
    obtain ⟨hl, hls⟩ := List.forall_mem_cons.mp hletters
    rw [modeChanges] at h
    split_ifs at h with hs
    · rw [List.countP_cons_of_neg (by simp [hs])] at hnicks
      exact ih hs hls hnicks h
    · rw [List.countP_cons_of_pos (by simp [hs])] at hnicks
      rcases nicks with _ | ⟨nick, nicks⟩
      · obtain ⟨nick, hnick, -⟩ := hnicks 0 (Nat.succ_pos _)
        cases hnick
      · rcases List.mem_cons.mp h with rfl | h
        · refine ⟨rfl, rfl, hsign, fun l' hl' => ?_, fun k hk => ?_⟩
          · rw [List.mem_singleton.mp hl']
            exact hl
          · obtain ⟨nick', hnick, hne⟩ := hnicks 0 (Nat.succ_pos _)
            rw [List.countP_cons_of_pos (by simp [hs]), List.countP_nil] at hk
            obtain rfl := Nat.lt_one_iff.mp hk
            exact ⟨nick', hnick, hne⟩
        · exact ih hsign hls (fun k hk => hnicks (k + 1) (Nat.succ_lt_succ hk)) h

/-- **Single changes**, one message for each, are the operations of the changes. -/
lemma lists_handleAll {chan : Bytes} {changes : List ModeChange} {singles : List (ℤ × Message)}
    (h : List.Forall₂ (fun ch s => ModeMessage s.2 chan ch.sign [ch.letter] [ch.nick]) changes
      singles) (hletters : ∀ ch ∈ changes, ¬ isSign ch.letter) (c : Irc) :
    ∃ c', handleAll c singles = .ok c' ∧
      c'.lists = (changes.map (ModeChange.op chan)).foldl Lists.apply c.lists := by
  induction h generalizing c with
  | nil => exact ⟨c, rfl, rfl⟩
  | cons hs _ ih =>
    obtain ⟨hletter, hletters⟩ := List.forall_mem_cons.mp hletters
    obtain ⟨h, hhandle, hlists⟩ := hs.lists_handle c _
    obtain ⟨c', hall, hlists'⟩ := ih hletters h.irc
    refine ⟨c', ?_, ?_⟩
    · rw [handleAll, List.foldlM_cons, hhandle]
      exact hall
    · rw [hlists', hlists, modeChanges, if_neg hletter]
      rfl

/-- **A MODE line is its changes one by one.** For a table without duplicate mode characters and a
MODE message with changes of users only, the lists are the same after the message and after a
message for each of its changes, in order; a user of the channel has a mode then if the last change
of that mode of that user gives it, or if there is none and the user had it before; no other record
has changed, and there are no duplicates.

**Proof sketch.** Both are the operations of the changes; what one operation does to one mode of one
user shows that the last one decides. -/
theorem modeMessage_split {m : Message} {chan : Bytes} {sign : Byte} {ls : Bytes}
    {nicks : List Bytes} (hm : ModeMessage m chan sign ls nicks) {c : Irc}
    (hnodup : c.lists.NodupModes) (now : ℤ) {singles : List (ℤ × Message)}
    (hsingles : List.Forall₂ (fun ch s => ModeMessage s.2 chan ch.sign [ch.letter] [ch.nick])
      (modeChanges sign ls nicks) singles) :
    ∃ h c', handle c now m (.ofBytes m.cmd) = .ok h ∧ handleAll c singles = .ok c' ∧
      h.irc.lists = c'.lists ∧
      (∀ x y mode, ircStrcasecmp x chan = 0 → (h.irc.lists.HasMode x y mode ↔
        (∃ ch ∈ lastChange (modeChanges sign ls nicks) y mode, ch.sign = '+') ∨
          lastChange (modeChanges sign ls nicks) y mode = none ∧ c.lists.HasMode x y mode)) ∧
      (∀ x y, ¬ (ircStrcasecmp x chan = 0 ∧
          ∃ ch ∈ modeChanges sign ls nicks, ircStrcasecmp ch.nick y = 0) →
        h.irc.lists.user? x y = c.lists.user? x y) ∧
      h.irc.lists.nick = c.lists.nick ∧ h.irc.lists.chans = c.lists.chans ∧
      h.irc.lists.NodupModes := by
  obtain ⟨h, hhandle, hlists⟩ := hm.lists_handle c now
  obtain ⟨c', hall, hlists'⟩ :=
    lists_handleAll hsingles (fun ch hch => not_isSign_of_mem_modeChanges hch) c
  have hchans := c.lists.chans_changes chan (modeChanges sign ls nicks)
  refine ⟨h, c', hhandle, hall, hlists.trans hlists'.symm, ?_⟩
  rw [hlists]
  exact ⟨fun x y mode hx => Lists.hasMode_changes hnodup chan _ hx y mode,
    fun x y hxy => c.lists.user?_changes chan hxy, hchans.1, hchans.2, hnodup.changes chan _⟩

/-- A MODE message that contradicts itself.

**Proof sketch.** The message is a MODE message, so the theorem applies to it, and what the last
change of each mode says decides who has it. -/
theorem modeMessage_split_last :
    ∃ h c', handle (Irc.started (bytes "bot")) 0
        ⟨bytes "srv", bytes "MODE",
          [bytes "#c", bytes "+ov-o", bytes "foo", bytes "foo", bytes "FOO"]⟩
        (.ofBytes (bytes "MODE")) = .ok h ∧
      handleAll (Irc.started (bytes "bot")) (([⟨'+', 'o', bytes "foo"⟩, ⟨'+', 'v', bytes "foo"⟩,
        ⟨'-', 'o', bytes "FOO"⟩] : List ModeChange).map fun ch => (0, ch.message (bytes "#c"))) =
          .ok c' ∧
      h.irc.lists = c'.lists ∧ h.irc.lists.HasMode (bytes "#C") (bytes "Foo") '+' ∧
      ¬ h.irc.lists.HasMode (bytes "#C") (bytes "Foo") '@' := by
  have hm : ModeMessage ⟨bytes "srv", bytes "MODE",
      [bytes "#c", bytes "+ov-o", bytes "foo", bytes "foo", bytes "FOO"]⟩ (bytes "#c") '+'
      (bytes "ov-o") [bytes "foo", bytes "foo", bytes "FOO"] := by
    have hall : ((bytes "ov-o").all fun l => isSign l || (modePrefix l).isSome) = true := rfl
    refine ⟨rfl, rfl, rfl, fun l hl => by simpa using List.all_eq_true.mp hall l hl, fun k hk => ?_⟩
    have hlt : k < 3 := hk
    rcases k with _ | _ | _ | k
    · exact ⟨bytes "foo", rfl, by decide⟩
    · exact ⟨bytes "foo", rfl, by decide⟩
    · exact ⟨bytes "FOO", rfl, by decide⟩
    · omega
  have hnodup : (Irc.started (bytes "bot")).lists.NodupModes := fun _ _ u hu => by cases hu
  have hsingles : List.Forall₂
      (fun ch (s : ℤ × Message) => ModeMessage s.2 (bytes "#c") ch.sign [ch.letter] [ch.nick])
      (modeChanges '+' (bytes "ov-o") [bytes "foo", bytes "foo", bytes "FOO"]) _ :=
    List.forall₂_map_right_iff.mpr <| List.forall₂_same.mpr fun ch hch =>
      show ModeMessage (0, ch.message (bytes "#c")).2 _ _ _ _ from
        modeMessage_message (bytes "#c") hm.isSign hm.letters hm.nicks hch
  obtain ⟨h, c', hhandle, hall, hlists, hmode, -⟩ := modeMessage_split hm hnodup 0 hsingles
  refine ⟨h, c', hhandle, hall, hlists, ?_, ?_⟩
  · rw [hmode _ _ _ (by decide)]
    exact .inl ⟨_, rfl, rfl⟩
  · rw [hmode _ _ _ (by decide)]
    rintro (⟨ch, hch, hsign⟩ | ⟨hnone, -⟩)
    · obtain rfl := Option.some.inj hch
      cases hsign
    · cases hnone

end Meowbot
