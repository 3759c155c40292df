import Meowbot.ChanList

set_option relaxedAutoImplicit false
set_option autoImplicit false

/-!
# The users of the channels

The user lists keep a representation: a user is stored under a nonempty nick, the record holds
that nick up to the case mapping, its mode string consists of mode characters, and only channels
of the bot have users. Three handlers may break it. A JOIN of another user and the replies to WHO
and NAMES add users to channels the bot is not in; a nick that consists of mode characters only is
stored under the empty key; and MODE creates a record without a nick for a user it does not find.

## Main definitions

* `Meowbot.Lists.AllUsers` — a predicate on key and record holds of all users.
* `Meowbot.Lists.Tidy` — the representation invariant; `Lists.TidyOp` — the operations that keep it.

## Main results

* `Meowbot.Irc.run_modesOk` — mode strings consist of mode characters in every reachable state.
* `Meowbot.Irc.run_tidy` — the invariant holds as long as the messages keep it.
-/

namespace Meowbot

open Runs

namespace Lists

/-! ## Records -/

/-- A predicate on key and record holds of every user. -/
def AllUsers (l : Lists) (P : Bytes → IrcUser → Prop) : Prop := ∀ chan, (l.usersOf chan).All P

/-- Without users, every predicate holds of all of them. -/
lemma allUsers_init (nick : Bytes) (P : Bytes → IrcUser → Prop) : (init nick).AllUsers P :=
  fun _ => FoldMap.all_empty P

/-- A predicate survives a change of one channel that keeps it there. -/
lemma AllUsers.mapUsers {l : Lists} {P : Bytes → IrcUser → Prop} (h : l.AllUsers P) {chan : Bytes}
    {f : StrMap IrcUser → StrMap IrcUser} (hf : (f (l.usersOf chan)).All P) :
    (l.mapUsers chan f).AllUsers P := by
  intro x
  rw [usersOf_mapUsers]
  split_ifs
  · exact hf
  · exact h x

/-- A predicate survives the removal of a user. -/
lemma AllUsers.delUser {l : Lists} {P : Bytes → IrcUser → Prop} (h : l.AllUsers P)
    (chan nick : Bytes) : (l.delUser chan nick).AllUsers P := by
  unfold Lists.delUser
  split_ifs
  · exact h
  · exact h.mapUsers ((h chan).erase _)
  · exact h

/-- A predicate survives the addition of a user whose record satisfies it. -/
lemma AllUsers.addUser {l : Lists} {P : Bytes → IrcUser → Prop} (h : l.AllUsers P)
    {chan nick ident : Bytes}
    (hstore : chan ≠ [] → nick ≠ [] → ∀ key, ircStrlower key = ircStrlower (splitNickUsermode nick).2 →
      (key = (splitNickUsermode nick).2 ∨ ∃ user, P key user) →
      P key (Irc.storeUser ident nick ((l.usersOf chan).find? (splitNickUsermode nick).2))) :
    (l.addUser chan nick ident).AllUsers P := by
  unfold Lists.addUser
  split_ifs with hskip
  · exact h
  · obtain ⟨hchan, hnick⟩ := not_or.mp hskip
    refine h.mapUsers ((h chan).update (fun key user hkey hfind huser => ?_) fun hfind => ?_)
    · rw [← hfind]
      exact hstore hchan hnick key hkey (.inr ⟨user, huser⟩)
    · rw [← hfind]
      exact hstore hchan hnick _ rfl (.inl rfl)

/-- A predicate survives a change of mode characters that keeps it. -/
lemma AllUsers.setMode {l : Lists} {P : Bytes → IrcUser → Prop} (h : l.AllUsers P)
    {chan nick : Bytes} {sign newmode : Byte}
    (hmode : ∀ key user, P key user →
      P key (user.addToChanusermode [newmode]) ∧ P key (user.delFromChanusermode [newmode]))
    (hnew : (l.usersOf chan).find? nick = none →
      P nick (IrcUser.init.addToChanusermode [newmode]) ∧
        P nick (IrcUser.init.delFromChanusermode [newmode])) :
    (l.setMode chan nick sign newmode).AllUsers P := by
  refine h.mapUsers ((h chan).update (fun key user _ _ huser => ?_) fun hfind => ?_)
  · split_ifs
    · exact (hmode key user huser).1
    · exact (hmode key user huser).2
  · split_ifs
    · exact (hnew hfind).1
    · exact (hnew hfind).2

/-- **A predicate survives an operation** if it survives the operations that write records.

**Proof sketch.** By cases on the operation. Those that write a record are the hypotheses; the
others take records away, or change nothing in the tables. -/
lemma AllUsers.apply {l : Lists} {P : Bytes → IrcUser → Prop} (h : l.AllUsers P) {op : ListOp}
    (hadd : ∀ chan nick ident, op = .addUser chan nick ident → (l.addUser chan nick ident).AllUsers P)
    (hrename : ∀ chan nick newnick ident, op = .renameUser chan nick newnick ident →
      l.userJoined chan nick = true →
      ((l.delUser chan nick).addUser chan (l.decorated chan nick newnick) ident).AllUsers P)
    (hmode : ∀ chan nick sign newmode, op = .setMode chan nick sign newmode →
      (l.setMode chan nick sign newmode).AllUsers P) : (l.apply op).AllUsers P := by
  cases op with
  | setNick nick => exact h
  | joinChan chan =>
    change (l.joinChan chan).AllUsers P
    unfold joinChan
    split_ifs
    · exact h
    · exact AllUsers.mapUsers (l := { l with chans := l.chans ++ [chan] }) h (FoldMap.all_empty _)
  | leaveChan chan =>
    change (l.leaveChan chan).AllUsers P
    unfold leaveChan
    split_ifs
    · exact AllUsers.mapUsers (l := { l with chans := _ }) (f := fun _ => .empty) h
        (FoldMap.all_empty _)
    · exact h
  | clearUsers chan => exact h.mapUsers (FoldMap.all_empty _)
  | addUser chan nick ident => exact hadd chan nick ident rfl
  | delUser chan nick => exact h.delUser chan nick
  | setMode chan nick sign newmode => exact hmode chan nick sign newmode rfl
  | renameUser chan nick newnick ident =>
    change (l.renameUser chan nick newnick ident).AllUsers P
    unfold renameUser
    split_ifs with hjoined
    · exact hrename chan nick newnick ident rfl hjoined
    · exact h

/-! ## Mode strings -/

/-- The mode strings of all users consist of mode characters. -/
def ModesOk (l : Lists) : Prop := l.AllUsers fun _ user => ∀ c ∈ user.chanmode, isModeChar c

/-- Adding a user leaves mode characters in the mode strings. -/
lemma ModesOk.addUser {l : Lists} (h : l.ModesOk) (chan nick ident : Bytes) :
    (l.addUser chan nick ident).ModesOk :=
  AllUsers.addUser h fun _ _ _ _ _ => splitNickUsermode_mode nick

/-- **One operation** leaves mode characters in the mode strings. -/
lemma ModesOk.apply {l : Lists} {op : ListOp} (h : l.ModesOk) (hvalid : l.Valid op) :
    (l.apply op).ModesOk := by
  refine AllUsers.apply h (fun chan nick ident _ => h.addUser chan nick ident)
    (fun chan nick newnick ident _ _ => ModesOk.addUser (h.delUser chan nick) _ _ _) ?_
  rintro chan nick sign newmode rfl
  refine AllUsers.setMode h (fun key user huser => ⟨?_, ?_⟩) fun _ => ⟨?_, ?_⟩
  · exact IrcUser.isModeChar_addToChanusermode huser hvalid
  · exact IrcUser.isModeChar_delFromChanusermode huser newmode
  · exact IrcUser.isModeChar_addToChanusermode (fun _ hc => absurd hc List.not_mem_nil) hvalid
  · exact IrcUser.isModeChar_delFromChanusermode (fun _ hc => absurd hc List.not_mem_nil) newmode

/-- The decorated nick holds the nick given. -/
lemma ModesOk.splitNickUsermode_decorated {l : Lists} (h : l.ModesOk) (chan nick newnick : Bytes) :
    (splitNickUsermode (l.decorated chan nick newnick)).2 = (splitNickUsermode newnick).2 := by
  unfold decorated
  split_ifs
  · rfl
  · rcases hfind : (l.usersOf chan).find? nick with _ | user
    · rfl
    · obtain ⟨-, -, huser⟩ := (h chan).of_find? hfind
      exact splitNickUsermode_append huser newnick

/-! ## The representation -/

/-- A record is stored under its nick, and its modes are mode characters. -/
structure Sound (key : Bytes) (user : IrcUser) : Prop where
  key_ne_nil : key ≠ []
  nick_eq : ircStrlower user.nick = ircStrlower key
  modes : ∀ c ∈ user.chanmode, isModeChar c

/-- **The representation of the users**: every record is sound, and only channels of the bot have
users. -/
structure Tidy (l : Lists) : Prop where
  users : l.AllUsers Sound
  confined : ∀ chan, ¬ l.InChans chan → (l.usersOf chan).entries = []

/-- The operations that keep the representation: a user who is added has a nick and is in a channel
of the bot, a user who is renamed gets a nick (or is not added again), and a user whose modes are
set is in the user list. -/
def TidyOp (l : Lists) : ListOp → Prop
  | .addUser chan nick _ =>
    chan = [] ∨ nick = [] ∨ (l.InChans chan ∧ (splitNickUsermode nick).2 ≠ [])
  | .renameUser chan nick newnick _ => l.userJoined chan nick = true →
    l.decorated chan nick newnick = [] ∨ (splitNickUsermode newnick).2 ≠ []
  | .setMode chan nick _ _ => (l.usersOf chan).contains nick
  | _ => True

instance (l : Lists) : (op : ListOp) → Decidable (l.TidyOp op)
  | .addUser chan nick _ => inferInstanceAs (Decidable (chan = [] ∨ nick = [] ∨
      (l.InChans chan ∧ (splitNickUsermode nick).2 ≠ [])))
  | .renameUser chan nick newnick _ => inferInstanceAs (Decidable (l.userJoined chan nick = true →
      l.decorated chan nick newnick = [] ∨ (splitNickUsermode newnick).2 ≠ []))
  | .setMode chan nick _ _ => inferInstanceAs (Decidable ((l.usersOf chan).contains nick = true))
  | .setNick _ => isTrue trivial
  | .joinChan _ => isTrue trivial
  | .leaveChan _ => isTrue trivial
  | .clearUsers _ => isTrue trivial
  | .delUser _ _ => isTrue trivial

/-- Only channels of the bot have users after a change of the users of one channel, if it is such
a channel or has no users afterwards. -/
lemma confined_mapUsers {l : Lists} (h : ∀ x, ¬ l.InChans x → (l.usersOf x).entries = [])
    {chan : Bytes} {f : StrMap IrcUser → StrMap IrcUser}
    (hf : l.InChans chan ∨ (f (l.usersOf chan)).entries = []) :
    ∀ x, ¬ (l.mapUsers chan f).InChans x → ((l.mapUsers chan f).usersOf x).entries = [] := by
  intro x hx
  have hx' : ¬ l.InChans x := hx
  rw [usersOf_mapUsers]
  split_ifs with heq
  · refine hf.resolve_left fun hin => hx' ?_
    rw [inChans_iff, heq]
    exact (l.inChans_iff chan).mp hin
  · exact h x hx'

/-- Forgetting the users of a channel keeps the representation. -/
lemma Tidy.clearUsers {l : Lists} (h : l.Tidy) (chan : Bytes) : (l.clearUsers chan).Tidy :=
  ⟨h.users.mapUsers (FoldMap.all_empty _), confined_mapUsers h.confined (.inr rfl)⟩

/-- Entering a channel keeps the representation. -/
lemma Tidy.joinChan {l : Lists} (h : l.Tidy) (chan : Bytes) : (l.joinChan chan).Tidy := by
  unfold Lists.joinChan
  split_ifs
  · exact h
  · refine Tidy.clearUsers (l := { l with chans := l.chans ++ [chan] }) ⟨h.users, ?_⟩ chan
    intro x hx
    refine h.confined x ?_
    rintro ⟨y, hy, heq⟩
    exact hx ⟨y, List.mem_append_left _ hy, heq⟩

/-- Leaving a channel keeps the representation.

**Proof sketch.** The table of the channel is emptied, and the other ones stay. So the predicate
holds of all records, and a channel that is not in the list has an empty table. -/
lemma Tidy.leaveChan {l : Lists} (h : l.Tidy) (hl : l.ChansOk) (chan : Bytes) :
    (l.leaveChan chan).Tidy := by
  by_cases hskip : chan ≠ [] ∧ l.InChans chan
  · have husers : ∀ x, (l.leaveChan chan).usersOf x =
        if ircStrlower x = ircStrlower chan then .empty else l.usersOf x := by
      rw [Lists.leaveChan, if_pos hskip]
      exact fun x => usersOf_mapUsers _ chan _ x
    constructor
    · intro x
      rw [husers]
      split_ifs
      · exact FoldMap.all_empty _
      · exact h.users x
    · intro x hx
      rw [husers]
      split_ifs with heq
      · rfl
      · exact h.confined x fun hin => hx ((inChans_leaveChan hl hskip.1 x).mpr ⟨hin, heq⟩)
  · rw [Lists.leaveChan, if_neg hskip]
    exact h

/-- Removing a user keeps the representation. -/
lemma Tidy.delUser {l : Lists} (h : l.Tidy) (chan nick : Bytes) : (l.delUser chan nick).Tidy := by
  refine ⟨h.users.delUser chan nick, ?_⟩
  unfold Lists.delUser
  split_ifs
  · exact h.confined
  · refine confined_mapUsers h.confined ?_
    by_cases hin : l.InChans chan
    · exact .inl hin
    · exact .inr (by simp [FoldMap.erase, h.confined chan hin])
  · exact h.confined

/-- Adding a user with a nick to a channel of the bot keeps the representation. -/
lemma Tidy.addUser {l : Lists} (h : l.Tidy) {chan nick : Bytes} (ident : Bytes)
    (hop : chan = [] ∨ nick = [] ∨ (l.InChans chan ∧ (splitNickUsermode nick).2 ≠ [])) :
    (l.addUser chan nick ident).Tidy := by
  constructor
  · refine h.users.addUser fun hchan hnick key hkey hold => ⟨?_, hkey.symm, splitNickUsermode_mode nick⟩
    obtain ⟨-, hnil⟩ := (hop.resolve_left hchan).resolve_left hnick
    rcases hold with rfl | ⟨user, huser⟩
    · exact hnil
    · exact huser.key_ne_nil
  · unfold Lists.addUser
    split_ifs with hskip
    · exact h.confined
    · obtain ⟨hchan, hnick⟩ := not_or.mp hskip
      exact confined_mapUsers h.confined (.inl ((hop.resolve_left hchan).resolve_left hnick).1)

/-- Setting a mode of a known user keeps the representation. -/
lemma Tidy.setMode {l : Lists} (h : l.Tidy) {chan nick : Bytes} (sign : Byte) {newmode : Byte}
    (hmode : isModeChar newmode) (hop : (l.usersOf chan).contains nick) :
    (l.setMode chan nick sign newmode).Tidy := by
  have hfind : (l.usersOf chan).find? nick ≠ none := by
    rw [FoldMap.contains] at hop
    exact Option.isSome_iff_ne_none.mp hop
  constructor
  · refine h.users.setMode (fun key user huser => ⟨?_, ?_⟩) fun hnone => absurd hnone hfind
    · exact ⟨huser.key_ne_nil, huser.nick_eq, IrcUser.isModeChar_addToChanusermode huser.modes hmode⟩
    · exact ⟨huser.key_ne_nil, huser.nick_eq,
        IrcUser.isModeChar_delFromChanusermode huser.modes newmode⟩
  · refine confined_mapUsers h.confined (.inl ?_)
    by_contra hin
    exact hfind (by simp [FoldMap.find?, h.confined chan hin])

/-- **One operation** keeps the representation.

**Proof sketch.** One case for each operation, of which each has a lemma of its own. -/
lemma Tidy.apply {l : Lists} {op : ListOp} (h : l.Tidy) (hl : l.ChansOk) (hvalid : l.Valid op)
    (hop : l.TidyOp op) : (l.apply op).Tidy := by
  cases op with
  | setNick nick => exact ⟨h.users, h.confined⟩
  | joinChan chan => exact h.joinChan chan
  | leaveChan chan => exact h.leaveChan hl chan
  | clearUsers chan => exact h.clearUsers chan
  | addUser chan nick ident => exact h.addUser ident hop
  | delUser chan nick => exact h.delUser chan nick
  | setMode chan nick sign newmode => exact h.setMode sign hvalid hop
  | renameUser chan nick newnick ident =>
    change (l.renameUser chan nick newnick ident).Tidy
    unfold Lists.renameUser
    split_ifs with hjoined
    · refine (h.delUser chan nick).addUser ident (.inr ?_)
      have hmodes : l.ModesOk := fun x => (h.users x).imp fun _ _ huser => huser.modes
      rw [hmodes.splitNickUsermode_decorated, InChans, chans_delUser]
      exact (hop hjoined).imp id fun hnil => ⟨hvalid, hnil⟩
    · exact h

/-- An operation does not disturb the condition of a later one of the same message.

**Proof sketch.** By cases on the two operations. The condition of the later one is about its
channel and its nick, which the earlier operation keeps: it is about another channel, or adds to a
table, or changes a status. -/
lemma TidyOp.together {l : Lists} {a b : ListOp} (hab : ListOp.Together a b) (hb : l.TidyOp b) :
    (l.apply a).TidyOp b := by
  cases hab with
  | setNick newnick chan nick newnick' ident => exact hb
  | clearUsers chan chan' nick h => exact hb
  | delUser => trivial
  | addUser chan nick chan' nick' h =>
    simp only [TidyOp, apply, InChans, chans_addUser]
    exact hb
  | renameUser h nick newnick ident =>
    rename_i chan chan'
    have husers := l.usersOf_renameUser_of_ne (Ne.symm h) nick newnick ident
    simp only [TidyOp, apply, userJoined_congr husers, decorated_congr husers]
    exact hb
  | setMode chan nick sign newmode chan' nick' sign' newmode' =>
    change ((l.setMode chan nick sign newmode).usersOf chan').contains nick'
    unfold Lists.setMode
    rw [usersOf_mapUsers]
    by_cases heq : ircStrlower chan' = ircStrlower chan
    · rw [if_pos heq, FoldMap.contains_update]
      refine .inr ?_
      rw [← l.usersOf_congr heq]
      exact hb
    · rw [if_neg heq]
      exact hb

/-- The lists at the start. -/
lemma tidy_init (nick : Bytes) : (init nick).Tidy := ⟨allUsers_init nick _, fun _ _ => rfl⟩

end Lists

namespace Irc

/-- **The mode strings in every reachable state** consist of mode characters. -/
lemma run_modesOk {c₀ c : Irc} {is : List Input} (hc₀ : Started c₀)
    (h : Run (Fun serve) c₀ is c) : c.lists.ChansOk ∧ c.lists.ModesOk := by
  refine h.preserves (I := fun c => c.lists.ChansOk ∧ c.lists.ModesOk) (fun c i c' hc hstep => ?_) ?_
  · exact serve_preserves (C := fun _ _ => True) (I := fun l => l.ChansOk ∧ l.ModesOk)
      (fun l op hl hvalid _ => ⟨hl.1.apply hvalid, hl.2.apply hvalid⟩) (fun _ _ _ _ _ _ => trivial)
      hc.1.distinct hstep (fun _ _ => trivial) hc
  · obtain ⟨nick, hnick⟩ := hc₀.lists_eq
    rw [hnick]
    exact ⟨Lists.chansOk_init nick, Lists.allUsers_init nick _⟩

/-- **The representation of the user lists.** In every state reached by inputs whose operations keep
the representation, every record stored for a channel has a nonempty key, its nick is the key up to
the case mapping and its modes are mode characters; and a channel the bot is not in has none.

**Proof sketch.** Each operation keeps `Lists.Tidy` together with the invariant of the channels. The
condition is checked on the state before the input, since no operation disturbs the condition of a
later one. -/
theorem run_tidy {c₀ c : Irc} {is : List Input} (hc₀ : Started c₀)
    (h : Run (Under (Fun serve) fun c i => ∀ op ∈ c.inputOps i, c.lists.TidyOp op) c₀ is c)
    (chan : Bytes) :
    (∀ e ∈ (c.getChanuserlist chan).entries, e.1 ≠ [] ∧ ircStrcasecmp e.2.nick e.1 = 0 ∧
      ∀ b ∈ e.2.chanmode, b ∈ bytes "~&@%+") ∧
    ((¬ ∃ x ∈ c.chans, ircStrcasecmp x chan = 0) → (c.getChanuserlist chan).entries = []) := by
  have hinit : c₀.lists.ChansOk ∧ c₀.lists.Tidy := by
    obtain ⟨nick, hnick⟩ := hc₀.lists_eq
    rw [hnick]
    exact ⟨Lists.chansOk_init nick, Lists.tidy_init nick⟩
  have hrun : c.lists.ChansOk ∧ c.lists.Tidy := by
    refine h.preserves (I := fun c => c.lists.ChansOk ∧ c.lists.Tidy) ?_ hinit
    rintro c i c' hc ⟨hserve, hops⟩
    exact serve_preserves (I := fun l => l.ChansOk ∧ l.Tidy)
      (fun l op hl hvalid hop => ⟨hl.1.apply hvalid, hl.2.apply hl.1 hvalid hop⟩)
      (fun l a b hab _ hb => hb.together hab) hc.1.distinct hserve hops hc
  refine ⟨fun e he => ?_, hrun.2.confined chan⟩
  have hsound := hrun.2.users chan e he
  refine ⟨hsound.key_ne_nil, (ircStrcasecmp_eq_zero _ _).mpr hsound.nick_eq, fun b hb => ?_⟩
  exact of_decide_eq_true (hsound.modes b hb)

/-- A bot that has joined a channel is told that a user it does not know has become operator. -/
def opRun : List Input :=
  [.line 0 (bytes ":bot!u@h JOIN #c"), .line 1 (bytes ":srv MODE #c +o foo")]

/-- **A record without a nick** is stored for a user who is made operator before the bot knows the
users of the channel. -/
theorem run_not_tidy :
    ∃ c₀ c, Started c₀ ∧ Run (Fun serve) c₀ opRun c ∧
      ∃ e ∈ (c.getChanuserlist (bytes "#c")).entries, ircStrcasecmp e.2.nick e.1 ≠ 0 := by
  refine ⟨started (bytes "bot"), _, started_started _, Run.of_foldlM rfl, ?_⟩
  exact ⟨(bytes "foo", IrcUser.init.addToChanusermode (bytes "@")), List.mem_singleton.mpr rfl,
    by decide⟩

/-- A user joins the channel of the bot and is made operator. -/
def joinOpRun : List Input :=
  [.line 0 (bytes ":bot!u@h JOIN #c"), .line 1 (bytes ":foo!u@h JOIN #c"),
    .line 2 (bytes ":srv MODE #c +o foo")]

/-- The representation for that run. -/
theorem run_tidy_joinOp :
    ∃ c, Run (Under (Fun serve) fun c i => ∀ op ∈ c.inputOps i, c.lists.TidyOp op)
      (started (bytes "bot")) joinOpRun c ∧
      ∀ e ∈ (c.getChanuserlist (bytes "#c")).entries, e.1 ≠ [] := by
  have hrun : Run (Under (Fun serve) fun c i => ∀ op ∈ c.inputOps i, c.lists.TidyOp op)
      (started (bytes "bot")) joinOpRun _ := Run.under_of_foldlM rfl
  exact ⟨_, hrun, fun e he => ((run_tidy (started_started _) hrun _).1 e he).1⟩

end Irc

end Meowbot
