import Meowbot.EventThreads

set_option relaxedAutoImplicit false
set_option autoImplicit false

/-!
# Keeping track of the users across threads

The user lists agree with the messages once all events have been handled, provided that no message
brings a nick back while its QUIT is still to be handled. An event thread removes a user by nick at
any time after the QUIT, so a JOIN or a NICK of the same nick in between would be undone, and a user
who is renamed before the removal would stay.

## Main definitions

* `Meowbot.Bot.pendingQuits`, `Bot.Pending` — the nicks whose QUIT is still to be handled.
* `Meowbot.Bot.InTime`, `Bot.Timely` — the condition on the messages received.
* `Meowbot.Bot.todo` — what the main thread has still to do to the members.
* `Meowbot.Bot.Tracked` — the invariant.

## Main results

* `Meowbot.Bot.run_tracked` — the members are as the messages say, once everything is handled.
-/

namespace Meowbot

open Runs
open Meowbot.Lists (AllUsers)

/-! ## Renaming in several channels -/

namespace Members

/-- The members after a nick has been changed in some channels. -/
def renamedIn (S : Members) (chans : List Bytes) (nick newnick : Bytes) : Members := fun x n =>
  if ∃ chan ∈ chans, ircStrlower chan = ircStrlower x then S.renamed nick newnick x n else S x n

/-- A nick is not changed twice. -/
lemma renamed_renamed (S : Members) (nick newnick x n : Bytes) :
    (S.renamed nick newnick).renamed nick newnick x n ↔ S.renamed nick newnick x n := by
  simp only [renamed]
  constructor
  · rintro (⟨h, -⟩ | ⟨⟨-, h⟩ | ⟨h, -⟩, hn⟩)
    · exact h
    · exact absurd rfl h
    · exact .inr ⟨h, hn⟩
  · rintro (⟨h, hn⟩ | ⟨h, hn⟩)
    · exact .inl ⟨.inl ⟨h, hn⟩, hn⟩
    · by_cases hold : ircStrlower n = ircStrlower nick
      · exact .inr ⟨.inr ⟨h, hold.symm.trans hn⟩, hn⟩
      · exact .inl ⟨.inr ⟨h, hn⟩, hold⟩

/-- Where the old nick is not, nothing changes. -/
lemma renamed_of_not {S : Members} {nick newnick x n : Bytes}
    (hcongr : ircStrlower n = ircStrlower nick → (S x n ↔ S x nick)) (h : ¬ S x nick) :
    S.renamed nick newnick x n ↔ S x n := by
  simp only [renamed, h, false_and, or_false, and_iff_left_iff_imp]
  exact fun hn hold => h ((hcongr hold).mp hn)

/-- A change in the first channel is one step of a change in all of them.

**Proof sketch.** In the first channel the two changes are one after the other, which is the change
made once (`renamed_renamed`). In another channel the first change does nothing. -/
lemma renamedIn_cons {S S' : Members} {chan nick newnick : Bytes} (chans : List Bytes)
    (h : ∀ x n, S' x n ↔
      if ircStrlower x = ircStrlower chan then S.renamed nick newnick x n else S x n) (x n : Bytes) :
    S'.renamedIn chans nick newnick x n ↔ S.renamedIn (chan :: chans) nick newnick x n := by
  simp only [renamedIn, List.mem_cons, exists_eq_or_imp]
  by_cases hx : ircStrlower x = ircStrlower chan
  · have hin : ircStrlower chan = ircStrlower x ∨
        ∃ c ∈ chans, ircStrlower c = ircStrlower x := .inl hx.symm
    have hrow : ∀ n, S' x n ↔ S.renamed nick newnick x n := fun n => by rw [h, if_pos hx]
    rw [if_pos hin]
    split_ifs
    · refine Iff.trans ?_ (renamed_renamed S nick newnick x n)
      change (S' x n ∧ _) ∨ (S' x nick ∧ _) ↔ _
      rw [hrow, hrow]
      exact Iff.rfl
    · exact hrow n
  · have hrow : ∀ n, S' x n ↔ S x n := fun n => by rw [h, if_neg hx]
    simp only [eq_comm (b := ircStrlower x), hx, false_or]
    split_ifs
    · simp only [renamed, hrow]
    · exact hrow n

end Members

/-! ## What is left alone -/

namespace Irc

@[simp] lemma chans_addToChanuserlist (c : Irc) (chan nick ident : Bytes) :
    (c.addToChanuserlist chan nick ident).chans = c.chans := by
  have hlists := congrArg Lists.chans (lists_addToChanuserlist c chan nick ident)
  rwa [Lists.chans_addUser] at hlists

@[simp] lemma chans_delFromChanuserlist (c : Irc) (chan nick : Bytes) :
    (c.delFromChanuserlist chan nick).chans = c.chans := by
  have hlists := congrArg Lists.chans (lists_delFromChanuserlist c chan nick)
  rwa [Lists.chans_delUser] at hlists

@[simp] lemma chans_refreshChanuserlist (c : Irc) (chan : Bytes) :
    (c.refreshChanuserlist chan).chans = c.chans :=
  congrArg Lists.chans (lists_refreshChanuserlist c chan)

@[simp] lemma events_quoteLine (c : Irc) (line : Bytes) : (c.quoteLine line).events = c.events := by
  rw [quoteLine]
  by_cases hc : c.status = .disconnected
  · rw [quote, if_pos hc]
  · rw [quote_snd hc]

@[simp] lemma events_refreshChanuserlist (c : Irc) (chan : Bytes) :
    (c.refreshChanuserlist chan).events = c.events := by
  unfold refreshChanuserlist
  split_ifs <;> exact events_quoteLine _ _

@[simp] lemma events_addToChanuserlist (c : Irc) (chan nick ident : Bytes) :
    (c.addToChanuserlist chan nick ident).events = c.events := by
  unfold addToChanuserlist
  split_ifs <;> rfl

@[simp] lemma events_delFromChanuserlist (c : Irc) (chan nick : Bytes) :
    (c.delFromChanuserlist chan nick).events = c.events := by
  simp only [delFromChanuserlist]
  split_ifs
  · rfl
  · rfl
  · exact events_refreshChanuserlist _ _

@[simp] lemma events_ircbotEventHandler (c : Irc) (nick : Bytes) :
    (c.ircbotEventHandler nick).events = c.events := by
  have hall : ∀ (chans : List Bytes) (c : Irc),
      (chans.foldl (fun c chan =>
        if c.isUserJoined chan nick then c.delFromChanuserlist chan nick else c) c).events =
        c.events := by
    intro chans
    induction chans with
    | nil => exact fun c => rfl
    | cons chan chans ih =>
      intro c
      rw [List.foldl_cons, ih]
      split_ifs
      · exact events_delFromChanuserlist c chan nick
      · rfl
  exact hall c.chans c

end Irc

/-! ## The invariant -/

/-- The nick of a QUIT event. -/
def IrcEvent.quitNick? : IrcEvent → Option Bytes
  | .quit who _ => some who.nick
  | _ => none

/-- The nick of a QUIT that an event thread has not handled yet. -/
def Worker.quitNick? : Worker → Option Bytes
  | .running e => e.quitNick?
  | _ => none

/-- The nick of a QUIT that the main thread has not queued yet. -/
def MainPc.quitNick? : MainPc → Option Bytes
  | .handling m => if Command.ofBytes m.cmd = .quit then some m.origin.nick else none
  | .reporting e => e.quitNick?
  | _ => none

namespace Bot

/-- The members according to the user lists. -/
def members (b : Bot) : Members := b.irc.lists.members

instance (b : Bot) (chan nick : Bytes) : Decidable (b.members chan nick) :=
  inferInstanceAs (Decidable (_ = true))

/-- The nicks whose QUIT is still to be handled. -/
def pendingQuits (b : Bot) : List Bytes :=
  b.pc.quitNick?.toList ++ b.irc.events.filterMap IrcEvent.quitNick? ++
    b.workers.filterMap Worker.quitNick?

lemma mem_pendingQuits (b : Bot) (q : Bytes) : q ∈ b.pendingQuits ↔ q ∈ b.pc.quitNick? ∨
    q ∈ b.irc.events.filterMap IrcEvent.quitNick? ∨ q ∈ b.workers.filterMap Worker.quitNick? := by
  rw [pendingQuits, List.mem_append, List.mem_append, Option.mem_toList, or_assoc]
  exact Iff.rfl

/-- The QUIT of a nick is still to be handled. -/
def Pending (b : Bot) (nick : Bytes) : Prop :=
  ∃ q ∈ b.pendingQuits, ircStrlower (bareNick q) = ircStrlower nick

instance (b : Bot) (nick : Bytes) : Decidable (b.Pending nick) :=
  inferInstanceAs (Decidable (∃ q ∈ b.pendingQuits, _))

/-- A nick may be changed: its user is in no channel of the bot, or no QUIT of the old or of the new
nick is still to be handled. -/
def CanRename (b : Bot) (nick newnick : Bytes) : Prop :=
  (∀ chan ∈ b.irc.chans, ¬ b.members chan nick) ∨ (¬ b.Pending nick ∧ ¬ b.Pending newnick)

instance (b : Bot) (nick newnick : Bytes) : Decidable (b.CanRename nick newnick) :=
  inferInstanceAs (Decidable (_ ∨ _))

/-- **The condition on messages**: no user joins whose QUIT is still to be handled, no user in a
channel takes or gives up a nick whose QUIT is still to be handled, and no user in a channel is
kicked under a nick with mode characters. -/
def InTime (b : Bot) (m : Message) : Prop :=
  match Command.ofBytes m.cmd with
  | .join => ¬ b.Pending (bareNick m.origin.nick)
  | .nick => b.CanRename (bareNick m.origin.nick) (bareNick (m.arg 0))
  | .kick => ircStrlower (m.arg 1) = ircStrlower (bareNick (m.arg 1)) ∨
      ¬ b.members (m.arg 0) (bareNick (m.arg 1))
  | _ => True

instance (b : Bot) (m : Message) : Decidable (b.InTime m) := by
  unfold InTime
  exact match Command.ofBytes m.cmd with
    | .join => inferInstanceAs (Decidable (¬ b.Pending _))
    | .nick => inferInstanceAs (Decidable (b.CanRename _ _))
    | .kick => inferInstanceAs (Decidable (_ ∨ ¬ b.members _ _))
    | .ping | .privmsg | .notice | .mode | .part | .quit | .whoReply | .endOfWho | .namesReply
    | .endOfNames | .error | .invite | .pong | .nickInUse | .isupport | .endOfMotd | .other =>
      isTrue trivial

/-- The messages received are in time. -/
def Timely (b : Bot) : Action → Prop
  | .receive line => ∀ m ∈ Message.ofLine (b.irc.convertLine line).1, b.InTime m
  | _ => True

instance (b : Bot) (a : Action) : Decidable (b.Timely a) :=
  match a with
  | .receive line => inferInstanceAs (Decidable (∀ m ∈ Message.ofLine (b.irc.convertLine line).1, _))
  | .main | .take _ | .handled _ | .resume _ => isTrue trivial

/-- What the main thread has still to do to the members: the change that the message in hand makes,
as far as its handler has not made it yet. The tables with this change are compared with what has
been heard. -/
def todo (b : Bot) (S : Members) : Members :=
  match b.pc with
  | .handling m =>
    match Command.ofBytes m.cmd with
    | .join => S.after (.joins (m.arg 0) (bareNick m.origin.nick))
    | .part => S.after (.leaves (m.arg 0) (bareNick m.origin.nick))
    | .kick => S.after (.leaves (m.arg 0) (bareNick (m.arg 1)))
    | .nick => S.renamedIn b.irc.chans (bareNick m.origin.nick) (bareNick (m.arg 0))
    | _ => S
  | .kicking m _ => S.after (.leaves (m.arg 0) (bareNick (m.arg 1)))
  | .searching m chans => S.renamedIn chans (bareNick m.origin.nick) (bareNick (m.arg 0))
  | .found m chan chans =>
    S.renamedIn (chan :: chans) (bareNick m.origin.nick) (bareNick (m.arg 0))
  | _ => S

/-- What the main thread relies on while it handles a message: the parameters that it uses are not
empty, and the nicks it is about to change are not those of a QUIT that an event thread has still to
handle. -/
def Safe (b : Bot) : Prop :=
  match b.pc with
  | .handling m =>
    match Command.ofBytes m.cmd with
    | .join => m.arg 0 ≠ [] ∧ m.origin.nick ≠ [] ∧ ¬ b.Pending (bareNick m.origin.nick)
    | .part => m.arg 0 ≠ [] ∧ m.origin.nick ≠ []
    | .kick => m.arg 0 ≠ [] ∧ m.arg 1 ≠ [] ∧
        (ircStrlower (m.arg 1) = ircStrlower (bareNick (m.arg 1)) ∨
          ¬ b.members (m.arg 0) (bareNick (m.arg 1)))
    | .nick => m.origin.nick ≠ [] ∧ m.arg 0 ≠ [] ∧
        b.CanRename (bareNick m.origin.nick) (bareNick (m.arg 0))
    | .quit => m.origin.nick ≠ []
    | _ => False
  | .kicking m _ => m.arg 0 ≠ [] ∧ m.arg 1 ≠ []
  | .searching m chans => m.origin.nick ≠ [] ∧ m.arg 0 ≠ [] ∧ chans ⊆ b.irc.chans ∧
      b.CanRename (bareNick m.origin.nick) (bareNick (m.arg 0))
  | .found m chan chans => m.origin.nick ≠ [] ∧ m.arg 0 ≠ [] ∧ chan :: chans ⊆ b.irc.chans ∧
      b.members chan (bareNick m.origin.nick) ∧ ¬ b.Pending (bareNick m.origin.nick) ∧
      ¬ b.Pending (bareNick (m.arg 0))
  | _ => True

/-- **The invariant**: apart from the nicks whose QUIT is still to be handled, the members are as
the messages say when the main thread has done what it has to do; and those nicks are in no channel
according to the messages. -/
structure Tracked (S₀ : Members) (b : Bot) : Prop where
  chansOk : b.irc.lists.ChansOk
  modesOk : b.irc.lists.ModesOk
  named : ∀ q ∈ b.pendingQuits, q ≠ []
  agree : ∀ chan ∈ b.irc.chans, ∀ nick, ¬ b.Pending nick →
    (b.todo b.members chan nick ↔ S₀.afterAll b.heard chan nick)
  gone : ∀ chan ∈ b.irc.chans, ∀ nick, b.Pending nick → ¬ S₀.afterAll b.heard chan nick
  safe : b.Safe

variable {S₀ : Members} {b b' : Bot}

/-- A channel of the list has a name. -/
lemma Tracked.chan_ne_nil (h : b.Tracked S₀) {chan : Bytes} (hchan : chan ∈ b.irc.chans) :
    chan ≠ [] := by
  rintro rfl
  exact h.chansOk.named [] hchan rfl

/-- A step that leaves alone what is pending and what is to be expected keeps the invariant.

**Proof sketch.** Every part of the invariant is about something that the step leaves alone, and is
carried over by rewriting. -/
lemma Tracked.of_same (h : b.Tracked S₀) (hchans : b'.irc.chans = b.irc.chans)
    (hmodes : b'.irc.lists.ModesOk) (hpending : ∀ q, q ∈ b'.pendingQuits ↔ q ∈ b.pendingQuits)
    (hheard : b'.heard = b.heard)
    (htodo : ∀ chan ∈ b.irc.chans, ∀ nick,
      b'.todo b'.members chan nick ↔ b.todo b.members chan nick) (hsafe : b'.Safe) :
    b'.Tracked S₀ := by
  have hlists : b'.irc.lists.chans = b.irc.lists.chans := hchans
  have hsame : ∀ nick, b'.Pending nick ↔ b.Pending nick := by
    intro nick
    simp only [Pending, hpending]
  refine ⟨⟨?_, ?_⟩, hmodes, ?_, ?_, ?_, hsafe⟩
  · rw [hlists]
    exact h.chansOk.distinct
  · rw [hlists]
    exact h.chansOk.named
  · exact fun q hq => h.named q ((hpending q).mp hq)
  · intro chan hchan nick hnick
    rw [hchans] at hchan
    rw [hsame] at hnick
    rw [htodo chan hchan, hheard]
    exact h.agree chan hchan nick hnick
  · intro chan hchan nick hnick
    rw [hchans] at hchan
    rw [hsame] at hnick
    rw [hheard]
    exact h.gone chan hchan nick hnick

/-! ## The main thread -/

/-- The first step of the JOIN handler. -/
lemma Tracked.join (h : b.Tracked S₀) {m : Message} (hpc : b.pc = .handling m)
    (hcmd : Command.ofBytes m.cmd = .join) (hstep : b.beginHandler m .join = some b') :
    b'.Tracked S₀ := by
  have hsafe := h.safe
  simp only [Safe, hpc, hcmd] at hsafe
  obtain ⟨hchan, hnick, -⟩ := hsafe
  obtain rfl := Option.some.inj hstep
  refine h.of_same (Irc.chans_addToChanuserlist _ _ _ _) ?_ ?_ rfl ?_ trivial
  · rw [Irc.lists_addToChanuserlist]
    exact h.modesOk.addUser _ _ _
  · intro q
    simp [pendingQuits, hpc, hcmd, MainPc.quitNick?, IrcEvent.quitNick?]
  · intro x hx n
    simp only [todo, hpc, hcmd, members, Irc.lists_addToChanuserlist]
    exact Lists.members_addUser hchan hnick _ x n

/-- The step of the PART handler. -/
lemma Tracked.part (h : b.Tracked S₀) {m : Message} (hpc : b.pc = .handling m)
    (hcmd : Command.ofBytes m.cmd = .part) (hstep : b.beginHandler m .part = some b') :
    b'.Tracked S₀ := by
  have hsafe := h.safe
  simp only [Safe, hpc, hcmd] at hsafe
  obtain ⟨hchan, hnick⟩ := hsafe
  obtain rfl := Option.some.inj hstep
  refine h.of_same (Irc.chans_delFromChanuserlist _ _ _) ?_ ?_ rfl ?_ trivial
  · rw [Irc.lists_delFromChanuserlist]
    exact AllUsers.delUser h.modesOk _ _
  · intro q
    simp [pendingQuits, hpc, hcmd, MainPc.quitNick?, IrcEvent.quitNick?]
  · intro x hx n
    simp only [todo, hpc, hcmd, members, Irc.lists_delFromChanuserlist]
    exact Lists.members_delUser hchan hnick x n

/-- The first step of the KICK handler.

**Proof sketch.** If the user is not in the table, the nick as it is spelled stands for nobody in
the channel, so nothing is left to be done. Otherwise the handler goes on with the record, which is
taken out by the next step. -/
lemma Tracked.kick (h : b.Tracked S₀) {m : Message} (hpc : b.pc = .handling m)
    (hcmd : Command.ofBytes m.cmd = .kick) (hstep : b.beginHandler m .kick = some b') :
    b'.Tracked S₀ := by
  have hsafe := h.safe
  simp only [Safe, hpc, hcmd] at hsafe
  obtain ⟨hchan, hnick, hspelling⟩ := hsafe
  rcases hfind : (b.irc.getChanuserlist (m.arg 0)).find? (m.arg 1) with _ | user
  · simp only [beginHandler, hfind] at hstep
    obtain rfl := Option.some.inj hstep
    have habsent : ¬ b.members (m.arg 0) (bareNick (m.arg 1)) := by
      rcases hspelling with hspelling | habsent
      · rw [members, ← Lists.members_congr _ _ hspelling]
        have hnone : ((b.irc.lists.usersOf (m.arg 0)).find? (m.arg 1)) = none := hfind
        simp [Lists.members, FoldMap.contains, hnone]
      · exact habsent
    refine h.of_same (Irc.chans_refreshChanuserlist _ _) ?_ ?_ rfl ?_ trivial
    · rw [Irc.lists_refreshChanuserlist]
      exact h.modesOk
    · intro q
      simp [pendingQuits, hpc, hcmd, MainPc.quitNick?]
    · intro x hx n
      simp only [todo, hpc, hcmd, members, Irc.lists_refreshChanuserlist]
      refine ⟨fun hin => ⟨hin, ?_⟩, fun hin => hin.1⟩
      rintro ⟨hx, hn⟩
      apply habsent
      rw [Lists.members_congr _ _ hn, Lists.members, Lists.usersOf_congr _ hx] at hin
      exact hin
  · simp only [beginHandler, hfind] at hstep
    obtain rfl := Option.some.inj hstep
    refine h.of_same rfl h.modesOk ?_ rfl ?_ ⟨hchan, hnick⟩
    · intro q
      simp [pendingQuits, hpc, hcmd, MainPc.quitNick?]
    · intro x hx n
      simp only [todo, hpc, hcmd, members]

/-- The removal of a user who has been kicked. -/
lemma Tracked.kicking (h : b.Tracked S₀) {m : Message} {user : IrcUser}
    (hpc : b.pc = .kicking m user) (hstep : b.mainStep = some b') : b'.Tracked S₀ := by
  have hsafe := h.safe
  simp only [Safe, hpc] at hsafe
  obtain ⟨hchan, hnick⟩ := hsafe
  simp only [mainStep, hpc] at hstep
  obtain rfl := Option.some.inj hstep
  refine h.of_same (Irc.chans_delFromChanuserlist _ _ _) ?_ ?_ rfl ?_ trivial
  · rw [Irc.lists_delFromChanuserlist]
    exact AllUsers.delUser h.modesOk _ _
  · intro q
    simp [pendingQuits, hpc, MainPc.quitNick?, IrcEvent.quitNick?]
  · intro x hx n
    simp only [todo, hpc, members, Irc.lists_delFromChanuserlist]
    exact Lists.members_delUser hchan hnick x n

/-- The first step of the NICK handler. -/
lemma Tracked.nick (h : b.Tracked S₀) {m : Message} (hpc : b.pc = .handling m)
    (hcmd : Command.ofBytes m.cmd = .nick) (hstep : b.beginHandler m .nick = some b') :
    b'.Tracked S₀ := by
  have hsafe := h.safe
  simp only [Safe, hpc, hcmd] at hsafe
  obtain ⟨hnick, hnewnick, hcan⟩ := hsafe
  obtain rfl := Option.some.inj hstep
  have hpending : ∀ q, q ∈ pendingQuits { b with pc := .searching m b.irc.chans } ↔
      q ∈ b.pendingQuits := by
    intro q
    simp [pendingQuits, hpc, hcmd, MainPc.quitNick?]
  refine h.of_same rfl h.modesOk hpending rfl ?_ ⟨hnick, hnewnick, fun _ hc => hc, ?_⟩
  · intro x hx n
    simp only [todo, hpc, hcmd, members]
  · simp only [CanRename, Pending, hpending]
    exact hcan

/-- The first step of the QUIT handler. -/
lemma Tracked.quit (h : b.Tracked S₀) {m : Message} (hpc : b.pc = .handling m)
    (hcmd : Command.ofBytes m.cmd = .quit) (hstep : b.beginHandler m .quit = some b') :
    b'.Tracked S₀ := by
  obtain rfl := Option.some.inj hstep
  refine h.of_same rfl h.modesOk ?_ rfl ?_ trivial
  · intro q
    simp [pendingQuits, hpc, hcmd, MainPc.quitNick?, IrcEvent.quitNick?]
  · intro x hx n
    simp only [todo, hpc, hcmd, members]

/-- The end of the loop of the NICK handler. -/
lemma Tracked.renamed (h : b.Tracked S₀) {m : Message} (hpc : b.pc = .searching m [])
    (hstep : b.mainStep = some b') : b'.Tracked S₀ := by
  simp only [mainStep, hpc] at hstep
  obtain rfl := Option.some.inj hstep
  refine h.of_same rfl h.modesOk ?_ rfl ?_ trivial
  · intro q
    simp [pendingQuits, hpc, MainPc.quitNick?, IrcEvent.quitNick?]
  · intro x hx n
    simp [todo, hpc, members, Members.renamedIn]

/-- The search for the user of a NICK in a channel.

**Proof sketch.** A user who is found may be renamed, so no QUIT of the two nicks is pending. Where
the user is not found, there is nothing to do. -/
lemma Tracked.searching (h : b.Tracked S₀) {m : Message} {chan : Bytes} {chans : List Bytes}
    (hpc : b.pc = .searching m (chan :: chans)) (hstep : b.mainStep = some b') :
    b'.Tracked S₀ := by
  have hsafe := h.safe
  simp only [Safe, hpc] at hsafe
  obtain ⟨hnick, hnewnick, hchans, hcan⟩ := hsafe
  have hchan : chan ∈ b.irc.chans := hchans List.mem_cons_self
  have hfound : b.irc.isUserJoined chan m.origin.nick = true ↔
      b.members chan (bareNick m.origin.nick) := by
    rw [Irc.isUserJoined_eq, Lists.userJoined]
    simp [h.chan_ne_nil hchan, hnick, members, Lists.members, bareNick]
  simp only [mainStep, hpc] at hstep
  obtain rfl := Option.some.inj hstep
  by_cases hjoined : b.irc.isUserJoined chan m.origin.nick
  · have hin := hfound.mp hjoined
    have hpending : ∀ q, q ∈ pendingQuits { b with pc := .found m chan chans } ↔
        q ∈ b.pendingQuits := by
      intro q
      simp [pendingQuits, hpc, MainPc.quitNick?]
    rw [if_pos hjoined]
    refine h.of_same rfl h.modesOk hpending rfl ?_ ?_
    · intro x hx n
      simp only [todo, hpc, members]
    · obtain ⟨hold, hnew⟩ := hcan.resolve_left fun hnone => hnone chan hchan hin
      refine ⟨hnick, hnewnick, hchans, hin, ?_, ?_⟩
      · simp only [Pending, hpending]
        exact hold
      · simp only [Pending, hpending]
        exact hnew
  · have hpending : ∀ q, q ∈ pendingQuits { b with pc := .searching m chans } ↔
        q ∈ b.pendingQuits := by
      intro q
      simp [pendingQuits, hpc, MainPc.quitNick?]
    rw [if_neg hjoined]
    refine h.of_same rfl h.modesOk hpending rfl ?_ ?_
    · intro x hx n
      simp only [todo, hpc]
      refine Members.renamedIn_cons chans (fun x n => ?_) x n
      split_ifs with heq
      · refine (Members.renamed_of_not (fun hn => Lists.members_congr _ _ hn) ?_).symm
        change ¬ b.irc.lists.members x (bareNick m.origin.nick)
        rw [Lists.members, Lists.usersOf_congr _ heq]
        exact fun hin => hjoined (hfound.mpr hin)
      · exact Iff.rfl
    · refine ⟨hnick, hnewnick, fun c hc => hchans (List.mem_cons_of_mem _ hc), ?_⟩
      simp only [CanRename, Pending, hpending]
      exact hcan

/-- The change of a nick in a channel.

**Proof sketch.** The nick is taken out of this channel and put in under its new name, which is the
change in one channel; the channels that are left are those behind it (`renamedIn_cons`). -/
lemma Tracked.found (h : b.Tracked S₀) {m : Message} {chan : Bytes} {chans : List Bytes}
    (hpc : b.pc = .found m chan chans) (hstep : b.mainStep = some b') : b'.Tracked S₀ := by
  have hsafe := h.safe
  simp only [Safe, hpc] at hsafe
  obtain ⟨hnick, hnewnick, hchans, hin, hold, hnew⟩ := hsafe
  have hchan : chan ∈ b.irc.chans := hchans List.mem_cons_self
  simp only [mainStep, hpc] at hstep
  have hb' : b' = { b with
      irc := (b.irc.delFromChanuserlist chan m.origin.nick).addToChanuserlist chan
        (b.irc.lists.decorated chan m.origin.nick (m.arg 0)) m.ident
      pc := .searching m chans } := (Option.some.inj hstep).symm
  have hlists : b'.irc.lists = (b.irc.lists.delUser chan m.origin.nick).addUser chan
      (b.irc.lists.decorated chan m.origin.nick (m.arg 0)) m.ident := by
    rw [hb', Irc.lists_addToChanuserlist, Irc.lists_delFromChanuserlist]
  have hpending : ∀ q, q ∈ b'.pendingQuits ↔ q ∈ b.pendingQuits := by
    intro q
    simp [hb', pendingQuits, hpc, MainPc.quitNick?]
  have hpc' : b'.pc = .searching m chans := by rw [hb']
  have hchans' : b'.irc.chans = b.irc.chans := by simp [hb']
  refine h.of_same hchans' ?_ hpending (by rw [hb']) ?_ ?_
  · rw [hlists]
    exact Lists.ModesOk.addUser (AllUsers.delUser h.modesOk _ _) _ _ _
  · intro x hx n
    simp only [todo, hpc, hpc']
    refine Members.renamedIn_cons chans (fun x n => ?_) x n
    simp only [members, hlists]
    exact Lists.members_renameUser h.modesOk (h.chan_ne_nil hchan) hnick hnewnick hin m.ident x n
  · simp only [Safe, hpc', hchans', CanRename, Pending, hpending]
    exact ⟨hnick, hnewnick, fun c hc => hchans (List.mem_cons_of_mem _ hc), .inr ⟨hold, hnew⟩⟩

/-- An event is queued.

**Proof sketch.** By cases on the event. That of a QUIT moves the nick from the main thread to the
queue, where it is pending too; the others change nothing that is counted. -/
lemma Tracked.reporting (h : b.Tracked S₀) {e : IrcEvent} (hpc : b.pc = .reporting e)
    (hstep : b.mainStep = some b') : b'.Tracked S₀ := by
  simp only [mainStep, hpc] at hstep
  obtain rfl := Option.some.inj hstep
  cases e
  case quit who msg =>
    refine h.of_same rfl h.modesOk ?_ rfl ?_ trivial
    · intro q
      simp [pendingQuits, hpc, MainPc.quitNick?, IrcEvent.quitNick?, Irc.sendEvent]
      exact or_left_comm
    · intro x hx n
      simp only [todo, hpc, members, Irc.lists_sendEvent]
  all_goals
    refine h.of_same rfl h.modesOk ?_ rfl ?_ trivial
    · intro q
      simp [pendingQuits, hpc, MainPc.quitNick?, IrcEvent.quitNick?, Irc.sendEvent]
    · intro x hx n
      simp only [todo, hpc, members, Irc.lists_sendEvent]

/-- **A step of the main thread** keeps the invariant.

**Proof sketch.** By cases on where the main thread is; each place has a lemma of its own, and the
handlers are told apart by their command. -/
lemma Tracked.mainStep (h : b.Tracked S₀) (hstep : b.mainStep = some b') : b'.Tracked S₀ := by
  rcases hpc : b.pc with _ | m | ⟨m, user⟩ | ⟨m, _ | ⟨chan, chans⟩⟩ | ⟨m, chan, chans⟩ | e | cnt
  case reading =>
    simp only [Bot.mainStep, hpc] at hstep
    cases hstep
  case handling =>
    simp only [Bot.mainStep, hpc] at hstep
    have hsafe := h.safe
    simp only [Safe, hpc] at hsafe
    rcases hcmd : Command.ofBytes m.cmd <;> rw [hcmd] at hstep hsafe <;> try exact hsafe.elim
    case join => exact h.join hpc hcmd hstep
    case part => exact h.part hpc hcmd hstep
    case kick => exact h.kick hpc hcmd hstep
    case nick => exact h.nick hpc hcmd hstep
    case quit => exact h.quit hpc hcmd hstep
  case kicking => exact h.kicking hpc hstep
  case searching.nil => exact h.renamed hpc hstep
  case searching.cons => exact h.searching hpc hstep
  case found => exact h.found hpc hstep
  case reporting => exact h.reporting hpc hstep
  case pausing =>
    simp only [Bot.mainStep, hpc] at hstep
    have hpending : ∀ q, q ∈ b.pendingQuits ↔ q ∈ b.irc.events.filterMap IrcEvent.quitNick? ++
        b.workers.filterMap Worker.quitNick? := by
      intro q
      simp [pendingQuits, hpc, MainPc.quitNick?]
    have htodo : b.todo b.members = b.members := by simp only [todo, hpc]
    split_ifs at hstep <;> obtain rfl := Option.some.inj hstep
    · exact h.of_same rfl h.modesOk (fun q => (hpending q).symm) rfl
        (fun x _ n => by rw [htodo]; rfl) trivial
    · exact h.of_same rfl h.modesOk (fun q => (hpending q).symm) rfl
        (fun x _ n => by rw [htodo]; rfl) trivial

/-! ## Receiving a message -/

/-- Whether a QUIT is pending does not depend on the spelling of the nick. -/
lemma Pending.congr {n n' : Bytes} (h : b.Pending n) (heq : ircStrlower n = ircStrlower n') :
    b.Pending n' := by
  obtain ⟨q, hq, hn⟩ := h
  exact ⟨q, hq, hn.trans heq⟩

/-- A message about another user has been received, and nothing else has happened. -/
structure Received (b b' : Bot) (m : Message) : Prop where
  reading : b.pc = .reading
  about : b.irc.AboutOther m
  lists : b'.irc.lists = b.irc.lists
  pc : b'.pc = .handling m
  heard : b'.heard = b.heard ++ m.change.toList
  pending : ∀ q, q ∈ b'.pendingQuits ↔ q ∈ (MainPc.handling m).quitNick? ∨ q ∈ b.pendingQuits

/-- A line that is received is taken apart into a message about another user. -/
lemma received_of_receive {line : Bytes} (h : b.receive line = some b') :
    ∃ m, Message.ofLine (b.irc.convertLine line).1 = some m ∧ Received b b' m := by
  unfold Bot.receive at h
  split at h
  · rename_i m hpc hm
    split_ifs at h with hok
    obtain rfl := Option.some.inj h
    refine ⟨m, hm, hpc, hok.2, (b.irc.listOps_reported line _).2, rfl, rfl, fun q => ?_⟩
    have hconvert : (b.irc.convertLine line).2.events = b.irc.events := by
      unfold Irc.convertLine
      split <;> rfl
    simp [pendingQuits, hpc, MainPc.quitNick?, Irc.sendEvent, hconvert, IrcEvent.quitNick?]
  · cases h

variable {m : Message}

/-- A message other than QUIT makes nothing pending. -/
lemma Received.pending_iff (hr : Received b b' m) (hcmd : Command.ofBytes m.cmd ≠ .quit)
    (n : Bytes) : b'.Pending n ↔ b.Pending n := by
  simp [Pending, hr.pending, MainPc.quitNick?, hcmd]

/-- Before a message the members agree with what has been heard. -/
lemma Tracked.agree_reading (h : b.Tracked S₀) (hpc : b.pc = .reading) {x : Bytes}
    (hx : x ∈ b.irc.chans) {n : Bytes} (hn : ¬ b.Pending n) :
    b.members x n ↔ S₀.afterAll b.heard x n := by
  rw [← h.agree x hx n hn]
  simp only [todo, hpc]

/-- What remains to be shown when a message has been received.

**Proof sketch.** Receiving a message changes neither the lists nor the table, and what has been
heard grows by the change of this message; the rest is what is left to be shown. -/
lemma Tracked.of_received (h : b.Tracked S₀) (hr : Received b b' m) {change : Change}
    (hchange : m.change = some change) (hnamed : ∀ q ∈ (MainPc.handling m).quitNick?, q ≠ [])
    (hagree : ∀ x ∈ b.irc.chans, ∀ n, ¬ b'.Pending n →
      (b'.todo b.members x n ↔ (S₀.afterAll b.heard).after change x n))
    (hgone : ∀ x ∈ b.irc.chans, ∀ n, b'.Pending n → ¬ (S₀.afterAll b.heard).after change x n)
    (hsafe : b'.Safe) : b'.Tracked S₀ := by
  have hchans : b'.irc.chans = b.irc.chans := congrArg Lists.chans hr.lists
  have hmembers : b'.members = b.members := congrArg Lists.members hr.lists
  have hheard : S₀.afterAll b'.heard = (S₀.afterAll b.heard).after change := by
    rw [hr.heard, hchange]
    exact S₀.afterAll_concat b.heard change
  refine ⟨?_, ?_, fun q hq => ?_, ?_, ?_, hsafe⟩
  · rw [hr.lists]
    exact h.chansOk
  · rw [hr.lists]
    exact h.modesOk
  · exact ((hr.pending q).mp hq).elim (hnamed q) (h.named q)
  · rw [hchans, hmembers, hheard]
    exact hagree
  · rw [hchans, hheard]
    exact hgone

/-- A channel of the list has a name, whatever its spelling. -/
lemma Tracked.ne_nil_of_inChans (h : b.Tracked S₀) {chan : Bytes} (hin : b.irc.lists.InChans chan) :
    chan ≠ [] := by
  rintro rfl
  exact h.chansOk.not_inChans_nil hin

/-- A JOIN is received.

**Proof sketch.** Who joins is not pending, so in the channel the nick is expected now, and it is
what the handler is going to add; everybody else is as before. -/
lemma Tracked.received_join (h : b.Tracked S₀) (hr : Received b b' m)
    (hcmd : Command.ofBytes m.cmd = .join) (htimely : ¬ b.Pending (bareNick m.origin.nick)) :
    b'.Tracked S₀ := by
  have habout := hr.about
  simp only [Irc.AboutOther, hcmd] at habout
  obtain ⟨-, hnick, -, hin⟩ := habout
  have hsame := hr.pending_iff (by simp [hcmd])
  have hchange : m.change = some (.joins (m.arg 0) (bareNick m.origin.nick)) := by
    simp only [Message.change, hcmd]
  refine h.of_received hr hchange (by simp [MainPc.quitNick?, hcmd]) ?_ ?_ ?_
  · intro x hx n hn
    rw [hsame] at hn
    simp only [todo, hr.pc, hcmd]
    exact or_congr_left (h.agree_reading hr.reading hx hn)
  · intro x hx n hn
    rw [hsame] at hn
    rintro (hthere | ⟨-, heq⟩)
    · exact h.gone x hx n hn hthere
    · exact htimely (hn.congr heq)
  · simp only [Safe, hr.pc, hcmd, hsame]
    exact ⟨h.ne_nil_of_inChans hin, hnick, htimely⟩

/-- A message that a nick has left a channel is received. -/
lemma Tracked.received_leaves (h : b.Tracked S₀) (hr : Received b b' m) {chan nick : Bytes}
    (hcmd : Command.ofBytes m.cmd ≠ .quit) (hchange : m.change = some (.leaves chan nick))
    (htodo : b'.todo b.members = b.members.after (.leaves chan nick)) (hsafe : b'.Safe) :
    b'.Tracked S₀ := by
  have hsame := hr.pending_iff hcmd
  refine h.of_received hr hchange (by simp [MainPc.quitNick?, hcmd]) ?_ ?_ hsafe
  · intro x hx n hn
    rw [hsame] at hn
    rw [htodo]
    exact and_congr_left' (h.agree_reading hr.reading hx hn)
  · intro x hx n hn hthere
    rw [hsame] at hn
    exact h.gone x hx n hn hthere.1

/-- A NICK is received.

**Proof sketch.** Either the user is in no channel, by the lists and by what has been heard, or no
QUIT of the two nicks is pending. So the lists and what has been heard agree on the channels of the
old nick. -/
lemma Tracked.received_nick (h : b.Tracked S₀) (hr : Received b b' m)
    (hcmd : Command.ofBytes m.cmd = .nick)
    (htimely : b.CanRename (bareNick m.origin.nick) (bareNick (m.arg 0))) : b'.Tracked S₀ := by
  have habout := hr.about
  simp only [Irc.AboutOther, hcmd] at habout
  obtain ⟨-, hnick, -, hnewnick⟩ := habout
  have hsame := hr.pending_iff (by simp [hcmd])
  have hchans : b'.irc.chans = b.irc.chans := congrArg Lists.chans hr.lists
  have hmembers : b'.members = b.members := congrArg Lists.members hr.lists
  have habsent : ∀ x ∈ b.irc.chans, ¬ b.members x (bareNick m.origin.nick) →
      ¬ S₀.afterAll b.heard x (bareNick m.origin.nick) := by
    intro x hx hnot
    by_cases hn : b.Pending (bareNick m.origin.nick)
    · exact h.gone x hx _ hn
    · rwa [← h.agree_reading hr.reading hx hn]
  have hchange : m.change = some (.renames (bareNick m.origin.nick) (bareNick (m.arg 0))) := by
    simp only [Message.change, hcmd]
  refine h.of_received hr hchange (by simp [MainPc.quitNick?, hcmd]) ?_ ?_ ?_
  · intro x hx n hn
    rw [hsame] at hn
    simp only [todo, hr.pc, hcmd, hchans, Members.renamedIn]
    rw [if_pos ⟨x, hx, rfl⟩]
    refine or_congr (and_congr_left' (h.agree_reading hr.reading hx hn)) (and_congr_left' ?_)
    rcases htimely with hnone | ⟨hold, -⟩
    · exact iff_of_false (hnone x hx) (habsent x hx (hnone x hx))
    · exact h.agree_reading hr.reading hx hold
  · intro x hx n hn
    rw [hsame] at hn
    rintro (⟨hthere, -⟩ | ⟨hthere, heq⟩)
    · exact h.gone x hx n hn hthere
    · rcases htimely with hnone | ⟨-, hnew⟩
      · exact habsent x hx (hnone x hx) hthere
      · exact hnew (hn.congr heq)
  · simp only [Safe, hr.pc, hcmd, CanRename, hsame, hchans, hmembers]
    exact ⟨hnick, hnewnick, htimely⟩

/-- A QUIT is received, and is pending from now on.

**Proof sketch.** The nick is pending from now on, which is why it may stay in the table though it
is gone; the others are pending exactly if they were. -/
lemma Tracked.received_quit (h : b.Tracked S₀) (hr : Received b b' m)
    (hcmd : Command.ofBytes m.cmd = .quit) : b'.Tracked S₀ := by
  have habout := hr.about
  simp only [Irc.AboutOther, hcmd] at habout
  have hpending : ∀ n, b'.Pending n ↔
      ircStrlower (bareNick m.origin.nick) = ircStrlower n ∨ b.Pending n := by
    simp [Pending, hr.pending, MainPc.quitNick?, hcmd, or_and_right, exists_or]
  have hchange : m.change = some (.quits (bareNick m.origin.nick)) := by
    simp only [Message.change, hcmd]
  refine h.of_received hr hchange ?_ ?_ ?_ ?_
  · simpa [MainPc.quitNick?, hcmd] using habout.1
  · intro x hx n hn
    obtain ⟨hne, hn⟩ := not_or.mp (mt (hpending n).mpr hn)
    simp only [todo, hr.pc, hcmd]
    rw [h.agree_reading hr.reading hx hn]
    exact ⟨fun hthere => ⟨hthere, Ne.symm hne⟩, fun hthere => hthere.1⟩
  · intro x hx n hn hthere
    rcases (hpending n).mp hn with heq | hn
    · exact hthere.2 heq.symm
    · exact h.gone x hx n hn hthere.1
  · simp only [Safe, hr.pc, hcmd]
    exact habout.1

/-- **Receiving a message** in time keeps the invariant.

**Proof sketch.** By cases on the command: JOIN, PART, KICK, NICK and QUIT each make their change,
and no other message is received in a run that the claim is about. -/
lemma Tracked.receive (h : b.Tracked S₀) {line : Bytes} (htimely : b.Timely (.receive line))
    (hstep : b.receive line = some b') : b'.Tracked S₀ := by
  obtain ⟨m, hm, hr⟩ := received_of_receive hstep
  have htimely := htimely m hm
  have habout := hr.about
  unfold InTime at htimely
  unfold Irc.AboutOther at habout
  rcases hcmd : Command.ofBytes m.cmd <;> rw [hcmd] at htimely habout <;> try exact habout.elim
  case join => exact h.received_join hr hcmd htimely
  case part =>
    have hchange : m.change = some (.leaves (m.arg 0) (bareNick m.origin.nick)) := by
      simp only [Message.change, hcmd]
    refine h.received_leaves hr (by simp [hcmd]) hchange (by simp only [todo, hr.pc, hcmd]) ?_
    simp only [Safe, hr.pc, hcmd]
    exact ⟨h.ne_nil_of_inChans habout.2.2.2, habout.2.1⟩
  case kick =>
    have hmembers : b'.members = b.members := congrArg Lists.members hr.lists
    have hchange : m.change = some (.leaves (m.arg 0) (bareNick (m.arg 1))) := by
      simp only [Message.change, hcmd]
    refine h.received_leaves hr (by simp [hcmd]) hchange (by simp only [todo, hr.pc, hcmd]) ?_
    simp only [Safe, hr.pc, hcmd, hmembers]
    exact ⟨h.ne_nil_of_inChans habout.2.2.2, habout.2.1, htimely⟩
  case nick => exact h.received_nick hr hcmd htimely
  case quit => exact h.received_quit hr hcmd

/-! ## The event threads -/

/-- What the main thread relies on survives the removal of nicks that were pending.

**Proof sketch.** By cases on where the main thread is. The nicks that it is about to handle are not
pending, so they are not removed, and who was not in a table still is not. -/
lemma Safe.of_removal (h : b.Safe) (hpc : b'.pc = b.pc) (hchans : b'.irc.chans = b.irc.chans)
    (hpending : ∀ n, b'.Pending n → b.Pending n)
    (hmembers : ∀ x n, b'.members x n → b.members x n)
    (hkept : ∀ x n, ¬ b.Pending n → b.members x n → b'.members x n) : b'.Safe := by
  have hcan : ∀ nick newnick, b.CanRename nick newnick → b'.CanRename nick newnick := by
    intro nick newnick hcan
    rw [CanRename, hchans]
    exact hcan.imp (fun hnone x hx hin => hnone x hx (hmembers x nick hin))
      (.imp (mt (hpending nick)) (mt (hpending newnick)))
  unfold Safe at h ⊢
  rw [hpc]
  split at h
  · split at h
    · exact ⟨h.1, h.2.1, mt (hpending _) h.2.2⟩
    · exact h
    · exact ⟨h.1, h.2.1, h.2.2.imp id (mt (hmembers _ _))⟩
    · exact ⟨h.1, h.2.1, hcan _ _ h.2.2⟩
    · exact h
    · exact h
  · exact h
  · rw [hchans]
    exact ⟨h.1, h.2.1, h.2.2.1, hcan _ _ h.2.2.2⟩
  · rw [hchans]
    obtain ⟨hnick, hnewnick, hsub, hin, hold, hnew⟩ := h
    exact ⟨hnick, hnewnick, hsub, hkept _ _ hold hin, mt (hpending _) hold, mt (hpending _) hnew⟩
  · trivial

/-- **What the main thread has to do** does not involve the nicks that are pending: it does to the
other nicks the same after the removal of one of these, which it does not bring back.

**Proof sketch.** A JOIN and the new nick of a NICK are not pending, and the old nick of a NICK is
not pending unless it is in no channel. -/
lemma todo_of_removal (h : b.Safe) (hpc : b'.pc = b.pc) (hchans : b'.irc.chans = b.irc.chans)
    {q : Bytes} (hq : b.Pending q) (hremoved : ∀ x ∈ b.irc.chans, ∀ n,
      b'.members x n ↔ b.members x n ∧ ircStrlower n ≠ ircStrlower q) {x : Bytes}
    (hx : x ∈ b.irc.chans) (n : Bytes) :
    b'.todo b'.members x n ↔ b.todo b.members x n ∧ ircStrlower n ≠ ircStrlower q := by
  have hnot : ∀ n, ¬ b.Pending n → ircStrlower n ≠ ircStrlower q := by
    intro n hn heq
    exact hn (hq.congr heq.symm)
  have hleaves : ∀ chan nick, b'.members.after (.leaves chan nick) x n ↔
      b.members.after (.leaves chan nick) x n ∧ ircStrlower n ≠ ircStrlower q := by
    intro chan nick
    simp only [Members.after, hremoved x hx]
    rw [and_right_comm]
  have hrenames : ∀ chans nick newnick, b.CanRename nick newnick →
      (b'.members.renamedIn chans nick newnick x n ↔
        b.members.renamedIn chans nick newnick x n ∧ ircStrlower n ≠ ircStrlower q) := by
    intro chans nick newnick hcan
    unfold Members.renamedIn
    split_ifs
    · simp only [Members.renamed, hremoved x hx]
      rw [or_and_right, and_right_comm]
      refine or_congr_right ?_
      rcases hcan with hnone | ⟨hold, hnew⟩
      · simp only [hnone x hx, false_and]
      · constructor
        · rintro ⟨⟨hin, -⟩, heq⟩
          exact ⟨⟨hin, heq⟩, heq ▸ hnot newnick hnew⟩
        · rintro ⟨⟨hin, heq⟩, -⟩
          exact ⟨⟨hin, hnot nick hold⟩, heq⟩
    · exact hremoved x hx n
  rcases hpc₀ : b.pc with _ | m | ⟨m, user⟩ | ⟨m, chans⟩ | ⟨m, chan, chans⟩ | e | cnt <;>
    simp only [Safe, todo, hpc, hpc₀] at h ⊢
  case handling =>
    rcases hcmd : Command.ofBytes m.cmd <;> simp only [hcmd] at h ⊢
    case join =>
      simp only [Members.after, hremoved x hx]
      rw [or_and_right]
      refine or_congr_right ⟨fun hnew => ⟨hnew, ?_⟩, fun hnew => hnew.1⟩
      rw [hnew.2]
      exact hnot _ h.2.2
    case part => exact hleaves _ _
    case kick => exact hleaves _ _
    case nick =>
      rw [hchans]
      exact hrenames _ _ _ h.2.2
    case quit => exact hremoved x hx n
  case kicking => exact hleaves _ _
  case searching => exact hrenames _ _ _ h.2.2.2
  case found => exact hrenames _ _ _ (.inr h.2.2.2.2)
  all_goals exact hremoved x hx n

/-- The QUITs of the event threads before and after a step of one of them.

**Proof sketch.** The list of the threads is cut in front of the thread and behind it; the others
are the QUITs of the two parts. -/
lemma exists_otherQuits {workers : List Worker} {i : ℕ} {w : Worker} (h : workers[i]? = some w) :
    ∃ others : List Bytes,
      (∀ q, q ∈ workers.filterMap Worker.quitNick? ↔ q ∈ w.quitNick? ∨ q ∈ others) ∧
      ∀ w' q, q ∈ (workers.set i w').filterMap Worker.quitNick? ↔ q ∈ w'.quitNick? ∨ q ∈ others := by
  have hmid : ∀ (l r : List Worker) (w : Worker) (q : Bytes),
      q ∈ (l ++ w :: r).filterMap Worker.quitNick? ↔
        q ∈ w.quitNick? ∨ q ∈ (l ++ r).filterMap Worker.quitNick? := by
    intro l r w q
    rw [List.filterMap_append, List.filterMap_append, List.filterMap_cons]
    cases w.quitNick? with
    | none => simp
    | some q' =>
      simp only [List.mem_append, List.mem_cons, Option.mem_some_iff, eq_comm (a := q')]
      exact or_left_comm
  obtain ⟨hi, rfl⟩ := List.getElem?_eq_some_iff.mp h
  refine ⟨(workers.take i ++ workers.drop (i + 1)).filterMap Worker.quitNick?, fun q => ?_,
    fun w' q => ?_⟩
  · rw [← hmid, ← List.drop_eq_getElem_cons hi, List.take_append_drop]
  · rw [List.set_eq_take_append_cons_drop, if_pos hi]
    exact hmid _ _ w' q

/-- The main thread's view does not change while an event thread works. -/
lemma Tracked.of_worker (h : b.Tracked S₀) (hirc : b'.irc.lists = b.irc.lists) (hpc : b'.pc = b.pc)
    (hheard : b'.heard = b.heard) (hpending : ∀ q, q ∈ b'.pendingQuits ↔ q ∈ b.pendingQuits) :
    b'.Tracked S₀ := by
  have hchans : b'.irc.chans = b.irc.chans := congrArg Lists.chans hirc
  have hmembers : b'.members = b.members := congrArg Lists.members hirc
  have hsame : ∀ n, b'.Pending n ↔ b.Pending n := by
    intro n
    simp only [Pending, hpending]
  refine h.of_same hchans ?_ hpending hheard (fun x hx n => ?_) ?_
  · rw [hirc]
    exact h.modesOk
  · simp only [todo, hpc, hmembers, hchans]
  · exact h.safe.of_removal hpc hchans (fun n => (hsame n).mp) (fun x n hin => hmembers ▸ hin)
      (fun x n _ hin => hmembers ▸ hin)

/-- An event thread takes an event. -/
lemma Tracked.take (h : b.Tracked S₀) {i : ℕ} (hstep : b.step (.take i) = some b') :
    b'.Tracked S₀ := by
  simp only [step] at hstep
  split at hstep
  · rename_i e events hw hevents
    obtain rfl := Option.some.inj hstep
    obtain ⟨others, hbefore, hafter⟩ := exists_otherQuits hw
    refine h.of_worker rfl rfl rfl fun q => ?_
    have hcons : q ∈ (e :: events).filterMap IrcEvent.quitNick? ↔
        q ∈ e.quitNick? ∨ q ∈ events.filterMap IrcEvent.quitNick? := by
      simp only [List.mem_filterMap, List.mem_cons, exists_eq_or_imp, Option.mem_def]
    have hidle : q ∉ Worker.idle.quitNick? := Option.not_mem_none q
    rw [mem_pendingQuits, mem_pendingQuits, hbefore, hafter, hevents, hcons, or_iff_right hidle,
      or_assoc]
    exact or_congr_right or_left_comm
  · cases hstep

/-- An event thread lets the main thread go on. -/
lemma Tracked.resume (h : b.Tracked S₀) {i : ℕ} (hstep : b.step (.resume i) = some b') :
    b'.Tracked S₀ := by
  simp only [step] at hstep
  split at hstep
  · rename_i hw
    obtain rfl := Option.some.inj hstep
    obtain ⟨others, hbefore, hafter⟩ := exists_otherQuits hw
    refine h.of_worker rfl rfl rfl fun q => ?_
    rw [mem_pendingQuits, mem_pendingQuits, hbefore, hafter]
    exact Iff.rfl
  · cases hstep

/-- **The end of a QUIT** removes a user who was pending, and nobody else.

**Proof sketch.** According to the messages the user is in no channel. What the main thread has to
do does not bring the user back, and is the same for all others. -/
lemma Tracked.quitHandled (h : b.Tracked S₀) {who : IrcIdent}
    (hirc : b'.irc = b.irc.ircbotEventHandler who.nick) (hpc : b'.pc = b.pc)
    (hheard : b'.heard = b.heard)
    (hpending : ∀ q, q ∈ b.pendingQuits ↔ q = who.nick ∨ q ∈ b'.pendingQuits) : b'.Tracked S₀ := by
  have hwho : who.nick ∈ b.pendingQuits := (hpending _).mpr (.inl rfl)
  have hquit : b.Pending (bareNick who.nick) := ⟨who.nick, hwho, rfl⟩
  have hlists : b'.irc.lists = (b.irc.chans.map fun chan => ListOp.delUser chan who.nick).foldl
      Lists.apply b.irc.lists := by
    rw [hirc]
    exact Irc.lists_delFromChanuserlistAll b.irc who.nick
  have hchans : b'.irc.chans = b.irc.chans := by
    change b'.irc.lists.chans = b.irc.lists.chans
    rw [hlists]
    exact Lists.foldl_delUsers (I := fun l => l.chans = b.irc.lists.chans)
      (fun l chan hl => (l.chans_delUser chan _).trans hl) _ rfl
  have hremoved : ∀ x n, b'.members x n ↔ b.members x n ∧
      ¬ ((∃ chan ∈ b.irc.chans, ircStrlower chan = ircStrlower x) ∧
        ircStrlower n = ircStrlower (bareNick who.nick)) := by
    intro x n
    rw [members, hlists]
    exact Lists.members_delUsers (fun chan hchan => h.chan_ne_nil hchan) (h.named _ hwho) _ x n
  have hremoved' : ∀ x ∈ b.irc.chans, ∀ n, b'.members x n ↔
      b.members x n ∧ ircStrlower n ≠ ircStrlower (bareNick who.nick) := by
    intro x hx n
    rw [hremoved]
    exact and_congr_right' (not_congr (and_iff_right ⟨x, hx, rfl⟩))
  have hfewer : ∀ n, b'.Pending n → b.Pending n := by
    rintro n ⟨q, hq, heq⟩
    exact ⟨q, (hpending q).mpr (.inr hq), heq⟩
  have hstill : ∀ n, b.Pending n → ircStrlower n = ircStrlower (bareNick who.nick) ∨ b'.Pending n := by
    rintro n ⟨q, hq, heq⟩
    rcases (hpending q).mp hq with rfl | hq
    · exact .inl heq.symm
    · exact .inr ⟨q, hq, heq⟩
  refine ⟨?_, ?_, fun q hq => h.named q ((hpending q).mpr (.inr hq)), ?_, ?_, ?_⟩
  · have hsame : b'.irc.lists.chans = b.irc.lists.chans := hchans
    exact ⟨hsame ▸ h.chansOk.distinct, hsame ▸ h.chansOk.named⟩
  · rw [hlists]
    exact Lists.foldl_delUsers (I := Lists.ModesOk) (fun l chan hl => AllUsers.delUser hl chan _) _
      h.modesOk
  · intro x hx n hn
    rw [hchans] at hx
    rw [todo_of_removal h.safe hpc hchans hquit hremoved' hx, hheard]
    by_cases heq : ircStrlower n = ircStrlower (bareNick who.nick)
    · exact iff_of_false (fun hin => hin.2 heq) (h.gone x hx n (hquit.congr heq.symm))
    · have hn' : ¬ b.Pending n := fun hpend => (hstill n hpend).elim heq hn
      exact (and_iff_left heq).trans (h.agree x hx n hn')
  · intro x hx n hn
    rw [hchans] at hx
    rw [hheard]
    exact h.gone x hx n (hfewer n hn)
  · refine h.safe.of_removal hpc hchans hfewer (fun x n hin => ((hremoved x n).mp hin).1) ?_
    intro x n hn hin
    exact (hremoved x n).mpr ⟨hin, fun heq => hn (hquit.congr heq.2.symm)⟩

/-- The end of an event.

**Proof sketch.** By cases on the event. When that of a QUIT is over the nick is pending as a
removal in place of a handler; any other event changes nothing that the invariant is about. -/
lemma Tracked.handled (h : b.Tracked S₀) {i : ℕ} (hstep : b.step (.handled i) = some b') :
    b'.Tracked S₀ := by
  simp only [step] at hstep
  split at hstep
  · rename_i e hw
    obtain ⟨others, hbefore, hafter⟩ := exists_otherQuits hw
    obtain rfl := Option.some.inj hstep
    cases e
    case quit who msg =>
      refine h.quitHandled rfl rfl rfl fun q => ?_
      have hresuming : q ∉ Worker.resuming.quitNick? := Option.not_mem_none q
      have hrunning : q ∈ (Worker.running (.quit who msg)).quitNick? ↔ q = who.nick := by
        rw [Worker.quitNick?, IrcEvent.quitNick?, Option.mem_some_iff, eq_comm]
      rw [mem_pendingQuits, mem_pendingQuits, hbefore, hafter, hrunning, or_iff_right hresuming]
      simp only [finishEvent, Irc.events_ircbotEventHandler]
      rw [or_left_comm (b := q = who.nick), or_left_comm (b := q = who.nick)]
    all_goals
      refine h.of_worker rfl rfl rfl fun q => ?_
      rw [mem_pendingQuits, mem_pendingQuits, hbefore, hafter]
      exact Iff.rfl
  · cases hstep

/-! ## Runs -/

/-- **One step** in time keeps the invariant. -/
lemma Tracked.step (h : b.Tracked S₀) {a : Action} (htimely : b.Timely a)
    (hstep : b.step a = some b') : b'.Tracked S₀ := by
  cases a with
  | receive line => exact h.receive htimely hstep
  | main => exact h.mainStep hstep
  | take i => exact h.take hstep
  | handled i => exact h.handled hstep
  | resume i => exact h.resume hstep

/-- At the start nothing is pending and nothing has been heard. -/
lemma tracked_start {c : Irc} (hchans : c.lists.ChansOk) (hmodes : c.lists.ModesOk) (n : ℕ) :
    (start c n).Tracked c.lists.members := by
  have hworkers : (List.replicate n Worker.idle).filterMap Worker.quitNick? = [] := by
    rw [List.filterMap_eq_nil_iff]
    intro w hw
    rw [(List.mem_replicate.mp hw).2]
    rfl
  have hnone : (start c n).pendingQuits = [] := by
    simp [pendingQuits, start, MainPc.quitNick?, hworkers]
  refine ⟨hchans, hmodes, ?_, fun _ _ _ _ => Iff.rfl, ?_, trivial⟩
  · simp [hnone]
  · rintro x - n ⟨q, hq, -⟩
    simp [hnone] at hq

/-- Nothing is pending when everything has been handled. -/
lemma Quiet.not_pending (h : b.Quiet) (n : Bytes) : ¬ b.Pending n := by
  rintro ⟨q, hq, -⟩
  obtain ⟨hpc, hevents, hworkers⟩ := h
  rw [mem_pendingQuits, hpc, hevents] at hq
  rcases hq with hq | hq | hq
  · exact Option.not_mem_none q hq
  · exact List.not_mem_nil hq
  · obtain ⟨w, hw, hquit⟩ := List.mem_filterMap.mp hq
    rw [hworkers w hw] at hquit
    cases hquit

/-- **The users of the channels across threads.** From any state that a connection reaches, and for
any number of event threads: in every run in which the messages about other users are received in
time, once everything has been handled, a nick is in the user list of a channel of the bot exactly
if the messages, from the state at the start on, say so. -/
theorem run_tracked {c₀ c : Irc} {is : List Input} (hc₀ : Irc.Started c₀)
    (hreach : Run (Fun Irc.serve) c₀ is c) {n : ℕ} {as : List Action} {b : Bot}
    (h : Run (Under (Fun step) Timely) (start c n) as b) (hquiet : b.Quiet) :
    ∀ chan ∈ b.irc.chans, ∀ nick, (b.irc.getChanuserlist chan).contains nick = true ↔
      Members.afterAll (fun x nick => (c.getChanuserlist x).contains nick = true) b.heard
        chan nick := by
  obtain ⟨hchans, hmodes⟩ := Irc.run_modesOk hc₀ hreach
  have htracked : b.Tracked c.lists.members :=
    h.preserves (I := fun b => b.Tracked c.lists.members) (fun b a b' hb hstep => hb.step hstep.2 hstep.1)
      (tracked_start hchans hmodes n)
  intro chan hchan nick
  have hagree := htracked.agree chan hchan nick (hquiet.not_pending nick)
  simp only [todo, hquiet.1] at hagree
  exact hagree

/-! ## A user who quits and comes back -/

/-- The bot and another user have joined a channel. -/
def joinedInputs : List Input :=
  [.line 0 (bytes ":bot!u@h JOIN #c"), .line 1 (bytes ":foo!u@h JOIN #c")]

/-- The user comes back after an event thread has handled the QUIT. -/
def handledQuit : List Action :=
  [.receive (bytes ":foo!u@h QUIT :x"), .main, .main, .take 0, .handled 0, .take 0, .handled 0,
    .resume 0, .main, .receive (bytes ":foo!u@h JOIN #c"), .main, .main,
    .take 0, .handled 0, .take 0, .handled 0]

/-- The main thread waits for the event thread in vain, and the user comes back before the QUIT is
handled. -/
def lateQuit : List Action :=
  [.receive (bytes ":foo!u@h QUIT :x"), .main, .main] ++ List.replicate 101 .main ++
    [.receive (bytes ":foo!u@h JOIN #c"), .main, .main, .take 0, .handled 0, .take 0, .handled 0,
      .resume 0, .take 0, .handled 0, .take 0, .handled 0]

/-- The users after the run in which the QUIT is handled in time. -/
theorem run_tracked_handledQuit :
    ∃ c b, Run (Fun Irc.serve) (Irc.started (bytes "bot")) joinedInputs c ∧
      Run (Under (Fun step) Timely) (start c 1) handledQuit b ∧ b.Quiet ∧
      (b.irc.getChanuserlist (bytes "#c")).contains (bytes "foo") = true := by
  have hfold : ((joinedInputs.foldlM Irc.serve (Irc.started (bytes "bot"))).bind fun c =>
      (handledQuit.foldlM (fun b a => if Timely b a then b.step a else none) (start c 1)).map
        fun b => decide (b.Quiet ∧ bytes "#c" ∈ b.irc.chans ∧
          b.heard = [.quits (bytes "foo"), .joins (bytes "#c") (bytes "foo")])) = some true := by
    decide +kernel
  obtain ⟨c, hc, hfold⟩ := Option.bind_eq_some_iff.mp hfold
  obtain ⟨b, hb, hend⟩ := Option.map_eq_some_iff.mp hfold
  obtain ⟨hquiet, hchan, hheard⟩ := of_decide_eq_true hend
  have hreach : Run (Fun Irc.serve) (Irc.started (bytes "bot")) joinedInputs c := .of_foldlM hc
  have hrun : Run (Under (Fun step) Timely) (start c 1) handledQuit b := .under_of_foldlM hb
  refine ⟨c, b, hreach, hrun, hquiet, ?_⟩
  rw [run_tracked (Irc.started_started _) hreach hrun hquiet _ hchan, hheard]
  exact .inr ⟨rfl, rfl⟩

/-- **A QUIT handled late** removes the user who has come back. -/
theorem run_not_tracked :
    ∃ c b, Run (Fun Irc.serve) (Irc.started (bytes "bot")) joinedInputs c ∧
      Run (Fun step) (start c 1) lateQuit b ∧ b.Quiet ∧ bytes "#c" ∈ b.irc.chans ∧
      b.heard = [.quits (bytes "foo"), .joins (bytes "#c") (bytes "foo")] ∧
      (b.irc.getChanuserlist (bytes "#c")).contains (bytes "foo") = false := by
  have hfold : ((joinedInputs.foldlM Irc.serve (Irc.started (bytes "bot"))).bind fun c =>
      (lateQuit.foldlM step (start c 1)).map fun b =>
        decide (b.Quiet ∧ bytes "#c" ∈ b.irc.chans ∧
          b.heard = [.quits (bytes "foo"), .joins (bytes "#c") (bytes "foo")] ∧
          (b.irc.getChanuserlist (bytes "#c")).contains (bytes "foo") = false)) = some true := by
    decide +kernel
  obtain ⟨c, hc, hfold⟩ := Option.bind_eq_some_iff.mp hfold
  obtain ⟨b, hb, hend⟩ := Option.map_eq_some_iff.mp hfold
  exact ⟨c, b, .of_foldlM hc, .of_foldlM hb, of_decide_eq_true hend⟩

end Bot

end Meowbot
