import Meowbot.ListOps

set_option relaxedAutoImplicit false
set_option autoImplicit false

/-!
# The channels of the bot

The list of channels never holds two names that are equal under the case mapping. It follows the
messages about the bot itself only as far as three comparisons of the handlers go: the nick in a
message is compared byte by byte, an empty channel name is never entered, and a KICK of a nick
that is missing from the user list of the channel is ignored.

## Main definitions

* `Meowbot.Lists.ChansOk` — the invariant of the list.
* `Meowbot.Irc.OwnJoin`, `Irc.OwnPart`, `Irc.OwnKick` — the messages about the bot itself;
  `Irc.JoinSeen`, `Irc.PartSeen`, `Irc.KickSeen` — the conditions under which the list follows them.

## Main results

* `Meowbot.Irc.chans_exact` — in every reachable state, when the list does what the messages say.
-/

namespace Meowbot

open Runs

/-! ## The invariant -/

namespace Lists

/-- The channels have different names, none of them empty. -/
structure ChansOk (l : Lists) : Prop where
  distinct : (l.chans.map ircStrlower).Nodup
  named : ∀ x ∈ l.chans, cstr x ≠ []

/-- The channels after leaving one, in lower case. -/
lemma map_chans_leaveChan {l : Lists} {chan : Bytes} (hnil : chan ≠ []) :
    (l.leaveChan chan).chans.map ircStrlower =
      (l.chans.map ircStrlower).erase (ircStrlower chan) := by
  unfold leaveChan
  by_cases hin : l.InChans chan
  · rw [if_pos ⟨hnil, hin⟩, List.erase_eq_eraseP, List.eraseP_map]
    simp only [clearUsers, mapUsers, ircStrcasecmp_eq_zero]
    congr 2
    funext x
    rw [Bool.eq_iff_iff]
    simp only [Function.comp_apply, beq_iff_eq, decide_eq_true_eq]
    exact eq_comm
  · rw [if_neg (fun h => hin h.2), List.erase_of_not_mem (fun h => hin ((l.inChans_iff chan).mpr h))]

/-- A nonempty channel that is entered is in the list, and so is what was in it. -/
lemma inChans_joinChan {l : Lists} {chan : Bytes} (hnil : chan ≠ []) (x : Bytes) :
    (l.joinChan chan).InChans x ↔ l.InChans x ∨ ircStrlower x = ircStrlower chan := by
  unfold joinChan
  by_cases hin : l.InChans chan
  · rw [if_pos (.inr hin)]
    refine ⟨.inl, fun h => h.elim id fun heq => ?_⟩
    rw [inChans_iff, heq]
    exact (l.inChans_iff chan).mp hin
  · rw [if_neg (not_or.mpr ⟨hnil, hin⟩), inChans_iff, inChans_iff]
    simp [clearUsers, mapUsers]

/-- A channel that is left is not in the list, and nothing else changes. -/
lemma inChans_leaveChan {l : Lists} (hl : l.ChansOk) {chan : Bytes} (hnil : chan ≠ []) (x : Bytes) :
    (l.leaveChan chan).InChans x ↔ l.InChans x ∧ ircStrlower x ≠ ircStrlower chan := by
  rw [inChans_iff, inChans_iff, map_chans_leaveChan hnil, hl.distinct.mem_erase_iff, and_comm]

/-- No channel with an empty name is in the list. -/
lemma ChansOk.not_inChans_nil {l : Lists} (hl : l.ChansOk) : ¬ l.InChans [] := by
  rintro ⟨x, hx, heq⟩
  rw [ircStrcasecmp_eq_zero] at heq
  exact hl.named x hx (ircStrlower_eq_nil.mp heq)

/-- **One operation** keeps the invariant.

**Proof sketch.** By cases on the operation: only entering and leaving a channel change the list. A
channel that is entered has a name and was not in the list; leaving erases at most one. -/
lemma ChansOk.apply {l : Lists} {op : ListOp} (hl : l.ChansOk) (hop : l.Valid op) :
    (l.apply op).ChansOk := by
  have hsame : ∀ l' : Lists, l'.chans = l.chans → l'.ChansOk := fun l' h =>
    ⟨h ▸ hl.distinct, h ▸ hl.named⟩
  cases op with
  | setNick nick => exact hsame _ rfl
  | clearUsers chan => exact hsame _ rfl
  | addUser chan nick ident => exact hsame _ (chans_addUser l chan nick ident)
  | delUser chan nick => exact hsame _ (chans_delUser l chan nick)
  | renameUser chan nick newnick ident => exact hsame _ (chans_renameUser l chan nick newnick ident)
  | setMode chan nick sign newmode => exact hsame _ rfl
  | joinChan chan =>
    change (l.joinChan chan).ChansOk
    unfold joinChan
    split_ifs with hskip
    · exact hl
    · obtain ⟨hnil, hin⟩ := not_or.mp hskip
      rw [inChans_iff] at hin
      constructor
      · simpa [clearUsers, mapUsers, List.nodup_append] using ⟨hl.distinct, by simpa using hin⟩
      · intro x hx
        rcases List.mem_append.mp hx with hx | hx
        · exact hl.named x hx
        · obtain rfl := List.mem_singleton.mp hx
          rwa [cstr_eq_self hop]
  | leaveChan chan =>
    change (l.leaveChan chan).ChansOk
    by_cases hnil : chan = []
    · rw [leaveChan, if_neg (fun h => h.1 hnil)]
      exact hl
    · constructor
      · rw [map_chans_leaveChan hnil]
        exact hl.distinct.erase _
      · intro x hx
        refine hl.named x ?_
        unfold leaveChan at hx
        split_ifs at hx
        · exact List.mem_of_mem_eraseP hx
        · exact hx

/-- The lists at the start. -/
lemma chansOk_init (nick : Bytes) : (init nick).ChansOk :=
  ⟨List.nodup_nil, fun _ h => absurd h List.not_mem_nil⟩

end Lists

/-! ## Reachable states -/

namespace Irc

/-- **The invariant holds in every reachable state.** -/
lemma run_chansOk {c₀ c : Irc} {is : List Input} (hc₀ : Started c₀)
    (h : Run (Fun serve) c₀ is c) : c.lists.ChansOk := by
  refine h.preserves (I := fun c => c.lists.ChansOk) (fun c i c' hc hstep => ?_) ?_
  · exact serve_preserves (C := fun _ _ => True) (fun l op hl hop _ => hl.apply hop)
      (fun _ _ _ _ _ _ => trivial) hc.distinct hstep (fun _ _ => trivial) hc
  · obtain ⟨nick, hnick⟩ := hc₀.lists_eq
    rw [hnick]
    exact Lists.chansOk_init nick

/-! ## The messages about the bot -/

/-- A JOIN of the bot, its nick being compared under the case mapping. -/
def OwnJoin (c : Irc) (m : Message) : Prop :=
  Command.ofBytes m.cmd = .join ∧ 1 ≤ m.nparam ∧ ircStrcasecmp m.origin.nick c.nick = 0

/-- A PART of the bot. -/
def OwnPart (c : Irc) (m : Message) : Prop :=
  Command.ofBytes m.cmd = .part ∧ 1 ≤ m.nparam ∧ ircStrcasecmp m.origin.nick c.nick = 0

/-- A KICK of the bot. -/
def OwnKick (c : Irc) (m : Message) : Prop :=
  Command.ofBytes m.cmd = .kick ∧ 2 ≤ m.nparam ∧ ircStrcasecmp (m.arg 1) c.nick = 0

/-- The list follows a JOIN: the channel has a name, and the nick is the one of the bot byte by
byte or the channel is in the list already. -/
def JoinSeen (c : Irc) (m : Message) : Prop :=
  m.arg 0 ≠ [] ∧ (m.origin.nick = c.nick ∨ c.lists.InChans (m.arg 0))

/-- The list follows a PART: the nick is the one of the bot byte by byte, or the channel is not in
the list. -/
def PartSeen (c : Irc) (m : Message) : Prop :=
  m.origin.nick = c.nick ∨ ¬ c.lists.InChans (m.arg 0)

/-- The list follows a KICK: the nick is the one of the bot byte by byte and in the user list of
the channel, or the channel is not in the list. -/
def KickSeen (c : Irc) (m : Message) : Prop :=
  (m.arg 1 = c.nick ∧ (c.getChanuserlist (m.arg 0)).contains (m.arg 1)) ∨
    ¬ c.lists.InChans (m.arg 0)

/-- After a JOIN of the bot. -/
lemma inChans_join {c : Irc} {m : Message} (hc : c.lists.ChansOk) (hn : 1 ≤ m.nparam) :
    ((c.listOps m .join).foldl Lists.apply c.lists).InChans (m.arg 0) ↔ JoinSeen c m := by
  simp only [listOps, if_neg (by omega : ¬ m.nparam < 1), JoinSeen]
  by_cases hnick : m.origin.nick = c.nick
  · rw [if_pos hnick]
    change (c.lists.joinChan (m.arg 0)).InChans (m.arg 0) ↔ _
    by_cases hnil : m.arg 0 = []
    · rw [Lists.joinChan, if_pos (.inl hnil), hnil]
      exact ⟨fun h => absurd h hc.not_inChans_nil, fun h => absurd rfl h.1⟩
    · rw [Lists.inChans_joinChan hnil]
      exact ⟨fun _ => ⟨hnil, .inl hnick⟩, fun _ => .inr rfl⟩
  · rw [if_neg hnick]
    change (c.lists.addUser (m.arg 0) m.origin.nick m.ident).InChans (m.arg 0) ↔ _
    rw [Lists.InChans, Lists.chans_addUser]
    refine ⟨fun h => ⟨fun hnil => ?_, .inr h⟩, fun h => h.2.resolve_left hnick⟩
    rw [hnil] at h
    exact hc.not_inChans_nil h

/-- After the bot has left a channel. -/
lemma not_inChans_leave {l : Lists} (hl : l.ChansOk) (chan : Bytes) :
    ¬ (l.leaveChan chan).InChans chan := by
  by_cases hnil : chan = []
  · rw [Lists.leaveChan, if_neg (fun h => h.1 hnil), hnil]
    exact hl.not_inChans_nil
  · rw [Lists.inChans_leaveChan hl hnil]
    exact fun h => h.2 rfl

/-- After a PART of the bot. -/
lemma inChans_part {c : Irc} {m : Message} (hc : c.lists.ChansOk) (hn : 1 ≤ m.nparam) :
    ¬ ((c.listOps m .part).foldl Lists.apply c.lists).InChans (m.arg 0) ↔ PartSeen c m := by
  simp only [listOps, if_neg (by omega : ¬ m.nparam < 1), PartSeen]
  by_cases hnick : m.origin.nick = c.nick
  · rw [if_pos hnick]
    exact ⟨fun _ => .inl hnick, fun _ => not_inChans_leave hc _⟩
  · rw [if_neg hnick]
    change ¬ (c.lists.delUser (m.arg 0) m.origin.nick).InChans (m.arg 0) ↔ _
    rw [Lists.InChans, Lists.chans_delUser]
    exact ⟨.inr, fun h => h.resolve_left hnick⟩

/-- After a KICK of the bot. -/
lemma inChans_kick {c : Irc} {m : Message} (hc : c.lists.ChansOk) (hn : 2 ≤ m.nparam) :
    ¬ ((c.listOps m .kick).foldl Lists.apply c.lists).InChans (m.arg 0) ↔ KickSeen c m := by
  simp only [listOps, if_neg (by omega : ¬ m.nparam < 2), KickSeen]
  by_cases hfound : (c.getChanuserlist (m.arg 0)).contains (m.arg 1)
  · rw [if_pos hfound]
    by_cases hnick : m.arg 1 = c.nick
    · rw [if_pos hnick]
      exact ⟨fun _ => .inl ⟨hnick, hfound⟩, fun _ => not_inChans_leave hc _⟩
    · rw [if_neg hnick]
      change ¬ (c.lists.delUser (m.arg 0) (m.arg 1)).InChans (m.arg 0) ↔ _
      rw [Lists.InChans, Lists.chans_delUser]
      exact ⟨.inr, fun h => h.resolve_left fun h => hnick h.1⟩
  · rw [if_neg hfound]
    exact ⟨.inr, fun h => h.resolve_left fun h => hfound h.2⟩

/-- `is_joined` finds the channels of the list, but it also takes the empty name for one. -/
lemma isJoined_iff {c : Irc} (hc : c.lists.ChansOk) (chan : Bytes) :
    (c.isJoined chan = true ↔ c.lists.InChans chan) ↔ chan ≠ [] := by
  by_cases hnil : chan = []
  · rw [isJoined, if_pos hnil, hnil]
    exact ⟨fun h => absurd (h.mp rfl) hc.not_inChans_nil, fun h => absurd rfl h⟩
  · rw [isJoined, if_neg hnil, c.any_chans_iff]
    exact ⟨fun _ => hnil, fun _ => Iff.rfl⟩

/-- **The channels of the bot.** In every reachable state no two channels of the list are equal
under the case mapping, and `is_joined` tells whether a channel is in the list exactly for
nonempty names. After a JOIN of the bot the channel is in the list, and after a PART or KICK it is
not, exactly when the list follows the message.

**Proof sketch.** The invariant `ChansOk` holds in every reachable state, so a channel is found
exactly if it has a name. What a message of the bot does is read off its operations on the lists. -/
theorem chans_exact {c₀ c : Irc} {is : List Input} (hc₀ : Started c₀)
    (h : Run (Fun serve) c₀ is c) :
    c.chans.Pairwise (fun x y => ircStrcasecmp x y ≠ 0) ∧
    (∀ chan, (c.isJoined chan = true ↔ ∃ x ∈ c.chans, ircStrcasecmp x chan = 0) ↔ chan ≠ []) ∧
    ∀ i m c', c.message i = some m → c.serve i = some c' →
      (OwnJoin c m →
        ((∃ x ∈ c'.chans, ircStrcasecmp x (m.arg 0) = 0) ↔ JoinSeen c m)) ∧
      (OwnPart c m →
        ((¬ ∃ x ∈ c'.chans, ircStrcasecmp x (m.arg 0) = 0) ↔ PartSeen c m)) ∧
      (OwnKick c m →
        ((¬ ∃ x ∈ c'.chans, ircStrcasecmp x (m.arg 0) = 0) ↔ KickSeen c m)) := by
  have hc := run_chansOk hc₀ h
  refine ⟨?_, isJoined_iff hc, fun i m c' hm hserve => ?_⟩
  · have hdistinct := hc.distinct
    rw [List.Nodup, List.pairwise_map] at hdistinct
    refine hdistinct.imp fun hne heq => hne ?_
    rwa [← ircStrcasecmp_eq_zero]
  · have hafter := serve_lists hserve
    rw [inputOps_of_message hm] at hafter
    change (_ → (c'.lists.InChans (m.arg 0) ↔ _)) ∧ (_ → (¬ c'.lists.InChans (m.arg 0) ↔ _)) ∧
      (_ → (¬ c'.lists.InChans (m.arg 0) ↔ _))
    rw [hafter]
    refine ⟨fun hown => ?_, fun hown => ?_, fun hown => ?_⟩
    · rw [hown.1]
      exact inChans_join hc hown.2.1
    · rw [hown.1]
      exact inChans_part hc hown.2.1
    · rw [hown.1]
      exact inChans_kick hc hown.2.1

/-- A bot that has joined a channel, whose users it does not know yet. -/
def joinedRun : List Input := [.line 0 (bytes ":bot!u@h JOIN #c")]

/-- **A KICK that is ignored**: the bot is kicked before it knows the users of the channel, and the
channel stays in its list. -/
theorem chans_kick_ignored :
    ∃ c₀ c i m c', Started c₀ ∧ Run (Fun serve) c₀ joinedRun c ∧ c.message i = some m ∧
      c.serve i = some c' ∧ OwnKick c m ∧ ∃ x ∈ c'.chans, ircStrcasecmp x (m.arg 0) = 0 := by
  refine ⟨started (bytes "bot"), _, .line 1 (bytes ":op!u@h KICK #c bot"), _, _,
    started_started _, Run.of_foldlM rfl, rfl, rfl, ?_, ?_⟩
  · exact ⟨by decide, by decide, by decide⟩
  · decide

/-- The list of a bot that has joined a channel. -/
theorem chans_exact_joined :
    ∃ c, Run (Fun serve) (started (bytes "bot")) joinedRun c ∧ c.chans = [bytes "#c"] ∧
      c.chans.Pairwise fun x y => ircStrcasecmp x y ≠ 0 := by
  have hrun : Run (Fun serve) (started (bytes "bot")) joinedRun _ := Run.of_foldlM rfl
  exact ⟨_, hrun, rfl, (chans_exact (started_started _) hrun).1⟩

end Irc

end Meowbot
