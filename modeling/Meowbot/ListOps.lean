import Meowbot.MainLoop
import Meowbot.Lists
import Meowbot.Lib.Runs

set_option relaxedAutoImplicit false
set_option autoImplicit false

/-!
# What messages do to the lists

Which operations on the lists a message performs depends on the message and on the state before
it. The handlers of the main loop, which also send lines and report events, do to the lists what
these operations do.

## Main definitions

* `Meowbot.Irc.listOps` — the operations a message performs.
* `Meowbot.Input`, `Meowbot.Irc.serve` — the inputs of a connection: received lines, and the
  removals of users who have quit, made by the event threads at any time.
* `Meowbot.Irc.inputOps` — the operations an input performs.

## Main results

* `Meowbot.handle_lists`, `Meowbot.Irc.serve_lists` — a message does to the lists what its
  operations do.
* `Meowbot.Irc.inputOps_together` — which operations an input performs together.
* `Meowbot.Irc.serve_preserves` — the invariant rule for inputs.
-/

namespace Meowbot

open ListOp (Together)

/-! ## The operations of the messages -/

/-- The operations of a MODE string, from a sign on and with the parameters left. The string is left
at the first letter that has no parameter though it takes one, or an empty one, as in the loop of
the handler. -/
def modeOps (chan : Bytes) (sign : Byte) : List Bytes → Bytes → List ListOp
  | _, [] => []
  | params, mode :: modes =>
    if mode = '+' ∨ mode = '-' then modeOps chan mode params modes
    else match modePrefix mode, params with
      | some newmode, nick :: params =>
        if nick = [] then []
        else .setMode chan nick sign newmode :: modeOps chan sign params modes
      | some _, [] => []
      | none, params =>
        if modeTakesParam sign mode then
          match params with
          | param :: params => if param = [] then [] else modeOps chan sign params modes
          | [] => []
        else modeOps chan sign params modes

/-- The names in a NAMES reply, with the bytes since `startp`. -/
def splitNames (arg : Bytes) : Bytes → List Bytes
  | [] => [arg]
  | p :: ps =>
    if p = ' ' then arg :: (if ps = [] then [] else splitNames [] ps)
    else splitNames (arg ++ [p]) ps

/-- The operation for one name of a NAMES reply. -/
def nameOp (namesxOn : Bool) (chan arg : Bytes) : ListOp :=
  if namesxOn then
    .addUser chan (match reModeAndNick.exec arg with
      | some [modenick] => modenick
      | _ => []) (IrcIdent.setIdent arg).ident
  else .addUser chan arg []

/-- The mode characters of MODE. -/
lemma isModeChar_of_modePrefix {mode newmode : Byte} (h : modePrefix mode = some newmode) :
    isModeChar newmode := by
  unfold modePrefix at h
  split_ifs at h <;> obtain rfl := Option.some.inj h <;> decide

/-- The operations of a MODE string set mode characters in its channel.

**Proof sketch.** By induction on the mode string. A letter that gives or takes a mode character
from a user adds one operation, all others none. -/
lemma mem_modeOps {chan : Bytes} {sign : Byte} {params : List Bytes} {modes : Bytes} {op : ListOp}
    (h : op ∈ modeOps chan sign params modes) :
    ∃ nick sign newmode, op = .setMode chan nick sign newmode ∧ isModeChar newmode := by
  induction modes generalizing sign params with
  | nil => exact absurd h List.not_mem_nil
  | cons mode modes ih =>
    unfold modeOps at h
    split at h
    · exact ih h
    · split at h
      · rename_i hmode
        split at h
        · exact absurd h List.not_mem_nil
        · rcases List.mem_cons.mp h with rfl | h
          · exact ⟨_, _, _, rfl, isModeChar_of_modePrefix hmode⟩
          · exact ih h
      · exact absurd h List.not_mem_nil
      · split at h
        · split at h
          · split at h
            · exact absurd h List.not_mem_nil
            · exact ih h
          · exact absurd h List.not_mem_nil
        · exact ih h

namespace Irc

/-- The nick, channels and users of a connection. -/
def lists (c : Irc) : Lists := { nick := c.nick, chans := c.chans, users := c.chanUsers }

/-- The operations that a message with a command performs, in their order. They are read off the
handlers, and the handlers are proved to perform exactly these. -/
def listOps (c : Irc) (m : Message) : Command → List ListOp
  | .mode =>
    if m.nparam < 2 then []
    else match cstr (m.arg 1) with
      | [] => []
      | sign :: modes => modeOps (m.arg 0) sign (m.params.drop 2) modes
  | .join =>
    if m.nparam < 1 then []
    else if m.origin.nick = c.nick then [.joinChan (m.arg 0)]
    else [.addUser (m.arg 0) m.origin.nick m.ident]
  | .part =>
    if m.nparam < 1 then []
    else if m.origin.nick = c.nick then [.leaveChan (m.arg 0)]
    else [.delUser (m.arg 0) m.origin.nick]
  | .kick =>
    if m.nparam < 2 then []
    else if (c.getChanuserlist (m.arg 0)).contains (m.arg 1) then
      if m.arg 1 = c.nick then [.leaveChan (m.arg 0)] else [.delUser (m.arg 0) (m.arg 1)]
    else []
  | .nick =>
    if m.nparam < 1 then []
    else (if m.origin.nick = c.nick then [.setNick (m.arg 0)] else []) ++
      c.chans.map fun chan => .renameUser chan m.origin.nick (m.arg 0) m.ident
  | .whoReply =>
    if c.srvinfo.namesxOn then []
    else if m.nparam < 7 then []
    else if isChanName (m.arg 1) then
      (if c.whoReceiving (m.arg 1) then [] else [.clearUsers (m.arg 1)]) ++
        [.addUser (m.arg 1) ((match reExtractModeChars.search (m.arg 6) with
          | some [mode] => mode
          | _ => []) ++ m.arg 5) (m.arg 5 ++ bytes "!" ++ m.arg 2 ++ bytes "@" ++ m.arg 3)]
    else []
  | .namesReply =>
    if m.nparam < 4 then []
    else if isChanName (m.arg 2) then
      if c.whoReceiving (m.arg 2) then []
      else (if c.namesReceiving (m.arg 2) then []
          else if c.srvinfo.namesxOn then [.clearUsers (m.arg 2)] else []) ++
        (splitNames [] (cstr (m.arg 3))).map (nameOp c.srvinfo.namesxOn (m.arg 2))
    else []
  | .nickInUse => if c.status = .connecting then [.setNick (c.nick ++ bytes "_")] else []
  | _ => []

end Irc

/-- An input of a connection. -/
inductive Input where
  /-- A line received, with the time. -/
  | line (now : ℤ) (line : Bytes)
  /-- The end of the event handlers for the quit of a user, in an event thread. -/
  | quitDone (nick : Bytes)

namespace Irc

/-- The variables of `main_loop` at its start. -/
def enterLoop (c : Irc) (now : ℤ) : Irc :=
  { c with lastPong := now, namesReceiving := fun _ => false, whoReceiving := fun _ => false }

/-- A connection that has just been made and is about to be served. -/
def Started (c : Irc) : Prop :=
  ∃ (c₀ : Irc) (now : ℤ), c₀.status = .disconnected ∧ c = (c₀.connect true).enterLoop now

/-- The connection of a bot with a nick, just made. -/
def started (nick : Bytes) : Irc :=
  (({ fresh nick with status := .disconnected } : Irc).connect true).enterLoop 0

lemma started_started (nick : Bytes) : Started (started nick) := ⟨_, 0, rfl, rfl⟩

/-- What a connection does with an input. Lines are read while it is connected; nothing is known
about what follows an access out of range. -/
def serve (c : Irc) : Input → Option Irc
  | .line now line =>
    if c.status = .disconnected then none
    else match c.receiveLine now line with
      | .ok h => match h.flow with
        | .next => some h.irc
        | .leave _ => some h.irc.disconnect
      | .error _ => none
  | .quitDone nick => some (c.ircbotEventHandler nick)

/-- The message of an input that is a line, as the main loop takes it apart after conversion. -/
def message (c : Irc) : Input → Option Message
  | .line _ line => Message.ofLine (c.convertLine line).1
  | .quitDone _ => none

/-- The operations that an input performs. -/
def inputOps (c : Irc) (i : Input) : List ListOp :=
  match i with
  | .line _ _ => match c.message i with
    | some m => c.listOps m (.ofBytes m.cmd)
    | none => []
  | .quitDone nick => c.chans.map fun chan => .delUser chan nick

/-! ## The lists after each method -/

@[simp] lemma lists_sendEvent (c : Irc) (e : IrcEvent) : (c.sendEvent e).lists = c.lists := rfl

@[simp] lemma lists_quote (c : Irc) (line : Bytes) (priority : ℤ) (convertEnc : Bool) :
    (c.quote line priority convertEnc).2.lists = c.lists := by
  by_cases hc : c.status = .disconnected
  · rw [quote, if_pos hc]
  · rw [quote_snd hc]
    rfl

@[simp] lemma lists_quoteLine (c : Irc) (line : Bytes) : (c.quoteLine line).lists = c.lists :=
  lists_quote c line _ _

@[simp] lemma lists_refreshChanuserlist (c : Irc) (chan : Bytes) :
    (c.refreshChanuserlist chan).lists = c.lists := by
  unfold refreshChanuserlist
  split_ifs <;> exact lists_quoteLine _ _

/-- Whether the bot is in a channel, as the loops over the channels find it. -/
lemma any_chans_iff (c : Irc) (chan : Bytes) :
    (c.chans.any fun x => ircStrcasecmp x chan = 0) = true ↔ c.lists.InChans chan := by
  simp [Lists.InChans, lists]

lemma lists_addToChanlist (c : Irc) (chan : Bytes) :
    (c.addToChanlist chan).lists = c.lists.joinChan chan := by
  unfold addToChanlist Lists.joinChan
  by_cases hnil : chan = []
  · rw [if_pos hnil, if_pos (.inl hnil)]
  · by_cases hin : c.lists.InChans chan
    · rw [if_neg hnil, if_pos ((c.any_chans_iff chan).mpr hin), if_pos (.inr hin)]
    · rw [if_neg hnil, if_neg (fun h => hin ((c.any_chans_iff chan).mp h)),
        if_neg (not_or.mpr ⟨hnil, hin⟩)]
      rfl

lemma lists_delFromChanlist (c : Irc) (chan : Bytes) :
    (c.delFromChanlist chan).lists = c.lists.leaveChan chan := by
  unfold delFromChanlist Lists.leaveChan
  by_cases hnil : chan = []
  · rw [if_pos hnil, if_neg (fun h => h.1 hnil)]
  · by_cases hin : c.lists.InChans chan
    · rw [if_neg hnil, if_pos ((c.any_chans_iff chan).mpr hin), if_pos ⟨hnil, hin⟩]
      rfl
    · rw [if_neg hnil, if_neg (fun h => hin ((c.any_chans_iff chan).mp h)),
        if_neg (fun h => hin h.2)]

lemma lists_addToChanuserlist (c : Irc) (chan nick ident : Bytes) :
    (c.addToChanuserlist chan nick ident).lists = c.lists.addUser chan nick ident := by
  unfold addToChanuserlist Lists.addUser
  split_ifs <;> rfl

lemma lists_delFromChanuserlist (c : Irc) (chan nick : Bytes) :
    (c.delFromChanuserlist chan nick).lists = c.lists.delUser chan nick := by
  unfold delFromChanuserlist Lists.delUser
  by_cases hnil : chan = [] ∨ nick = []
  · rw [if_pos hnil, if_pos hnil]
  · by_cases hin : (c.getChanuserlist chan).contains (splitNickUsermode nick).2
    · have hin' : (c.lists.usersOf chan).contains (splitNickUsermode nick).2 := hin
      rw [if_neg hnil, if_neg hnil, if_pos hin']
      dsimp only
      rw [if_pos hin]
      rfl
    · have hin' : ¬ (c.lists.usersOf chan).contains (splitNickUsermode nick).2 := hin
      rw [if_neg hnil, if_neg hnil, if_neg hin']
      dsimp only
      rw [if_neg hin, lists_refreshChanuserlist]

/-- `is_user_joined` takes the same nick out of a decorated one as the other methods. -/
lemma isUserJoined_eq (c : Irc) (chan nick : Bytes) :
    c.isUserJoined chan nick = c.lists.userJoined chan nick := by
  unfold isUserJoined Lists.userJoined
  by_cases hnil : chan = [] ∨ nick = []
  · rw [if_pos hnil]
    rcases hnil with h | h <;> simp [h]
  · obtain ⟨h1, h2⟩ := not_or.mp hnil
    rw [if_neg hnil, reExtractNick_exec, splitNickUsermode_eq]
    simp only [h1, h2, false_or, Bool.decide_eq_true]
    rfl

lemma lists_renameIn (c : Irc) (nick newnick ident chan : Bytes) :
    (renameIn c nick newnick ident chan).lists = c.lists.renameUser chan nick newnick ident := by
  unfold renameIn Lists.renameUser
  rw [isUserJoined_eq]
  split_ifs
  · dsimp only
    rw [lists_addToChanuserlist, lists_delFromChanuserlist]
    rfl
  · rfl

@[simp] lemma srvinfo_addToChanuserlist (c : Irc) (chan nick ident : Bytes) :
    (c.addToChanuserlist chan nick ident).srvinfo = c.srvinfo := by
  unfold addToChanuserlist
  split_ifs <;> rfl

/-! ## The lists after each loop -/

/-- The loop of the NICK handler renames the user in each channel. -/
lemma lists_foldl_renameIn (nick newnick ident : Bytes) (chans : List Bytes) (c : Irc) :
    (chans.foldl (fun c chan => renameIn c nick newnick ident chan) c).lists =
      (chans.map fun chan => ListOp.renameUser chan nick newnick ident).foldl Lists.apply
        c.lists := by
  induction chans generalizing c with
  | nil => rfl
  | cons chan chans ih =>
    rw [List.foldl_cons, ih, lists_renameIn]
    rfl

/-- The removal of a user who has quit removes the user from each channel.

**Proof sketch.** By induction on the channels. In each of them the user is removed if it is there;
if it is not, the operation does nothing either. -/
lemma lists_delFromChanuserlistAll (c : Irc) (nick : Bytes) :
    (c.delFromChanuserlistAll nick).lists =
      (c.chans.map fun chan => ListOp.delUser chan nick).foldl Lists.apply c.lists := by
  have hone : ∀ (c : Irc) (chan : Bytes),
      (if c.isUserJoined chan nick then c.delFromChanuserlist chan nick else c).lists =
        c.lists.delUser chan nick := by
    intro c chan
    split_ifs with hjoined
    · exact lists_delFromChanuserlist c chan nick
    · rw [isUserJoined_eq] at hjoined
      simp only [Lists.userJoined, decide_eq_true_eq, not_or] at hjoined
      rw [Lists.delUser, if_neg (not_or.mpr ⟨hjoined.1, hjoined.2.1⟩), if_neg hjoined.2.2]
  have hall : ∀ (chans : List Bytes) (c : Irc),
      (chans.foldl (fun c chan =>
        if c.isUserJoined chan nick then c.delFromChanuserlist chan nick else c) c).lists =
        (chans.map fun chan => ListOp.delUser chan nick).foldl Lists.apply c.lists := by
    intro chans
    induction chans with
    | nil => exact fun c => rfl
    | cons chan chans ih =>
      intro c
      rw [List.foldl_cons, ih, hone]
      rfl
  exact hall c.chans c

/-- Adding one name is its operation. -/
lemma lists_addName (c : Irc) (chan arg : Bytes) :
    (addName c chan arg).lists = c.lists.apply (nameOp c.srvinfo.namesxOn chan arg) ∧
      (addName c chan arg).srvinfo = c.srvinfo := by
  unfold addName nameOp
  split_ifs
  · exact ⟨lists_addToChanuserlist _ _ _ _, srvinfo_addToChanuserlist _ _ _ _⟩
  · exact ⟨lists_addToChanuserlist _ _ _ _, srvinfo_addToChanuserlist _ _ _ _⟩

/-- The loop of the NAMES handler adds the names one after the other. -/
lemma lists_namesLoop (chan : Bytes) (c : Irc) (arg s : Bytes) :
    (namesLoop chan c arg s).1.lists =
      ((splitNames arg s).map (nameOp c.srvinfo.namesxOn chan)).foldl Lists.apply c.lists := by
  induction s generalizing c arg with
  | nil => exact (lists_addName c chan arg).1
  | cons p ps ih =>
    obtain ⟨hlists, hsrv⟩ := lists_addName c chan arg
    rw [namesLoop, splitNames]
    by_cases hp : p = (' ' : Byte)
    · rw [if_pos hp, if_pos hp, List.map_cons, List.foldl_cons, ← hlists]
      by_cases hps : ps = []
      · simp only [if_pos hps]
        rfl
      · simp only [if_neg hps]
        rw [ih, hsrv]
    · rw [if_neg hp, if_neg hp]
      exact ih c (arg ++ [p])

end Irc

/-- A parameter is taken from the parameters left, and an empty one leaves the loop.

**Proof sketch.** If there is no parameter left, the access is out of range and there is no result.
Otherwise it is the first one of those left, and is either empty or given to the letter. -/
lemma ModeVars.withParam_ok {m : Message} {chan : Bytes} {v : ModeVars} {mode : Byte}
    {apply : Bytes → Irc} {r : Option ModeVars} (h : v.withParam m chan mode apply = .ok r) :
    ∃ param, m.params.drop v.pi = param :: m.params.drop (v.pi + 1) ∧
      ((param = [] ∧ r = none) ∨
        (param ≠ [] ∧ r = some { v with
          irc := (apply param).sendEvent (.mode m.origin chan [v.sign, mode] param),
          pi := v.pi + 1 })) := by
  rcases Nat.lt_or_ge v.pi m.params.length with hlt | hge
  · refine ⟨_, Message.drop_params hlt, ?_⟩
    rw [withParam, Message.at_of_lt hlt] at h
    by_cases hnil : m.params.get ⟨v.pi, hlt⟩ = []
    · refine .inl ⟨hnil, ?_⟩
      rw [hnil] at h
      exact (Except.ok.inj h).symm
    · refine .inr ⟨hnil, ?_⟩
      change (if m.params.get ⟨v.pi, hlt⟩ = [] then _ else _) = _ at h
      rw [if_neg hnil] at h
      exact (Except.ok.inj h).symm
  · rw [withParam, Message.at_of_le hge] at h
    cases h

/-- **One letter** performs the first operations of the mode string, and it leaves the loop where
no operations are left.

**Proof sketch.** By the kind of the letter: a sign, a letter for a mode of users, one with another
parameter, or one without. The branches of the loop and of `modeOps` ask the same questions in the
same order. -/
lemma modeLetter_ops {m : Message} {chan : Bytes} {v : ModeVars} {mode : Byte}
    {r : Option ModeVars} (h : modeLetter m chan v mode = .ok r) (modes : Bytes) :
    match r with
    | none => modeOps chan v.sign (m.params.drop v.pi) (mode :: modes) = []
    | some v' => ∃ ops, modeOps chan v.sign (m.params.drop v.pi) (mode :: modes) =
        ops ++ modeOps chan v'.sign (m.params.drop v'.pi) modes ∧
        v'.irc.lists = ops.foldl Lists.apply v.irc.lists := by
  rw [modeLetter] at h
  by_cases hsign : mode = '+' ∨ mode = '-'
  · rw [if_pos hsign] at h
    obtain rfl := Except.ok.inj h
    exact ⟨[], by simp only [modeOps, if_pos hsign, List.nil_append], rfl⟩
  · rw [if_neg hsign] at h
    rcases hmode : modePrefix mode with _ | newmode <;> rw [hmode] at h
    · by_cases hparam : modeTakesParam v.sign mode
      · rw [if_pos hparam] at h
        obtain ⟨param, hdrop, ⟨hnil, rfl⟩ | ⟨hne, rfl⟩⟩ := ModeVars.withParam_ok h
        · simp only [modeOps, if_neg hsign, hmode, if_pos hparam, hdrop, if_pos hnil]
        · refine ⟨[], ?_, rfl⟩
          simp only [modeOps, if_neg hsign, hmode, if_pos hparam, hdrop, if_neg hne,
            List.nil_append]
      · rw [if_neg hparam] at h
        obtain rfl := Except.ok.inj h
        refine ⟨[], ?_, rfl⟩
        simp only [modeOps, if_neg hsign, hmode, if_neg hparam, List.nil_append]
    · obtain ⟨param, hdrop, ⟨hnil, rfl⟩ | ⟨hne, rfl⟩⟩ := ModeVars.withParam_ok h
      · simp only [modeOps, if_neg hsign, hmode, hdrop, if_pos hnil]
      · refine ⟨[.setMode chan param v.sign newmode], ?_, rfl⟩
        simp only [modeOps, if_neg hsign, hmode, hdrop, if_neg hne, List.cons_append,
          List.nil_append]

/-- The loop of the MODE handler performs the operations of the mode string.

**Proof sketch.** By induction on the mode string, with `modeLetter_ops` for its first letter: the
loop goes on with the operations that are left, or it is left where there are none. -/
lemma lists_modeLoop {m : Message} {chan : Bytes} {v : ModeVars} {modes : Bytes} {r : Irc × ℕ}
    (h : modeLoop m chan v modes = .ok r) :
    r.1.lists = (modeOps chan v.sign (m.params.drop v.pi) modes).foldl Lists.apply
      v.irc.lists := by
  induction modes generalizing v r with
  | nil =>
    obtain rfl := Except.ok.inj h
    rfl
  | cons mode modes ih =>
    rcases hletter : modeLetter m chan v mode with e | _ | v'
    · rw [modeLoop_cons_error hletter] at h
      cases h
    · have hops := modeLetter_ops hletter modes
      rw [modeLoop_cons_none hletter] at h
      obtain rfl := Except.ok.inj h
      rw [hops]
      rfl
    · obtain ⟨ops, hops, hlists⟩ := modeLetter_ops hletter modes
      rw [modeLoop_cons_some hletter] at h
      rcases hrest : modeLoop m chan v' modes with e | r'
      · rw [hrest] at h
        cases h
      · have hrec := ih hrest
        rw [hrest] at h
        obtain rfl := Except.ok.inj h
        rw [hops, List.foldl_append, ← hlists]
        exact hrec

/-- The tokens of 005 leave the lists alone. -/
lemma lists_isupportToken (c : Irc) (token : Bytes) :
    (isupportToken c token).lists = c.lists := by
  unfold isupportToken
  split_ifs
  · exact Irc.lists_quoteLine _ _
  · exact Irc.lists_quoteLine _ _
  · split <;> rfl

/-! ## The lists after each handler -/

lemma lists_onMessage (c : Irc) (m : Message) (msgtype : IrcMsgtype) :
    (onMessage c m msgtype).lists = c.lists := by
  unfold onMessage
  split_ifs <;> rfl

/-- **MODE** does what its operations do.

**Proof sketch.** A message without a mode string has no operations. Otherwise the loop starts at
its first letter, with the third parameter. -/
lemma lists_onMode {c : Irc} {m : Message} {h : Handled} (hh : onMode c m = .ok h) :
    h.irc.lists = (c.listOps m .mode).foldl Lists.apply c.lists := by
  by_cases hn : m.nparam < 2
  · rw [onMode_eq_goOn c (.inl hn)] at hh
    obtain rfl := Except.ok.inj hh
    simp only [Irc.listOps, if_pos hn]
    rfl
  · rcases hmodes : cstr (m.arg 1) with _ | ⟨sign, modes⟩
    · rw [onMode_eq_goOn c (.inr hmodes)] at hh
      obtain rfl := Except.ok.inj hh
      simp only [Irc.listOps, if_neg hn, hmodes]
      rfl
    · rw [onMode_eq_loop c hn hmodes] at hh
      rcases hr : modeLoop m (m.arg 0) { irc := c, sign, pi := 2 } modes with e | r
      · rw [hr] at hh
        cases hh
      · have hrec := lists_modeLoop hr
        rw [hr] at hh
        obtain rfl := Except.ok.inj hh
        simp only [Irc.listOps, if_neg hn, hmodes]
        exact hrec

lemma lists_onJoin (c : Irc) (m : Message) :
    (onJoin c m).lists = (c.listOps m .join).foldl Lists.apply c.lists := by
  unfold onJoin
  by_cases hn : m.nparam < 1
  · simp only [Irc.listOps, if_pos hn]
    rfl
  · simp only [Irc.listOps, if_neg hn, Irc.lists_sendEvent]
    by_cases hnick : m.origin.nick = c.nick
    · rw [if_pos hnick, if_pos hnick, Irc.lists_quoteLine]
      split_ifs
      · exact Irc.lists_addToChanlist _ _
      · rw [Irc.lists_refreshChanuserlist]
        exact Irc.lists_addToChanlist _ _
    · rw [if_neg hnick, if_neg hnick]
      exact Irc.lists_addToChanuserlist _ _ _ _

lemma lists_onPart (c : Irc) (m : Message) :
    (onPart c m).lists = (c.listOps m .part).foldl Lists.apply c.lists := by
  unfold onPart
  by_cases hn : m.nparam < 1
  · simp only [Irc.listOps, if_pos hn]
    rfl
  · simp only [Irc.listOps, if_neg hn, Irc.lists_sendEvent]
    split_ifs
    · exact Irc.lists_delFromChanlist _ _
    · exact Irc.lists_delFromChanuserlist _ _ _

/-- **KICK** does what its operations do: the channel is left, or the user is removed from it.

**Proof sketch.** By whether the user is known in the channel, in which case the event has its name;
the lists are changed in the same way in both cases. -/
lemma lists_onKick (c : Irc) (m : Message) :
    (onKick c m).lists = (c.listOps m .kick).foldl Lists.apply c.lists := by
  unfold onKick
  by_cases hn : m.nparam < 2
  · simp only [Irc.listOps, if_pos hn]
    rfl
  · simp only [Irc.listOps, if_neg hn]
    rcases hfind : (c.getChanuserlist (m.arg 0)).find? (m.arg 1) with _ | user
    · have hcont : (c.getChanuserlist (m.arg 0)).contains (m.arg 1) = false := by
        rw [FoldMap.contains, hfind]
        rfl
      rw [hcont]
      exact Irc.lists_refreshChanuserlist _ _
    · have hcont : (c.getChanuserlist (m.arg 0)).contains (m.arg 1) = true := by
        rw [FoldMap.contains, hfind]
        rfl
      rw [hcont]
      simp only [if_true, Irc.lists_sendEvent]
      split_ifs
      · exact Irc.lists_delFromChanlist _ _
      · exact Irc.lists_delFromChanuserlist _ _ _

lemma lists_onNick (c : Irc) (m : Message) :
    (onNick c m).lists = (c.listOps m .nick).foldl Lists.apply c.lists := by
  unfold onNick
  by_cases hn : m.nparam < 1
  · simp only [Irc.listOps, if_pos hn]
    rfl
  · simp only [Irc.listOps, if_neg hn, Irc.lists_sendEvent, List.foldl_append]
    by_cases hnick : m.origin.nick = c.nick
    · rw [if_pos hnick, if_pos hnick, Irc.lists_foldl_renameIn]
      rfl
    · rw [if_neg hnick, if_neg hnick, Irc.lists_foldl_renameIn]
      rfl

lemma lists_onWhoReply (c : Irc) (m : Message) :
    (onWhoReply c m).lists = (c.listOps m .whoReply).foldl Lists.apply c.lists := by
  unfold onWhoReply
  simp only [Irc.listOps]
  split_ifs
  · rfl
  · rfl
  · exact Irc.lists_addToChanuserlist _ _ _ _
  · exact Irc.lists_addToChanuserlist _ _ _ _
  · rfl

lemma lists_onNamesReply (c : Irc) (m : Message) :
    (onNamesReply c m).irc.lists = (c.listOps m .namesReply).foldl Lists.apply c.lists := by
  unfold onNamesReply
  simp only [Irc.listOps]
  split_ifs
  · rfl
  · rfl
  · exact Irc.lists_namesLoop _ _ _ _
  · exact Irc.lists_namesLoop _ _ _ _
  · exact Irc.lists_namesLoop _ _ _ _
  · rfl

/-- **A message does to the lists what its operations do.**

**Proof sketch.** By cases on the command: each handler has a lemma above, or does not touch the
lists. -/
lemma handle_lists {c : Irc} {now : ℤ} {m : Message} {cmd : Command} {h : Handled}
    (hh : handle c now m cmd = .ok h) :
    h.irc.lists = (c.listOps m cmd).foldl Lists.apply c.lists := by
  cases cmd
  case mode => exact lists_onMode hh
  case isupport =>
    have hstep : ∀ c' token, c'.lists = c.lists → (isupportToken c' token).lists = c.lists :=
      fun c' token hc' => (lists_isupportToken c' token).trans hc'
    exact (onIsupport_keeps hstep hh rfl).2
  all_goals obtain rfl := Except.ok.inj hh
  case ping => exact Irc.lists_quote _ _ _ _
  case privmsg => exact lists_onMessage c m _
  case notice => exact lists_onMessage c m _
  case join => exact lists_onJoin c m
  case part => exact lists_onPart c m
  case kick => exact lists_onKick c m
  case nick => exact lists_onNick c m
  case quit =>
    unfold onQuit
    split_ifs <;> rfl
  case whoReply => exact lists_onWhoReply c m
  case endOfWho =>
    change (onEndOfWho c m).lists = c.lists
    simp only [onEndOfWho]
    split_ifs
    · rfl
    · rfl
    · exact Irc.lists_quoteLine _ _
    · rfl
    · rfl
  case namesReply => exact lists_onNamesReply c m
  case endOfNames =>
    change (onEndOfNames c m).lists = c.lists
    unfold onEndOfNames
    split_ifs <;> rfl
  case error => rfl
  case invite =>
    change (onInvite c m).lists = c.lists
    unfold onInvite
    split_ifs <;> rfl
  case pong => rfl
  case nickInUse =>
    change (onNickInUse c).lists = _
    unfold onNickInUse
    simp only [Irc.listOps]
    split_ifs
    · exact Irc.lists_quoteLine _ _
    · rfl
  case endOfMotd =>
    change (onEndOfMotd c).lists = c.lists
    unfold onEndOfMotd
    split_ifs <;> rfl
  case other => rfl

namespace Irc

/-- Reporting a received line changes nothing that the operations depend on. -/
lemma listOps_reported (c : Irc) (line : Bytes) (e : IrcEvent) :
    (∀ m cmd, ((c.convertLine line).2.sendEvent e).listOps m cmd = c.listOps m cmd) ∧
      ((c.convertLine line).2.sendEvent e).lists = c.lists := by
  unfold convertLine
  cases c.convS2m <;> exact ⟨fun _ _ => rfl, rfl⟩

@[simp] lemma lists_disconnect (c : Irc) : c.disconnect.lists = c.lists := by
  unfold disconnect
  split_ifs <;> rfl

/-- What a line leads to: the next iteration, or the end of the connection. -/
def afterwards (h : Handled) : Irc :=
  match h.flow with
  | .next => h.irc
  | .leave _ => h.irc.disconnect

/-- **A line served** has been reported and, if it is a message, handled.

**Proof sketch.** The loop serves a line by reporting it and handing it to the handlers; when they
leave the loop the connection is given up, which is what `afterwards` says. -/
lemma serve_line {c c' : Irc} {now : ℤ} {line : Bytes} (h : c.serve (.line now line) = some c') :
    ∃ r, ((c.convertLine line).2.sendEvent (.srvincoming (c.convertLine line).1
        (c.convertLine line).2.isLineConverted)).processLine now (c.convertLine line).1 = .ok r ∧
      c' = afterwards r := by
  rw [serve] at h
  split_ifs at h with hstatus
  change (match c.receiveLine now line with
    | .ok h => match h.flow with
      | .next => some h.irc
      | .leave _ => some h.irc.disconnect
    | .error _ => none) = some c' at h
  rcases hr : c.receiveLine now line with e | r
  · rw [hr] at h
    cases h
  · refine ⟨r, hr, ?_⟩
    rw [hr] at h
    rcases hflow : r.flow with _ | result <;> simp only [hflow, afterwards] at h ⊢ <;>
      exact (Option.some.inj h).symm

/-- **What an input does to the lists** are its operations.

**Proof sketch.** A line is parsed and handled (`handle_lists`); what is reported of it does not
change the lists, and a disconnection behind it clears them. -/
lemma serve_lists {c c' : Irc} {i : Input} (h : c.serve i = some c') :
    c'.lists = (c.inputOps i).foldl Lists.apply c.lists := by
  cases i with
  | quitDone nick =>
    obtain rfl := Option.some.inj h
    exact lists_delFromChanuserlistAll c nick
  | line now line =>
    obtain ⟨r, hr, rfl⟩ := serve_line h
    have hlists : (afterwards r).lists = r.irc.lists := by
      unfold afterwards
      split
      · rfl
      · exact lists_disconnect r.irc
    obtain ⟨hops, hsame⟩ := c.listOps_reported line
      (.srvincoming (c.convertLine line).1 (c.convertLine line).2.isLineConverted)
    rw [hlists]
    simp only [inputOps, message]
    simp only [processLine] at hr
    rcases hm : Message.ofLine (c.convertLine line).1 with _ | m
    · rw [hm] at hr
      obtain rfl := Except.ok.inj hr
      exact hsame
    · rw [hm] at hr
      dsimp only at hr ⊢
      rw [handle_lists hr, hops, hsame]

/-- Taking up a line changes the record of events and whether the line was converted. -/
lemma convertLine_sendEvent (c : Irc) (line : Bytes) (e : IrcEvent) :
    ∃ b, (c.convertLine line).2.sendEvent e =
      { c with isLineConverted := b, events := c.events ++ [e] } := by
  unfold convertLine
  split
  · exact ⟨_, rfl⟩
  · exact ⟨c.isLineConverted, rfl⟩

/-- **A message served** has been handled, from a state with one more event. -/
lemma serve_message {c c' : Irc} {i : Input} {m : Message} (h : c.serve i = some c')
    (hm : c.message i = some m) :
    ∃ now b events r, handle { c with isLineConverted := b, events } now m (.ofBytes m.cmd) = .ok r ∧
      c' = afterwards r := by
  cases i with
  | quitDone nick => cases hm
  | line now line =>
    obtain ⟨r, hr, rfl⟩ := serve_line h
    obtain ⟨b, hb⟩ := c.convertLine_sendEvent line
      (.srvincoming (c.convertLine line).1 (c.convertLine line).2.isLineConverted)
    have hm' : Message.ofLine (c.convertLine line).1 = some m := hm
    rw [hb, processLine, hm'] at hr
    exact ⟨now, b, _, r, hr, rfl⟩

/-- A connection starts without channels and users. -/
lemma Started.lists_eq {c : Irc} (h : Started c) : ∃ nick, c.lists = .init nick := by
  obtain ⟨c₀, now, hstatus, rfl⟩ := h
  refine ⟨c₀.nick, ?_⟩
  rw [connect, if_neg (fun h => h hstatus)]
  rfl

/-- The operations of a message that is a line. -/
lemma inputOps_of_message {c : Irc} {i : Input} {m : Message} (h : c.message i = some m) :
    c.inputOps i = c.listOps m (.ofBytes m.cmd) := by
  cases i with
  | line now line => simp only [inputOps, h]
  | quitDone nick => cases h

end Irc

/-! ## What holds of the operations of an input -/

/-- A parameter contains no NUL. -/
lemma Message.zero_notMem_arg {line : Bytes} {m : Message} (h : Message.ofLine line = some m)
    (i : Fin 32) : 0 ∉ m.arg i := by
  obtain ⟨l, hl, rfl⟩ := Option.map_eq_some_iff.mp h
  set m : Message := { ident := l.ident, cmd := l.cmd, given := l.params }
  rcases m.arg_mem i with hgiven | hpad
  · exact parseIrcLine_zero_notMem hl _ hgiven
  · rw [hpad]
    exact List.not_mem_nil

/-- A name of a NAMES reply is added with an identity exactly under NAMESX. -/
lemma nameOp_eq (namesxOn : Bool) (chan arg : Bytes) :
    ∃ nick ident, nameOp namesxOn chan arg = .addUser chan nick ident ∧
      (ident = [] ↔ namesxOn = false) := by
  cases namesxOn with
  | false => exact ⟨arg, [], rfl, by simp⟩
  | true => exact ⟨_, _, rfl, by simp [IrcIdent.ident_setIdent_ne_nil]⟩

namespace Irc

/-- The operations of a message are valid.

**Proof sketch.** By cases on the command. Only a MODE has something to show: its mode characters
are those of users (`mem_modeOps`). -/
lemma valid_listOps (c : Irc) {m : Message} (hm : 0 ∉ m.arg 0) (cmd : Command) :
    ∀ op ∈ c.listOps m cmd, c.lists.Valid op := by
  cases cmd
  case mode =>
    intro op hop
    simp only [listOps] at hop
    split at hop
    · exact absurd hop List.not_mem_nil
    · split at hop
      · exact absurd hop List.not_mem_nil
      · obtain ⟨nick, sign, newmode, rfl, hmode⟩ := mem_modeOps hop
        exact hmode
  case nick =>
    have hrename : ∀ op ∈ c.chans.map fun chan =>
        ListOp.renameUser chan m.origin.nick (m.arg 0) m.ident, c.lists.Valid op := by
      intro op hop
      obtain ⟨chan, hchan, rfl⟩ := List.mem_map.mp hop
      exact ⟨chan, hchan, (ircStrcasecmp_eq_zero _ _).mpr rfl⟩
    simp only [listOps]
    split_ifs
    · exact fun op hop => absurd hop List.not_mem_nil
    · rw [List.forall_mem_append]
      exact ⟨fun op hop => List.mem_singleton.mp hop ▸ trivial, hrename⟩
    · exact hrename
  case namesReply =>
    have hnames : ∀ args : List Bytes,
        ∀ op ∈ args.map (nameOp c.srvinfo.namesxOn (m.arg 2)), c.lists.Valid op := by
      intro args op hop
      obtain ⟨arg, -, rfl⟩ := List.mem_map.mp hop
      obtain ⟨nick, ident, hop, -⟩ := nameOp_eq c.srvinfo.namesxOn (m.arg 2) arg
      rw [hop]
      trivial
    simp only [listOps]
    split_ifs
    · exact fun op hop => absurd hop List.not_mem_nil
    · exact fun op hop => absurd hop List.not_mem_nil
    · exact hnames _
    · rw [List.forall_mem_append]
      exact ⟨fun op hop => List.mem_singleton.mp hop ▸ trivial, hnames _⟩
    · exact hnames _
    · exact fun op hop => absurd hop List.not_mem_nil
  all_goals
    simp only [listOps]
    try split_ifs
    all_goals simp [Lists.Valid, hm]

/-- The operations of an input are valid. -/
lemma valid_inputOps (c : Irc) (i : Input) : ∀ op ∈ c.inputOps i, c.lists.Valid op := by
  cases i with
  | quitDone nick =>
    intro op hop
    obtain ⟨chan, -, rfl⟩ := List.mem_map.mp hop
    trivial
  | line now line =>
    simp only [inputOps]
    rcases hm : c.message (.line now line) with _ | m
    · exact fun op hop => absurd hop List.not_mem_nil
    · exact c.valid_listOps (Message.zero_notMem_arg hm 0) _

/-- **The operations of an input** are of one kind, except that the bot may take its new nick and
the users of a channel may be forgotten before others are added; and a rename is performed once
for each channel.

**Proof sketch.** By cases on the command. Most of them have one operation at most. The operations
of a QUIT and of a NICK are one for each channel, with channels that are not equal, and those of a
list of names are additions behind a clearing. -/
lemma inputOps_together {c : Irc} (hc : (c.chans.map ircStrlower).Nodup) (i : Input) :
    (c.inputOps i).Pairwise Together := by
  have hrename : ∀ nick newnick ident,
      (c.chans.map fun chan => ListOp.renameUser chan nick newnick ident).Pairwise Together := by
    intro nick newnick ident
    rw [List.Nodup, List.pairwise_map] at hc
    rw [List.pairwise_map]
    exact hc.imp fun h => .renameUser h nick newnick ident
  cases i with
  | quitDone nick =>
    rw [inputOps, List.pairwise_map]
    exact List.pairwise_of_forall fun _ _ => .delUser _ _ _ _
  | line now line =>
    rw [inputOps]
    rcases c.message (.line now line) with _ | m
    · exact List.Pairwise.nil
    dsimp only
    cases Command.ofBytes m.cmd
    case mode =>
      simp only [listOps]
      split
      · exact List.Pairwise.nil
      · split
        · exact List.Pairwise.nil
        · refine List.pairwise_of_forall_mem_list fun a ha b hb => ?_
          obtain ⟨nick, sign, newmode, rfl, -⟩ := mem_modeOps ha
          obtain ⟨nick', sign', newmode', rfl, -⟩ := mem_modeOps hb
          exact .setMode _ _ _ _ _ _ _ _
    case nick =>
      simp only [listOps]
      split_ifs
      · exact List.Pairwise.nil
      · rw [List.pairwise_append]
        refine ⟨List.pairwise_singleton _ _, hrename _ _ _, fun a ha b hb => ?_⟩
        obtain rfl := List.mem_singleton.mp ha
        obtain ⟨chan, -, rfl⟩ := List.mem_map.mp hb
        exact .setNick _ _ _ _ _
      · exact hrename _ _ _
    case whoReply =>
      simp only [listOps]
      split_ifs
      · exact List.Pairwise.nil
      · exact List.Pairwise.nil
      · exact List.pairwise_singleton _ _
      · refine List.pairwise_pair.mpr (.clearUsers _ _ _ ?_)
        simp [bytes]
      · exact List.Pairwise.nil
    case namesReply =>
      have hnames : ∀ args : List Bytes,
          (args.map (nameOp c.srvinfo.namesxOn (m.arg 2))).Pairwise Together := by
        intro args
        rw [List.pairwise_map]
        refine List.pairwise_of_forall fun a b => ?_
        obtain ⟨nick, ident, ha, hident⟩ := nameOp_eq c.srvinfo.namesxOn (m.arg 2) a
        obtain ⟨nick', ident', hb, hident'⟩ := nameOp_eq c.srvinfo.namesxOn (m.arg 2) b
        rw [ha, hb]
        exact .addUser _ _ _ _ (hident.trans hident'.symm)
      simp only [listOps]
      split_ifs with _ _ _ _ hnamesx
      · exact List.Pairwise.nil
      · exact List.Pairwise.nil
      · exact hnames _
      · rw [List.pairwise_append]
        refine ⟨List.pairwise_singleton _ _, hnames _, fun a ha b hb => ?_⟩
        obtain rfl := List.mem_singleton.mp ha
        obtain ⟨arg, -, rfl⟩ := List.mem_map.mp hb
        obtain ⟨nick, ident, hop, hident⟩ := nameOp_eq c.srvinfo.namesxOn (m.arg 2) arg
        rw [hop]
        refine .clearUsers _ _ _ fun h => ?_
        rw [hident.mp h] at hnamesx
        cases hnamesx
      · exact hnames _
      · exact List.Pairwise.nil
    all_goals
      simp only [listOps]
      try split_ifs
      all_goals first
        | exact List.Pairwise.nil
        | exact List.pairwise_singleton _ _

/-- **The invariant rule for inputs**: what each valid operation keeps that meets a condition, an
input keeps all of whose operations meet it before the first. -/
lemma serve_preserves {C : Lists → ListOp → Prop} {I : Lists → Prop}
    (hop : ∀ l op, I l → l.Valid op → C l op → I (l.apply op))
    (htogether : ∀ l a b, Together a b → C l a → C l b → C (l.apply a) b) {c c' : Irc}
    {i : Input} (hdistinct : (c.chans.map ircStrlower).Nodup) (h : c.serve i = some c')
    (hops : ∀ op ∈ c.inputOps i, C c.lists op) (hc : I c.lists) : I c'.lists := by
  rw [serve_lists h]
  have halong : Lists.Along (fun l op => l.Valid op ∧ C l op) c.lists (c.inputOps i) :=
    Lists.along_of_together (fun l a b hab ha hb => ⟨hb.1.together hab, htogether l a b hab ha.2 hb.2⟩)
      (inputOps_together hdistinct i) fun op h => ⟨c.valid_inputOps i op h, hops op h⟩
  exact halong.preserves (fun l op hl hC => hop l op hl hC.1 hC.2) hc

end Irc

end Meowbot
