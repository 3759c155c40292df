import Meowbot.Conversation
import Meowbot.ModeSplit
import Meowbot.PingTimeout
import Meowbot.RenderLine
import Meowbot.Utf8

set_option relaxedAutoImplicit false
set_option autoImplicit false

/-!
# Modes for everyone (`modules/lua/automode.lua`)

Three commands give a mode to all users of a channel who do not have it. The script writes MODE
lines with at most six users each; the server carries them out and passes them on, also to the bot,
whose handler then changes the lists. In the table that the script reads, the users stand under
their nicks as the lists spell them, in an order that nothing says.

## Main definitions

* `Meowbot.giveMode` — `give_mode`, the lines for some nicks.
* `Meowbot.AllMode` — what a command gives, and to whom; `AllMode.cmd` — the command.
* `Meowbot.cmdAllop`, `Meowbot.cmdAllvoice`, `Meowbot.cmdAllhop` — the source.

## Main results

* `Meowbot.exists_groups` — every nick is in one line, with a letter of its own.
* `Meowbot.AllMode.cmd_gives` — after the lines have come back, everyone has the mode.
-/

namespace Meowbot

/-! ## The source -/

/-- A line of `give_mode`. Nicks and channels contain no NUL, so `%s` prints all of them. -/
def modeLine (chan : Bytes) (modechar : Byte) (n : ℕ) (buf : Bytes) : Bytes :=
  bytes "MODE " ++ chan ++ bytes " +" ++ List.replicate n modechar ++ bytes " " ++ buf

/-- The loop of `give_mode`, from some place on. -/
def giveModeLoop (chan : Bytes) (modechar : Byte) : Bytes → ℕ → List Bytes → List Bytes
  | buf, n, [] => if n - 1 ≠ 0 then [modeLine chan modechar (n - 1) buf] else []
  | buf, n, nick :: nicklist =>
    let buf := buf ++ nick ++ [(' ' : Byte)]
    if n = 6 then modeLine chan modechar n buf :: giveModeLoop chan modechar [] 1 nicklist
    else giveModeLoop chan modechar buf (n + 1) nicklist

/-- `give_mode` -/
def giveMode (chan : Bytes) (modechar : Byte) (nicklist : List Bytes) : List Bytes :=
  giveModeLoop chan modechar [] 1 nicklist

/-- `noautoop_list` -/
def noautoopList : List Bytes :=
  ["#meowbot", "#pjm0616", "#SIGSEGV", "#pmplab", "#\\", "#/", "#.", "#-", "#프겔"].map utf8Bytes

/-- What a command does: it says something, or it quotes lines. -/
inductive AllModeResult where
  | say (mdest : IrcMsginfo) (text : Bytes)
  | quote (lines : List Bytes)
  deriving DecidableEq

/-- What the three commands differ in: who may give the command and where, their texts, and the mode
that is given. That the letter gives the mode is part of the record, so no other pair can be stated.
-/
structure AllMode where
  /-- The characters of a pattern, one of which the bot and the user must have. -/
  priv : Bytes
  refused : List Bytes
  denied : String
  allHave : String
  modechar : Byte
  newmode : Byte
  /-- Users with the mode are left out. -/
  skips : Bool
  /-- The letter gives the mode. -/
  gives : modePrefix modechar = some newmode

/-- A pattern with a set of characters, found in the modes of a user: `is_user_have_op_priv`,
`is_user_have_hop_priv`. -/
def havePriv (priv mode : Bytes) : Bool := mode.any (· ∈ priv)

/-- `ulist[nick].chanusermode`. Without the user there is an error. -/
def chanusermode (ulist : List (Bytes × Bytes)) (nick : Bytes) : Option Bytes :=
  (ulist.find? fun e => e.1 = nick).map Prod.snd

/-- The users to whom a command gives the mode. -/
def AllMode.nicklist (a : AllMode) (ulist : List (Bytes × Bytes)) : List Bytes :=
  (ulist.filter fun e => ¬(a.skips ∧ a.newmode ∈ e.2)).map Prod.fst

/-- The three commands, with the user list of the channel. There is no result when the script
reads the modes of somebody who is not in the list. -/
def AllMode.cmd (a : AllMode) (myNick : Bytes) (ulist : List (Bytes × Bytes)) (who : IrcIdent)
    (msginfo mdest : IrcMsginfo) : Option AllModeResult :=
  if msginfo.chantype ≠ .chan then some (.say mdest (utf8Bytes "채널이 아닙니다"))
  else (chanusermode ulist myNick).bind fun mine =>
    if ¬havePriv a.priv mine then
      some (.say mdest (utf8Bytes "봇에게 옵이 없으면 사용할 수 없습니다."))
    else if a.refused.contains msginfo.chan then
      some (.say mdest (utf8Bytes "올옵이 금지된 채널입니다."))
    else (chanusermode ulist who.nick).bind fun his =>
      if ¬havePriv a.priv his then some (.say mdest (utf8Bytes a.denied))
      else if a.nicklist ulist = [] then some (.say mdest (utf8Bytes a.allHave))
      else some (.quote (giveMode msginfo.chan a.modechar (a.nicklist ulist)))

/-- What `cmd_allop` gives: the mode of an operator, to everybody who has not got it. The command is
refused in the channels of a list, and to who is no operator himself. -/
def allop : AllMode where
  priv := bytes "~@"
  refused := noautoopList
  denied := "권한이 없습니다. 옵 이상을 가진 사람만 올옵을 할 수 있습니다."
  allHave := "모두가 옵을 가지고 있습니다"
  modechar := 'o'
  newmode := '@'
  skips := true
  gives := rfl

/-- What `cmd_allvoice` gives: the mode of a voice, in every channel. Half operators may give the
command too. -/
def allvoice : AllMode where
  priv := bytes "~@%"
  refused := []
  denied := "권한이 없습니다. halfop 이상을 가진 사람만 올옵을 할 수 있습니다."
  allHave := "모두가 보이스를 가지고 있습니다"
  modechar := 'v'
  newmode := '+'
  skips := true
  gives := rfl

/-- What `cmd_allhop` gives: the mode of a half operator. The test for the mode is commented out in
the source, so those who have it are given it again, and the texts are those of `cmd_allop`. -/
def allhop : AllMode where
  priv := bytes "~@"
  refused := noautoopList
  denied := "권한이 없습니다. 옵 이상을 가진 사람만 올옵을 할 수 있습니다."
  allHave := "모두가 옵을 가지고 있습니다"
  modechar := 'h'
  newmode := '%'
  skips := false
  gives := rfl

/-- `cmd_allop` -/
def cmdAllop := allop.cmd

/-- `cmd_allvoice` -/
def cmdAllvoice := allvoice.cmd

/-- `cmd_allhop`, which looks at the name of the network first. -/
def cmdAllhop (netname myNick : Bytes) (ulist : List (Bytes × Bytes)) (who : IrcIdent)
    (msginfo mdest : IrcMsginfo) : Option AllModeResult :=
  if netname = bytes "HanIRC" then
    some (.say mdest (utf8Bytes "halfop을 지원하지 않는 HanIRC에선 사용할 수 없다에요"))
  else allhop.cmd myNick ulist who msginfo mdest

namespace Irc

/-- `get_chanuserlist` of the scripts: the nicks and the modes, as C strings. -/
def luaChanuserlist (c : Irc) (chan : Bytes) : List (Bytes × Bytes) :=
  (c.getChanuserlist chan).entries.map fun e => (cstr e.1, cstr e.2.chanmode)

/-- `quote` of the scripts, for some lines. -/
def quoteAll (c : Irc) (lines : List Bytes) : Irc :=
  lines.foldl (fun c line => (c.quote line ircPriorityNormal true).2) c

/-- Lines are processed, each at a time of its own. -/
def processAll (c : Irc) (lines : List (ℤ × Bytes)) : Except Fault Irc :=
  lines.foldlM (fun c l => (c.processLine l.1 l.2).map Handled.irc) c

end Irc

/-- `a` is a word in the middle of a line. -/
def IsMiddle (a : Bytes) : Prop :=
  a ≠ [] ∧ (' ' : Byte) ∉ a ∧ 0 ∉ a ∧ CR ∉ a ∧ LF ∉ a ∧ a.head? ≠ some (':' : Byte)

instance (a : Bytes) : Decidable (IsMiddle a) := inferInstanceAs (Decidable (_ ∧ _))

/-- The names in a channel are words, and six nicks fit in a line. -/
structure PlainNames (c : Irc) (chan : Bytes) (nicklen : ℕ) : Prop where
  isMiddle : IsMiddle chan
  nicks : ∀ e ∈ (c.getChanuserlist chan).entries,
    IsMiddle e.1 ∧ e.1.length ≤ nicklen ∧ 0 ∉ e.2.chanmode
  fits : chan.length + 6 * nicklen ≤ 490

/-! ## Lines of words -/

/-- A space in front of the end of a word does not matter for the word. -/
lemma Parser.commitBuffer_isspace {p : Parser} (hbuf : p.buf ≠ []) :
    ({ p with isspace := true } : Parser).commitBuffer =
      { p.commitBuffer with isspace := true } := by
  simp only [commitBuffer, if_neg hbuf]
  cases p.state <;> rfl

/-- After a command or a parameter there are parameters. -/
lemma Parser.state_commitBuffer {p : Parser} (hbuf : p.buf ≠ []) (hstate : p.state ≠ .pfx) :
    p.commitBuffer.state = .param := by
  rw [commitBuffer, if_neg hbuf]
  cases hs : p.state
  case pfx => exact absurd hs hstate
  all_goals rfl

/-- **The parameters of a line** with a space in front of each and one at the end.

**Proof sketch.** By induction on the parameters. A space commits the word in the buffer, which is a
parameter from the second one on, and the next word is collected byte by byte. -/
lemma parseLoop_words {p : Parser} (hbuf : p.buf ≠ []) (hstate : p.state ≠ .pfx)
    {params : List Bytes} (hparams : ∀ a ∈ params, IsMiddle a ∧ a.length < ircMaxLineSize) :
    parseLoop p (params.flatMap (fun a => (' ' : Byte) :: a) ++ [(' ' : Byte)]) =
      { p.commitBuffer with isspace := true, params := p.commitBuffer.params ++ params } := by
  induction params generalizing p with
  | nil =>
    rw [List.flatMap_nil, List.nil_append, parseLoop_space, Parser.commitBuffer_isspace hbuf,
      parseLoop, List.append_nil]
    exact Parser.commitBuffer_of_nil (Parser.buf_commitBuffer p)
  | cons a params ih =>
    obtain ⟨⟨hword, hlen⟩, hparams⟩ := List.forall_mem_cons.mp hparams
    obtain ⟨hne, hspace, -, -, -, hcolon⟩ := hword
    have hparam : p.commitBuffer.state = .param := Parser.state_commitBuffer hbuf hstate
    have hnext := Parser.commitBuffer_param
      (p := { p.commitBuffer with buf := a, isspace := false }) hne hparam
    rw [List.flatMap_cons, List.cons_append, List.cons_append, List.append_assoc, parseLoop_space,
      Parser.commitBuffer_isspace hbuf,
      parseLoop_token (p := { p.commitBuffer with isspace := true }) (Parser.buf_commitBuffer p) hne
        hspace hlen fun h => absurd h hcolon,
      ih (p := { p.commitBuffer with buf := a, isspace := false }) hne (by simp [hparam]) hparams,
      hnext]
    simp

/-- **A line of words** behind a prefix and a command is taken apart into these words.

**Proof sketch.** The line holds no NUL. The prefix is collected up to its space, then the command,
and `parseLoop_words` takes apart what follows; the space at the end commits the last word, so
nothing is left in the buffer. -/
lemma parseIrcLine_words {pfx cmd : Bytes} {params : List Bytes} (hpfx : ServerPrefix pfx)
    (hcmd : IsMiddle cmd ∧ cmd.length < ircMaxLineSize)
    (hparams : ∀ a ∈ params, IsMiddle a ∧ a.length < ircMaxLineSize) :
    parseIrcLine ((':' : Byte) :: (pfx ++ (' ' : Byte) :: (cmd ++
      (params.flatMap (fun a => (' ' : Byte) :: a) ++ [(' ' : Byte)])))) =
      some { ident := pfx, cmd := ircStrupper cmd, params } := by
  obtain ⟨⟨hne, hspace, hzero, -, -, hcolon⟩, hlen⟩ := hcmd
  have hwords : 0 ∉ params.flatMap fun a => (' ' : Byte) :: a := by
    rw [List.mem_flatMap]
    rintro ⟨a, ha, hmem⟩
    exact (hparams a ha).1.2.2.1 ((List.mem_cons.mp hmem).resolve_left (by decide))
  have hcstr : 0 ∉ (':' : Byte) :: (pfx ++ (' ' : Byte) :: (cmd ++
      (params.flatMap (fun a => (' ' : Byte) :: a) ++ [(' ' : Byte)]))) := by
    simp only [List.mem_cons, List.mem_append, not_or]
    exact ⟨by decide, hpfx.plain.2.1, by decide, hzero, hwords, by decide, List.not_mem_nil⟩
  have hrun : parseRun ((':' : Byte) :: (pfx ++ (' ' : Byte) :: (cmd ++
      (params.flatMap (fun a => (' ' : Byte) :: a) ++ [(' ' : Byte)])))) =
      { state := .param, buf := [], isspace := true, pfx, cmd := ircStrupper cmd, params } := by
    rw [parseRun, cstr_eq_self hcstr]
    simp only [if_true]
    rw [parseLoop_token rfl hpfx.ne_nil hpfx.plain.1 hpfx.fits (by simp [Parser.init]),
      parseLoop_space]
    simp only [Parser.init, Parser.commitBuffer, if_neg hpfx.ne_nil]
    rw [parseLoop_token rfl hne hspace hlen (by simp), parseLoop_words hne (by simp) hparams]
    simp [Parser.commitBuffer, hne]
  simp only [parseIrcLine, hrun, if_true]

/-! ## The lines of a command -/

/-- **The loop of `give_mode`**: the nicks, those that stand in the buffer and those to come, are in
groups of at most six, and there is a line for each group.

**Proof sketch.** By induction on the nicks to come. The counter is the number of nicks in the
buffer, and one; a sixth nick makes a line and a new group, and what is left in the end makes a last
one. -/
lemma exists_groups_loop (chan : Bytes) (modechar : Byte) (taken : List Bytes)
    (h : taken.length < 6) (nicklist : List Bytes) :
    ∃ groups : List (List Bytes), groups.flatten = taken ++ nicklist ∧
      (∀ g ∈ groups, g ≠ [] ∧ g.length ≤ 6) ∧
      giveModeLoop chan modechar (taken.flatMap (· ++ [(' ' : Byte)])) (taken.length + 1) nicklist =
        groups.map fun g => modeLine chan modechar g.length (g.flatMap (· ++ [(' ' : Byte)])) := by
  induction nicklist generalizing taken with
  | nil =>
    rw [giveModeLoop, Nat.add_sub_cancel, List.append_nil]
    by_cases htaken : taken = []
    · refine ⟨[], by rw [htaken]; rfl, fun g hg => absurd hg List.not_mem_nil, ?_⟩
      rw [htaken]
      rfl
    · have hlen : taken.length ≠ 0 := fun hlen => htaken (List.length_eq_zero_iff.mp hlen)
      refine ⟨[taken], List.flatten_singleton, fun g hg => ?_, if_pos hlen⟩
      obtain rfl := List.mem_singleton.mp hg
      exact ⟨htaken, h.le⟩
  | cons nick nicklist ih =>
    have hbuf : taken.flatMap (· ++ [(' ' : Byte)]) ++ nick ++ [(' ' : Byte)] =
        (taken ++ [nick]).flatMap (· ++ [(' ' : Byte)]) := by
      simp
    have hlen : (taken ++ [nick]).length = taken.length + 1 := List.length_append
    simp only [giveModeLoop, hbuf]
    by_cases hsix : taken.length + 1 = 6
    · obtain ⟨groups, hflat, hgroups, heq⟩ := ih [] (by decide)
      refine ⟨(taken ++ [nick]) :: groups, ?_, ?_, ?_⟩
      · rw [List.flatten_cons, hflat, List.nil_append, List.append_assoc, List.singleton_append]
      · refine List.forall_mem_cons.mpr ⟨⟨by simp, by omega⟩, hgroups⟩
      · rw [if_pos hsix, List.map_cons, hlen, ← heq]
        rfl
    · obtain ⟨groups, hflat, hgroups, heq⟩ := ih (taken ++ [nick]) (by omega)
      refine ⟨groups, by rw [hflat, List.append_assoc, List.singleton_append], hgroups, ?_⟩
      rw [if_neg hsix, ← heq, hlen]

/-- **The lines of `give_mode`**: every nick is in one line, with at most five others and a letter
for each. -/
lemma exists_groups (chan : Bytes) (modechar : Byte) (nicklist : List Bytes) :
    ∃ groups : List (List Bytes), groups.flatten = nicklist ∧
      (∀ g ∈ groups, g ≠ [] ∧ g.length ≤ 6) ∧
      giveMode chan modechar nicklist =
        groups.map fun g => modeLine chan modechar g.length (g.flatMap (· ++ [(' ' : Byte)])) :=
  exists_groups_loop chan modechar [] (by decide) nicklist

/-- Spaces behind words are spaces in front of words. -/
lemma flatMap_space (words : List Bytes) :
    (' ' : Byte) :: words.flatMap (· ++ [(' ' : Byte)]) =
      words.flatMap (fun a => (' ' : Byte) :: a) ++ [(' ' : Byte)] := by
  induction words with
  | nil => rfl
  | cons a words ih =>
    rw [List.flatMap_cons, List.flatMap_cons, List.append_assoc, List.append_assoc, ← ih]
    rfl

/-- A letter that gives a mode to a user can stand in a word. -/
lemma notMem_of_modePrefix {modechar newmode : Byte} (h : modePrefix modechar = some newmode) :
    modechar ∉ [(' ' : Byte), 0, CR, LF] ∧ isSign modechar = false := by
  rw [modePrefix] at h
  split_ifs at h with h1 h2 h3 h4 h5
  all_goals
    subst modechar
    decide

/-- The character of a mode is not NUL. -/
lemma modePrefix_ne_zero {modechar : Byte} : modePrefix modechar ≠ some 0 := by
  rw [modePrefix]
  split_ifs
  all_goals decide

/-- The letters of a line are a word. -/
lemma isMiddle_letters {modechar newmode : Byte} (h : modePrefix modechar = some newmode) (n : ℕ) :
    IsMiddle (('+' : Byte) :: List.replicate n modechar) := by
  obtain ⟨hmem, -⟩ := notMem_of_modePrefix h
  have hnot : ∀ c ∈ [(' ' : Byte), 0, CR, LF], c ∉ ('+' : Byte) :: List.replicate n modechar := by
    intro c hc hmem'
    rcases List.mem_cons.mp hmem' with rfl | hmem'
    · revert hc
      decide
    · obtain rfl := (List.mem_replicate.mp hmem').2
      exact hmem hc
  exact ⟨List.cons_ne_nil _ _, hnot _ (by decide), hnot _ (by decide), hnot _ (by decide),
    hnot _ (by decide), fun h => by cases h⟩

/-- The changes of a line. -/
lemma modeChanges_replicate {modechar : Byte} (h : isSign modechar = false) (g : List Bytes) :
    modeChanges '+' (List.replicate g.length modechar) g =
      g.map fun nick => ⟨'+', modechar, nick⟩ := by
  induction g with
  | nil => rfl
  | cons nick g ih =>
    rw [List.length_cons, List.replicate_succ, modeChanges, if_neg (by rw [h]; decide), List.tail_cons,
      ih]
    rfl

/-- **A line that comes back** is a MODE message.

**Proof sketch.** The line is one of words (`parseIrcLine_words`): the channel, the sign with its
letters, and the nicks. There are as many letters as nicks, each one of them that takes a parameter.
-/
lemma exists_modeMessage {pfx chan : Bytes} {modechar newmode : Byte} (hpfx : ServerPrefix pfx)
    (hgives : modePrefix modechar = some newmode) (hchan : IsMiddle chan ∧ chan.length < ircMaxLineSize)
    {g : List Bytes} (hg : ∀ a ∈ g, IsMiddle a ∧ a.length < ircMaxLineSize) (hlen : g.length ≤ 6) :
    ∃ m, Message.ofLine ((':' : Byte) :: (pfx ++ (' ' : Byte) ::
        modeLine chan modechar g.length (g.flatMap (· ++ [(' ' : Byte)])))) = some m ∧
      ModeMessage m chan '+' (List.replicate g.length modechar) g := by
  have hline : modeLine chan modechar g.length (g.flatMap (· ++ [(' ' : Byte)])) = bytes "MODE" ++
      ((chan :: (('+' : Byte) :: List.replicate g.length modechar) :: g).flatMap
        (fun a => (' ' : Byte) :: a) ++ [(' ' : Byte)]) := by
    rw [List.flatMap_cons, List.flatMap_cons, List.append_assoc, List.append_assoc, ← flatMap_space]
    simp [modeLine, bytes]
  have hwords : ∀ a ∈ chan :: (('+' : Byte) :: List.replicate g.length modechar) :: g,
      IsMiddle a ∧ a.length < ircMaxLineSize := by
    refine List.forall_mem_cons.mpr ⟨hchan, List.forall_mem_cons.mpr ⟨⟨?_, ?_⟩, hg⟩⟩
    · exact isMiddle_letters hgives _
    · rw [List.length_cons, List.length_replicate, ircMaxLineSize]
      omega
  have hmode : IsMiddle (bytes "MODE") ∧ (bytes "MODE").length < ircMaxLineSize := by decide
  have hparse := parseIrcLine_words hpfx hmode hwords
  refine ⟨_, by rw [Message.ofLine, hline, hparse]; rfl, rfl, rfl, rfl, fun l hl => .inr ?_,
    fun k hk => ?_⟩
  · rw [(List.mem_replicate.mp hl).2, hgives]
    rfl
  · have hk' : k < g.length :=
      hk.trans_le (List.countP_le_length.trans (List.length_replicate.le))
    exact ⟨g[k], List.getElem?_eq_getElem hk', (hg _ (List.getElem_mem hk')).1.1⟩

/-- The changes that give some users a mode. -/
def giveChanges (modechar : Byte) (nicklist : List Bytes) : List ModeChange :=
  nicklist.map fun nick => ⟨'+', modechar, nick⟩

/-- **The lines come back** and give every nick the mode.

**Proof sketch.** By induction on the groups. The line of a group is parsed with a server prefix,
its command is MODE, and its parameters are the letters and the nicks, one for each letter; so the
handler gives every nick of the group the mode, and goes on with the next line. -/
lemma Irc.exists_processAll {pfx chan : Bytes} {modechar newmode : Byte} (hpfx : ServerPrefix pfx)
    (hgives : modePrefix modechar = some newmode) (hchan : IsMiddle chan ∧ chan.length < ircMaxLineSize)
    {groups : List (List Bytes)}
    (hgroups : ∀ g ∈ groups, g.length ≤ 6 ∧ ∀ a ∈ g, IsMiddle a ∧ a.length < ircMaxLineSize)
    {times : List ℤ} (htimes : times.length = groups.length) (c : Irc) :
    ∃ c', c.processAll (times.zip (forwarded pfx (groups.map fun g =>
        modeLine chan modechar g.length (g.flatMap (· ++ [(' ' : Byte)]))))) = .ok c' ∧
      c'.lists = ((giveChanges modechar groups.flatten).map (ModeChange.op chan)).foldl Lists.apply
        c.lists := by
  induction groups generalizing c times with
  | nil =>
    obtain rfl := List.length_eq_zero_iff.mp htimes
    exact ⟨c, rfl, rfl⟩
  | cons g groups ih =>
    obtain ⟨⟨hlen, hg⟩, hgroups⟩ := List.forall_mem_cons.mp hgroups
    rcases times with _ | ⟨now, times⟩
    · cases htimes
    obtain ⟨m, hline, hm⟩ := exists_modeMessage hpfx hgives hchan hg hlen
    obtain ⟨h, hhandle, hlists⟩ := hm.lists_handle c now
    obtain ⟨c', hrest, hlists'⟩ := ih hgroups (Nat.succ.inj htimes) h.irc
    refine ⟨c', ?_, ?_⟩
    · rw [List.map_cons, forwarded, List.map_cons, List.zip_cons_cons, processAll, List.foldlM_cons,
        processLine, hline]
      dsimp only
      rw [hhandle]
      exact hrest
    · rw [hlists', hlists, modeChanges_replicate (notMem_of_modePrefix hgives).2, List.flatten_cons,
        giveChanges, giveChanges, List.map_append, List.map_append, List.foldl_append]

namespace Lists

variable {l : Lists}

/-- **Who has a mode** after it is given to some users.

**Proof sketch.** By induction on the users, with `hasMode_op` for one change: the user of the
channel gets the mode, and nobody else does; a mode that is given twice is there once. -/
lemma hasMode_give (hnodup : l.NodupModes) (chan : Bytes) {modechar newmode : Byte}
    (hgives : modePrefix modechar = some newmode) (nicklist : List Bytes) (x y : Bytes) (mode : Byte) :
    (((giveChanges modechar nicklist).map (ModeChange.op chan)).foldl apply l).HasMode x y mode ↔
      l.HasMode x y mode ∨ (ircStrlower x = ircStrlower chan ∧ mode = newmode ∧
        ∃ nick ∈ nicklist, ircStrlower y = ircStrlower nick) := by
  induction nicklist generalizing l with
  | nil => simp [giveChanges]
  | cons nick nicklist ih =>
    have hnew : ModeChange.newmode ⟨'+', modechar, nick⟩ = newmode := by
      rw [ModeChange.newmode, hgives]
      rfl
    have hstep := hasMode_op hnodup chan ⟨'+', modechar, nick⟩ x y mode
    rw [hnew] at hstep
    have hrest := ih (hnodup.op chan ⟨'+', modechar, nick⟩)
    rw [giveChanges, List.map_cons, List.map_cons, List.foldl_cons]
    rw [giveChanges] at hrest
    rw [hrest, hstep]
    split_ifs with h
    · simp only [true_or, true_iff]
      exact .inr ⟨h.1.1, h.2.symm, nick, List.mem_cons_self, h.1.2⟩
    · simp only [List.mem_cons, exists_eq_or_imp]
      tauto

/-- **Who is in a channel** after a mode is given to users who are there.

**Proof sketch.** By induction on the nicks. Giving a mode updates the record of a nick that is in
the table, which keeps the keys, and the later nicks are still there. -/
lemma keys_give (chan : Bytes) (modechar : Byte) {nicklist : List Bytes}
    (hnicks : ∀ nick ∈ nicklist, (l.usersOf chan).contains nick) (x : Bytes) :
    ((((giveChanges modechar nicklist).map (ModeChange.op chan)).foldl apply l).usersOf
      x).entries.map Prod.fst = (l.usersOf x).entries.map Prod.fst := by
  induction nicklist generalizing l with
  | nil => rfl
  | cons nick nicklist ih =>
    obtain ⟨hnick, hnicks⟩ := List.forall_mem_cons.mp hnicks
    rw [giveChanges, List.map_cons, List.map_cons, List.foldl_cons]
    refine (ih (l := l.apply (ModeChange.op chan ⟨'+', modechar, nick⟩)) ?_).trans ?_
    · intro nick' hmem
      change ((l.setMode chan nick _ _).usersOf chan).contains nick'
      rw [setMode, usersOf_mapUsers, if_pos rfl, FoldMap.contains_update]
      exact .inr (hnicks nick' hmem)
    · change ((l.setMode chan nick _ _).usersOf x).entries.map Prod.fst = _
      rw [setMode, usersOf_mapUsers]
      by_cases hx : ircStrlower x = ircStrlower chan
      · rw [if_pos hx, FoldMap.keys_update_of_contains hnick, l.usersOf_congr hx]
      · rw [if_neg hx]

/-- The modes of a user do not depend on the spelling of the names. -/
lemma hasMode_congr (l : Lists) {chan x nick y : Bytes} (hx : ircStrlower x = ircStrlower chan)
    (hy : ircStrlower y = ircStrlower nick) (mode : Byte) :
    l.HasMode x y mode ↔ l.HasMode chan nick mode := by
  rw [HasMode, HasMode, user?, user?, l.usersOf_congr hx, FoldMap.find?_congr _ hy]

end Lists

/-! ## The table of a script -/

section

variable {c : Irc} {chan : Bytes} {nicklen : ℕ} {ulist : List (Bytes × Bytes)}

/-- The users in the table are the users of the channel. -/
lemma PlainNames.mem_ulist (hnames : PlainNames c chan nicklen)
    (hlist : ulist.Perm (c.luaChanuserlist chan)) {nick mode : Bytes} :
    (nick, mode) ∈ ulist ↔ ∃ u, (nick, u) ∈ (c.getChanuserlist chan).entries ∧ u.chanmode = mode := by
  rw [hlist.mem_iff, Irc.luaChanuserlist, List.mem_map]
  constructor
  · rintro ⟨⟨nick', u⟩, hmem, heq⟩
    obtain ⟨hword, -, hmode⟩ := hnames.nicks _ hmem
    obtain ⟨rfl, rfl⟩ := Prod.mk.inj heq
    refine ⟨u, ?_, (cstr_eq_self hmode).symm⟩
    rwa [cstr_eq_self hword.2.2.1]
  · rintro ⟨u, hmem, rfl⟩
    obtain ⟨hword, -, hmode⟩ := hnames.nicks _ hmem
    exact ⟨_, hmem, by rw [cstr_eq_self hword.2.2.1, cstr_eq_self hmode]⟩

/-- What the table says of a mode. -/
lemma mem_chanmode_iff {nick : Bytes} {u : IrcUser}
    (hmem : (nick, u) ∈ (c.getChanuserlist chan).entries) (mode : Byte) :
    mode ∈ u.chanmode ↔ c.lists.HasMode chan nick mode := by
  have huser : c.lists.user? chan nick = some u := FoldMap.find?_of_mem hmem
  rw [Lists.HasMode, huser]
  simp

/-- **A user with a right**: the table has the user, with one of the modes.

**Proof sketch.** The table has one entry for each user of the list, as the names are different, and
its text is the modes of the user. So the entry that is found for a nick is the one of this user. -/
lemma PlainNames.havePriv_iff (hnames : PlainNames c chan nicklen)
    (hlist : ulist.Perm (c.luaChanuserlist chan)) (priv nick : Bytes) :
    (∃ mode, chanusermode ulist nick = some mode ∧ havePriv priv mode) ↔
      nick ∈ (c.getChanuserlist chan).entries.map Prod.fst ∧
        ∃ p ∈ priv, c.lists.HasMode chan nick p := by
  have hpriv : ∀ mode : Bytes, havePriv priv mode ↔ ∃ p ∈ priv, p ∈ mode := by
    intro mode
    rw [havePriv, List.any_eq_true]
    exact ⟨fun ⟨p, hp, h⟩ => ⟨p, of_decide_eq_true h, hp⟩, fun ⟨p, hp, h⟩ => ⟨p, h, decide_eq_true hp⟩⟩
  constructor
  · rintro ⟨mode, hfind, hhave⟩
    obtain ⟨⟨nick', mode'⟩, hentry, rfl⟩ := Option.map_eq_some_iff.mp hfind
    obtain rfl : nick' = nick := by simpa using List.find?_some hentry
    obtain ⟨u, hmem, rfl⟩ := (hnames.mem_ulist hlist).mp (List.mem_of_find?_eq_some hentry)
    obtain ⟨p, hp, hmode⟩ := (hpriv _).mp hhave
    exact ⟨List.mem_map.mpr ⟨_, hmem, rfl⟩, p, hp, (mem_chanmode_iff hmem p).mp hmode⟩
  · rintro ⟨hkey, p, hp, hmode⟩
    obtain ⟨⟨nick', u⟩, hmem, rfl⟩ := List.mem_map.mp hkey
    have hin : (nick', u.chanmode) ∈ ulist := (hnames.mem_ulist hlist).mpr ⟨u, hmem, rfl⟩
    obtain ⟨⟨nick'', mode⟩, hfind⟩ := Option.isSome_iff_exists.mp <|
      (List.find?_isSome (p := fun e : Bytes × Bytes => e.1 = nick')).mpr ⟨_, hin, by simp⟩
    obtain rfl : nick'' = nick' := by simpa using List.find?_some hfind
    refine ⟨mode, by rw [chanusermode, hfind]; rfl, (hpriv _).mpr ⟨p, hp, ?_⟩⟩
    obtain ⟨u', hmem', rfl⟩ := (hnames.mem_ulist hlist).mp (List.mem_of_find?_eq_some hfind)
    exact (mem_chanmode_iff hmem' p).mpr hmode

/-- **Who gets the mode**: the users of the channel, but perhaps those who have it. -/
lemma PlainNames.mem_nicklist (hnames : PlainNames c chan nicklen)
    (hlist : ulist.Perm (c.luaChanuserlist chan)) (a : AllMode) {nick : Bytes} :
    nick ∈ a.nicklist ulist ↔ nick ∈ (c.getChanuserlist chan).entries.map Prod.fst ∧
      ¬(a.skips ∧ c.lists.HasMode chan nick a.newmode) := by
  rw [AllMode.nicklist, List.mem_map]
  constructor
  · rintro ⟨⟨nick', mode⟩, hmem, rfl⟩
    obtain ⟨hmem, hskip⟩ := List.mem_filter.mp hmem
    obtain ⟨u, hentry, rfl⟩ := (hnames.mem_ulist hlist).mp hmem
    refine ⟨List.mem_map.mpr ⟨(nick', u), hentry, rfl⟩, ?_⟩
    rw [← mem_chanmode_iff hentry]
    exact of_decide_eq_true hskip
  · rintro ⟨hkey, hskip⟩
    obtain ⟨⟨nick', u⟩, hmem, rfl⟩ := List.mem_map.mp hkey
    rw [← mem_chanmode_iff hmem] at hskip
    refine ⟨(nick', u.chanmode), List.mem_filter.mpr ⟨?_, decide_eq_true hskip⟩, rfl⟩
    exact (hnames.mem_ulist hlist).mpr ⟨u, hmem, rfl⟩

end

/-! ## A command -/

/-- **A command that gives modes**: the bot and the user have the right, and the lines are for the
users without the mode.

**Proof sketch.** By cases along the tests of the command, from the first to the last: each test
that fails ends it with another result, and behind the last one the lines are those of `give_mode`.
-/
lemma AllMode.cmd_eq_quote_iff (a : AllMode) (myNick : Bytes) (ulist : List (Bytes × Bytes))
    (who : IrcIdent) (msginfo mdest : IrcMsginfo) (lines : List Bytes) :
    a.cmd myNick ulist who msginfo mdest = some (.quote lines) ↔
      msginfo.chantype = .chan ∧
      (∃ mode, chanusermode ulist myNick = some mode ∧ havePriv a.priv mode) ∧
      msginfo.chan ∉ a.refused ∧
      (∃ mode, chanusermode ulist who.nick = some mode ∧ havePriv a.priv mode) ∧
      a.nicklist ulist ≠ [] ∧ lines = giveMode msginfo.chan a.modechar (a.nicklist ulist) := by
  rw [cmd]
  by_cases htype : msginfo.chantype = .chan
  swap
  · simp [htype]
  rw [if_neg (not_not_intro htype)]
  cases chanusermode ulist myNick with
  | none => simp
  | some mine =>
    rw [Option.bind_some]
    by_cases hmine : havePriv a.priv mine
    swap
    · simp [hmine]
    by_cases hrefused : msginfo.chan ∈ a.refused
    · simp [hmine, hrefused]
    cases chanusermode ulist who.nick with
    | none => simp [hmine, hrefused]
    | some his =>
      rw [Option.bind_some]
      by_cases hhis : havePriv a.priv his
      swap
      · simp [hmine, hrefused, hhis]
      by_cases hnone : a.nicklist ulist = []
      · simp [hmine, hrefused, hhis, hnone]
      · rw [if_neg (not_not_intro hmine),
          if_neg (mt List.contains_iff_mem.mp hrefused), if_neg (not_not_intro hhis),
          if_neg hnone, Option.some.injEq, AllModeResult.quote.injEq]
        constructor
        · rintro rfl
          exact ⟨htype, ⟨mine, rfl, hmine⟩, hrefused, ⟨his, rfl, hhis⟩, hnone, rfl⟩
        · exact fun h => h.2.2.2.2.2.symm

/-- The length of the nicks of a line. -/
lemma length_flatMap_space_le {nicklen : ℕ} {g : List Bytes} (hg : ∀ a ∈ g, a.length ≤ nicklen) :
    (g.flatMap (· ++ [(' ' : Byte)])).length ≤ g.length * (nicklen + 1) := by
  induction g with
  | nil => exact Nat.zero_le _
  | cons a g ih =>
    obtain ⟨ha, hg⟩ := List.forall_mem_cons.mp hg
    have hrest := ih hg
    rw [List.flatMap_cons, List.length_append, List.length_append, List.length_singleton,
      List.length_cons, Nat.add_mul]
    omega

/-- **A line of a command** fits, and there is nothing in it that would be lost.

**Proof sketch.** The length is a sum: six nicks with a space each are within six times the limit
and one. A NUL or the end of a line is in none of the words and in none of the texts between them.
-/
lemma modeLine_plain {chan : Bytes} {modechar newmode : Byte} {nicklen : ℕ} (hchan : IsMiddle chan)
    (hgives : modePrefix modechar = some newmode) (hfits : chan.length + 6 * nicklen ≤ 490)
    {g : List Bytes} (hg : ∀ a ∈ g, IsMiddle a ∧ a.length ≤ nicklen) (hlen : g.length ≤ 6) :
    (modeLine chan modechar g.length (g.flatMap (· ++ [(' ' : Byte)]))).length ≤ ircMaxLineSize ∧
      ∀ b ∈ [(0 : Byte), LF, CR],
        b ∉ modeLine chan modechar g.length (g.flatMap (· ++ [(' ' : Byte)])) := by
  constructor
  · have hbuf := length_flatMap_space_le fun a ha => (hg a ha).2
    have hsix : g.length * (nicklen + 1) ≤ 6 * (nicklen + 1) := Nat.mul_le_mul_right _ hlen
    generalize g.flatMap (· ++ [(' ' : Byte)]) = buf at hbuf ⊢
    simp only [modeLine, List.length_append, List.length_replicate, ircMaxLineSize]
    have hlens : (bytes "MODE ").length = 5 ∧ (bytes " +").length = 2 ∧ (bytes " ").length = 1 := by
      decide
    omega
  · have hplain : ∀ b ∈ [(0 : Byte), LF, CR],
        b ∉ bytes "MODE " ∧ b ∉ bytes " +" ∧ b ∉ bytes " " ∧ b ≠ (' ' : Byte) := by
      intro b hb
      simp only [List.mem_cons, List.not_mem_nil, or_false] at hb
      rcases hb with rfl | rfl | rfl <;> decide
    have hword : ∀ a, IsMiddle a → ∀ b ∈ [(0 : Byte), LF, CR], b ∉ a := by
      rintro a ⟨-, -, hzero, hCR, hLF, -⟩ b hb
      simp only [List.mem_cons, List.not_mem_nil, or_false] at hb
      rcases hb with rfl | rfl | rfl <;> assumption
    intro b hb hmem
    obtain ⟨h1, h2, h3, h4⟩ := hplain b hb
    simp only [modeLine, List.mem_append, List.mem_flatMap, List.mem_singleton] at hmem
    rcases hmem with ((((h | h) | h) | h) | h) | ⟨a, ha, h | h⟩
    · exact h1 h
    · exact hword chan hchan b hb h
    · exact h2 h
    · exact hword _ (isMiddle_letters hgives g.length) b hb (List.mem_cons_of_mem _ h)
    · exact h3 h
    · exact hword a (hg a ha).1 b hb h
    · exact h4 h

/-- **Lines that fit** are queued as they are.

**Proof sketch.** By induction on the lines. A line that fits and has none of the three bytes is
neither cut nor filtered, and without a converter it is handed on as it is. -/
lemma Irc.quoteAll_eq {c : Irc} (hc : c.status = .connected) (hconv : c.convM2s = none)
    (lines : List Bytes)
    (hlines : ∀ l ∈ lines, l.length ≤ ircMaxLineSize ∧ ∀ b ∈ [(0 : Byte), LF, CR], b ∉ l) :
    c.quoteAll lines = { c with
      outgoing := c.outgoing ++ lines.map fun l => (l ++ [CR, LF], ircPriorityNormal) } := by
  induction lines generalizing c with
  | nil => simp [quoteAll]
  | cons line lines ih =>
    obtain ⟨⟨hlen, hplain⟩, hlines⟩ := List.forall_mem_cons.mp hlines
    have hquote : (c.quote line ircPriorityNormal true).2 =
        { c with outgoing := c.outgoing ++ [(line ++ [CR, LF], ircPriorityNormal)] } := by
      rw [quote_snd (by rw [hc]; decide), quoteSource, hconv]
      dsimp only
      rw [cstr_eq_self (hplain 0 (by decide)), wireLine_eq hlen (hplain LF (by decide))
        (hplain CR (by decide))]
    rw [quoteAll, List.foldl_cons, hquote]
    refine (ih (c := { c with outgoing := c.outgoing ++ [(line ++ [CR, LF], ircPriorityNormal)] })
      hc hconv hlines).trans ?_
    rw [List.map_cons, List.append_assoc, List.singleton_append]

/-- The users who get the mode, and those who have it already, are the users of the channel.

**Proof sketch.** A nick in the list is one of the user list of the channel, and names are compared
without regard to case there. A user of the channel who is skipped has the mode already. -/
lemma PlainNames.hasMode_or_iff {c : Irc} {chan : Bytes} {nicklen : ℕ}
    (hnames : PlainNames c chan nicklen) {ulist : List (Bytes × Bytes)}
    (hlist : ulist.Perm (c.luaChanuserlist chan)) (a : AllMode) (x y : Bytes) (mode : Byte) :
    (c.lists.HasMode x y mode ∨ (ircStrlower x = ircStrlower chan ∧ mode = a.newmode ∧
        ∃ nick ∈ a.nicklist ulist, ircStrlower y = ircStrlower nick)) ↔
      c.lists.HasMode x y mode ∨
        (ircStrlower x = ircStrlower chan ∧ (c.lists.user? x y).isSome ∧ mode = a.newmode) := by
  constructor
  · rintro (h | ⟨hx, rfl, nick, hnick, hy⟩)
    · exact .inl h
    · obtain ⟨⟨nick', u⟩, hmem, rfl⟩ := List.mem_map.mp ((hnames.mem_nicklist hlist a).mp hnick).1
      have huser : c.lists.user? x y = some u := by
        rw [Lists.user?, c.lists.usersOf_congr hx, FoldMap.find?_congr _ hy]
        exact FoldMap.find?_of_mem hmem
      exact .inr ⟨hx, by rw [huser]; rfl, rfl⟩
  · rintro (h | ⟨hx, huser, rfl⟩)
    · exact .inl h
    · obtain ⟨u, hu⟩ := Option.isSome_iff_exists.mp huser
      rw [Lists.user?, c.lists.usersOf_congr hx] at hu
      obtain ⟨nick, hnick, hmem⟩ := FoldMap.exists_of_find? hu
      by_cases hskip : a.skips ∧ c.lists.HasMode chan nick a.newmode
      · exact .inl ((c.lists.hasMode_congr hx hnick.symm _).mpr hskip.2)
      · refine .inr ⟨hx, rfl, nick, (hnames.mem_nicklist hlist a).mpr ⟨?_, hskip⟩, hnick.symm⟩
        exact List.mem_map.mpr ⟨_, hmem, rfl⟩

/-- Plain names stay plain. -/
lemma PlainNames.of_keys_eq {c c' : Irc} {chan : Bytes} {nicklen : ℕ}
    (hnames : PlainNames c chan nicklen)
    (hkept : (c'.getChanuserlist chan).entries.map Prod.fst =
      (c.getChanuserlist chan).entries.map Prod.fst)
    (hzero : ∀ nick, c'.lists.HasMode chan nick 0 → c.lists.HasMode chan nick 0) :
    PlainNames c' chan nicklen := by
  refine ⟨hnames.isMiddle, ?_, hnames.fits⟩
  rintro ⟨nick, u⟩ hmem
  have hkey : nick ∈ (c.getChanuserlist chan).entries.map Prod.fst :=
    hkept ▸ List.mem_map.mpr ⟨_, hmem, rfl⟩
  obtain ⟨⟨nick', u'⟩, hmem', rfl⟩ := List.mem_map.mp hkey
  obtain ⟨hword, hlen, hmode⟩ := hnames.nicks _ hmem'
  refine ⟨hword, hlen, fun h => hmode ?_⟩
  exact (mem_chanmode_iff hmem' 0).mpr (hzero nick' ((mem_chanmode_iff hmem 0).mp h))

/-- **Nobody is left** to give the mode to. -/
lemma AllMode.cmd_eq_say (a : AllMode) {myNick : Bytes} {ulist : List (Bytes × Bytes)}
    {who : IrcIdent} {msginfo : IrcMsginfo} (mdest : IrcMsginfo) (htype : msginfo.chantype = .chan)
    (hmine : ∃ mode, chanusermode ulist myNick = some mode ∧ havePriv a.priv mode)
    (hrefused : msginfo.chan ∉ a.refused)
    (hhis : ∃ mode, chanusermode ulist who.nick = some mode ∧ havePriv a.priv mode)
    (hnone : a.nicklist ulist = []) :
    a.cmd myNick ulist who msginfo mdest = some (.say mdest (utf8Bytes a.allHave)) := by
  obtain ⟨mine, hmine, hpriv⟩ := hmine
  obtain ⟨his, hhis, hpriv'⟩ := hhis
  rw [cmd, if_neg (not_not_intro htype), hmine, Option.bind_some, if_neg (not_not_intro hpriv),
    if_neg (mt List.contains_iff_mem.mp hrefused), hhis, Option.bind_some,
    if_neg (not_not_intro hpriv'), if_pos hnone]

/-- **Modes for everyone.** Let a user ask for one of the commands in a channel, and let the bot
write lines. The lines are sent as they are, and whenever they come back, after each other, with the
prefix that the server gives the bot, then no line is a fault; everyone who was in the channel has
the mode; nobody has got or lost another mode, in this channel or another; the channels, the nick of
the bot and the users of each channel are the same; and when the command leaves out those who have
the mode, it does not give it again.

**Proof sketch.** The loop makes groups of six (`exists_groups`), each line is read as a MODE
message (`exists_modeMessage`), and the handler performs one operation for each nick. What these do
to the modes and to the keys is an induction over the nicks. -/
theorem AllMode.cmd_gives (a : AllMode) {c : Irc} (hc : c.status = .connected)
    (hconv : c.convM2s = none) (hnodup : c.lists.NodupModes) {who : IrcIdent}
    {msginfo mdest : IrcMsginfo} {nicklen : ℕ} (hnames : PlainNames c msginfo.chan nicklen)
    {ulist : List (Bytes × Bytes)} (hlist : ulist.Perm (c.luaChanuserlist msginfo.chan))
    {lines : List Bytes} (hcmd : a.cmd c.nick ulist who msginfo mdest = some (.quote lines))
    {pfx : Bytes} (hpfx : ServerPrefix pfx) {times : List ℤ} (htimes : times.length = lines.length) :
    (c.quoteAll lines).outgoing =
        c.outgoing ++ lines.map (fun l => (l ++ [CR, LF], ircPriorityNormal)) ∧
      ∃ c', (c.quoteAll lines).processAll (times.zip (forwarded pfx lines)) = .ok c' ∧
        (∀ x y mode, c'.lists.HasMode x y mode ↔ c.lists.HasMode x y mode ∨
          (ircStrcasecmp x msginfo.chan = 0 ∧ (c.lists.user? x y).isSome ∧ mode = a.newmode)) ∧
        (∀ x, (c'.getChanuserlist x).entries.map Prod.fst =
          (c.getChanuserlist x).entries.map Prod.fst) ∧
        c'.nick = c.nick ∧ c'.chans = c.chans ∧
        (a.skips → ∀ ulist' : List (Bytes × Bytes),
          ulist'.Perm (c'.luaChanuserlist msginfo.chan) →
            a.cmd c'.nick ulist' who msginfo mdest = some (.say mdest (utf8Bytes a.allHave))) := by
  obtain ⟨htype, hmine, hrefused, hhis, hne, rfl⟩ := (a.cmd_eq_quote_iff ..).mp hcmd
  set chan := msginfo.chan with hchan
  obtain ⟨groups, hflat, hgroups, hlines⟩ := exists_groups chan a.modechar (a.nicklist ulist)
  -- the nicks of the lines are keys of the list
  have hkeys : ∀ nick ∈ a.nicklist ulist, ∃ u, (nick, u) ∈ (c.getChanuserlist chan).entries := by
    intro nick hnick
    obtain ⟨e, he, rfl⟩ := List.mem_map.mp ((hnames.mem_nicklist hlist a).mp hnick).1
    exact ⟨e.2, he⟩
  have hwords : ∀ g ∈ groups, ∀ nick ∈ g, IsMiddle nick ∧ nick.length ≤ nicklen := by
    intro g hg nick hnick
    have hmem : nick ∈ a.nicklist ulist := hflat ▸ List.mem_flatten.mpr ⟨g, hg, hnick⟩
    obtain ⟨u, hu⟩ := hkeys nick hmem
    exact ⟨(hnames.nicks _ hu).1, (hnames.nicks _ hu).2.1⟩
  have hfits := hnames.fits
  rw [hlines] at htimes ⊢
  have hsent := Irc.quoteAll_eq hc hconv (groups.map fun g =>
      modeLine chan a.modechar g.length (g.flatMap (· ++ [(' ' : Byte)]))) <| by
    intro l hl
    obtain ⟨g, hg, rfl⟩ := List.mem_map.mp hl
    exact modeLine_plain hnames.isMiddle a.gives hfits (hwords g hg) (hgroups g hg).2
  refine ⟨by rw [hsent], ?_⟩
  obtain ⟨c', hprocess, hlists⟩ := Irc.exists_processAll hpfx a.gives
    ⟨hnames.isMiddle, show chan.length < 510 by omega⟩
    (fun g hg => ⟨(hgroups g hg).2, fun nick hnick => ⟨(hwords g hg nick hnick).1, by
      have := (hwords g hg nick hnick).2
      rw [ircMaxLineSize]
      omega⟩⟩) (htimes.trans (List.length_map _)) (c.quoteAll _)
  refine ⟨c', hprocess, ?_⟩
  have hbefore : (c.quoteAll (groups.map fun g =>
      modeLine chan a.modechar g.length (g.flatMap (· ++ [(' ' : Byte)])))).lists = c.lists := by
    rw [hsent]
    rfl
  rw [hbefore, hflat] at hlists
  have hkept : ∀ x, (c'.getChanuserlist x).entries.map Prod.fst =
      (c.getChanuserlist x).entries.map Prod.fst := by
    intro x
    change (c'.lists.usersOf x).entries.map Prod.fst = _
    rw [hlists]
    refine Lists.keys_give chan a.modechar (fun nick hnick => ?_) x
    obtain ⟨u, hu⟩ := hkeys nick hnick
    change ((c.getChanuserlist chan).find? nick).isSome
    rw [FoldMap.find?_of_mem hu]
    rfl
  have hmodes : ∀ x y mode, c'.lists.HasMode x y mode ↔ c.lists.HasMode x y mode ∨
      (ircStrcasecmp x chan = 0 ∧ (c.lists.user? x y).isSome ∧ mode = a.newmode) := by
    intro x y mode
    rw [hlists, Lists.hasMode_give hnodup chan a.gives, ircStrcasecmp_eq_zero]
    exact hnames.hasMode_or_iff hlist a x y mode
  have hnick := (c.lists.chans_changes chan (giveChanges a.modechar (a.nicklist ulist)))
  rw [← hlists] at hnick
  refine ⟨hmodes, hkept, hnick.1, hnick.2, fun hskips ulist' hlist' => ?_⟩
  have hnames' : PlainNames c' chan nicklen := by
    refine hnames.of_keys_eq (hkept chan) fun nick h => ((hmodes chan nick 0).mp h).resolve_right ?_
    rintro ⟨-, -, hzero⟩
    have hgives := a.gives
    rw [← hzero] at hgives
    exact modePrefix_ne_zero hgives
  have hright : ∀ nick, (∃ mode, chanusermode ulist nick = some mode ∧ havePriv a.priv mode) →
      ∃ mode, chanusermode ulist' nick = some mode ∧ havePriv a.priv mode := by
    intro nick h
    obtain ⟨hkey, p, hp, hmode⟩ := (hnames.havePriv_iff hlist a.priv nick).mp h
    exact (hnames'.havePriv_iff hlist' a.priv nick).mpr
      ⟨by rwa [hkept chan], p, hp, (hmodes _ _ _).mpr (.inl hmode)⟩
  refine a.cmd_eq_say mdest htype (by rw [show c'.nick = c.nick from hnick.1]; exact hright _ hmine)
    hrefused (hright _ hhis) (List.eq_nil_iff_forall_not_mem.mpr fun nick hmem => ?_)
  obtain ⟨hkey, hskip⟩ := (hnames'.mem_nicklist hlist' a).mp hmem
  rw [hkept chan] at hkey
  obtain ⟨⟨nick', u⟩, hmem', rfl⟩ := List.mem_map.mp hkey
  have huser : c.lists.user? chan nick' = some u := FoldMap.find?_of_mem hmem'
  refine hskip ⟨hskips, (hmodes _ _ _).mpr (.inr ⟨(ircStrcasecmp_eq_zero _ _).mpr rfl, ?_, rfl⟩)⟩
  rw [huser]
  rfl

/-- A bot in `#c` with `@` and seven others, one of whom has `@`, and one `+`. -/
def opChannel : Irc :=
  { Irc.fresh (bytes "bot") with
    chanUsers := ((([⟨'+', 'o', bytes "bot"⟩, ⟨'+', 'o', bytes "Kim"⟩, ⟨'+', 'v', bytes "lee"⟩] ++
      ["a", "b", "c", "d", "e", "f"].map fun nick => ⟨'-', 'o', bytes nick⟩ : List ModeChange).map
        (ModeChange.op (bytes "#c"))).foldl Lists.apply (.init (bytes "bot"))).users }

/-- Modes for the users of this channel.

**Proof sketch.** The lines are evaluated, the conditions on the names and on the room are decided,
and the rest is the general theorem. -/
theorem AllMode.cmd_gives_channel : ∃ lines, ∃ c' : Irc,
    cmdAllop (bytes "bot") (opChannel.luaChanuserlist (bytes "#c")).reverse
      (.setIdent (bytes "Kim!u@h")) (.init (bytes "#c") .normal .chan false)
      (.init (bytes "#c") .normal .chan false) = some (.quote lines) ∧
    lines = [bytes "MODE #c +oooooo f e d c b a ", bytes "MODE #c +o lee "] ∧
    (opChannel.quoteAll lines).processAll
      ([0, 0].zip (forwarded (bytes "bot!u@h") lines)) = .ok c' ∧
    c'.lists.HasMode (bytes "#C") (bytes "LEE") '@' ∧
    c'.lists.HasMode (bytes "#c") (bytes "lee") '+' ∧
    ¬c'.lists.HasMode (bytes "#c") (bytes "a") '+' := by
  have hnodup : opChannel.lists.NodupModes :=
    Lists.NodupModes.changes (fun _ _ u hu => by cases hu) (bytes "#c") _
  have hnames : PlainNames opChannel (bytes "#c") 31 := ⟨by decide, by decide, by decide⟩
  have hcmd : allop.cmd opChannel.nick (opChannel.luaChanuserlist (bytes "#c")).reverse
      (.setIdent (bytes "Kim!u@h")) (.init (bytes "#c") .normal .chan false)
      (.init (bytes "#c") .normal .chan false) =
        some (.quote [bytes "MODE #c +oooooo f e d c b a ", bytes "MODE #c +o lee "]) := by
    decide
  have hpfx : ServerPrefix (bytes "bot!u@h") := ⟨by decide, by decide, by decide⟩
  have htimes : ([0, 0] : List ℤ).length = 2 := rfl
  obtain ⟨-, c', hprocess, hmodes, -⟩ := allop.cmd_gives rfl rfl hnodup hnames
    (List.reverse_perm _) hcmd hpfx htimes
  refine ⟨_, c', hcmd, rfl, hprocess, (hmodes _ _ _).mpr (.inr ⟨by decide, by decide, rfl⟩),
    (hmodes _ _ _).mpr (.inl ⟨_, rfl, by decide⟩), fun h => ?_⟩
  rcases (hmodes _ _ _).mp h with ⟨u, hu, hmode⟩ | ⟨-, -, h⟩
  · obtain rfl := Option.some.inj hu
    revert hmode
    decide
  · cases h

end Meowbot
