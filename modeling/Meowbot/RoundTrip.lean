import Meowbot.MainLoop

set_option relaxedAutoImplicit false
set_option autoImplicit false

/-!
# A message sent is the message received

What `privmsg` of one connection puts on the wire, sent on by a server with the prefix of its
sender, gives a message event with the same kind, channel and text when the main loop of another
connection reads it. Formatting, truncation, tokenising and the recognition of CTCP messages have
to agree for this.

## Main definitions

* `Meowbot.wrapText` — the trailing parameter for a text of each kind.
* `Meowbot.Sendable` — the texts whose kind can be recognised again.

## Main results

* `Meowbot.IrcPrivmsg.init_wrapText` — kind and text are recovered from the trailing parameter.
* `Meowbot.Irc.privmsg_roundTrip` — the round trip.
-/

namespace Meowbot

/-- The command under which messages of a kind are sent. -/
def sentCommand : IrcMsgtype → Bytes
  | .notice | .ctcpreply => bytes "NOTICE"
  | _ => bytes "PRIVMSG"

/-- The kind of message that the handler of that command starts from. -/
def receivedType : IrcMsgtype → IrcMsgtype
  | .notice | .ctcpreply => .notice
  | _ => .normal

/-- The trailing parameter for a text of each kind. -/
def wrapText (msgtype : IrcMsgtype) (msg : Bytes) : Bytes :=
  match msgtype with
  | .action => 1 :: (bytes "ACTION " ++ (msg ++ [1]))
  | .ctcp | .ctcpreply => 1 :: (msg ++ [1])
  | _ => msg

/-- A text has the form of a CTCP message. -/
def IsCtcpForm (msg : Bytes) : Prop := ∃ body, msg = 1 :: (body ++ [1])

/-- The texts that do not look like a message of another kind: a plain message or notice is not
of the form `\1…\1`, and a CTCP message is not an action. -/
def Sendable (msgtype : IrcMsgtype) (msg : Bytes) : Prop :=
  match msgtype with
  | .normal | .notice => ¬ IsCtcpForm msg
  | .ctcp => ¬ bytes "ACTION " <+: msg
  | .action | .ctcpreply => True
  | .none => False

/-- The text of a message consists of command, channel and trailing parameter. -/
lemma messageText_eq {msgtype : IrcMsgtype} (h : msgtype ≠ .none) (chan msg : Bytes) :
    Irc.messageText msgtype chan msg =
      some (sentCommand msgtype ++ (' ' : Byte) ::
        (chan ++ (' ' : Byte) :: (':' : Byte) :: wrapText msgtype msg)) := by
  cases msgtype <;>
    simp [Irc.messageText, sentCommand, wrapText, bytes] at h ⊢

/-- The CTCP form is what the expression for CTCP messages looks for. -/
lemma isCtcpForm_iff (msg : Bytes) :
    IsCtcpForm msg ↔ msg.head? = some 1 ∧ msg.tail.getLast? = some 1 := by
  constructor
  · rintro ⟨body, rfl⟩
    simp
  · rintro ⟨h1, h2⟩
    rcases msg with _ | ⟨x, t⟩
    · cases h1
    · obtain ⟨body, rfl⟩ := List.getLast?_eq_some_iff.mp h2
      obtain rfl := Option.some.inj h1
      exact ⟨body, rfl⟩

/-- The text in CTCP quotes is recovered. -/
lemma reCtcpMessage_quoted {msg : Bytes} (h : LF ∉ msg) :
    reCtcpMessage.exec (1 :: (msg ++ [1])) = some [msg] := by
  rw [reCtcpMessage_exec (by simp [h, LF])]
  simp

/-- The text of an action is recovered. -/
lemma reActionMessage_quoted {msg : Bytes} (h : LF ∉ msg) :
    reActionMessage.exec (1 :: (bytes "ACTION " ++ (msg ++ [1]))) = some [msg] := by
  have hpre : 1 :: bytes "ACTION " <+: 1 :: (bytes "ACTION " ++ (msg ++ [1])) :=
    ⟨msg ++ [1], rfl⟩
  have hdrop : (1 :: (bytes "ACTION " ++ (msg ++ [1]))).drop 8 = msg ++ [1] := rfl
  rw [reActionMessage_exec (by simp [h, LF, bytes]), hdrop, if_pos ⟨hpre, by simp⟩]
  simp

/-- A text in CTCP quotes that is no action is not taken for one: the closing quote is no part of
the word `ACTION`. -/
lemma reActionMessage_ctcp {msg : Bytes} (h : LF ∉ msg) (hact : ¬ bytes "ACTION " <+: msg) :
    reActionMessage.exec (1 :: (msg ++ [1])) = none := by
  rw [reActionMessage_exec (by simp [h, LF]), if_neg]
  rintro ⟨hpre, -⟩
  rw [List.prefix_cons_inj, List.prefix_concat_iff] at hpre
  rcases hpre with heq | hpre
  · have := congrArg List.getLast? heq
    simp [bytes] at this
  · exact hact hpre

/-- **Kind and text are recovered** from the trailing parameter.

**Proof sketch.** By cases on the kind. A plain text has neither of the two CTCP forms, so no
pattern matches; a CTCP message or an action is matched by its own pattern, whose capture is the
text. -/
lemma IrcPrivmsg.init_wrapText {msgtype : IrcMsgtype} {msg : Bytes} (hmsg : LF ∉ msg)
    (hsend : Sendable msgtype msg) (origin : IrcIdent) (chan : Bytes) (converted : Bool) :
    let m := IrcPrivmsg.init origin (.init chan (receivedType msgtype) .chan converted)
      (wrapText msgtype msg)
    m.msginfo.msgtype = msgtype ∧ m.msg = msg := by
  have hplain : ¬ IsCtcpForm msg →
      reCtcpMessage.exec msg = none ∧ reActionMessage.exec msg = none := by
    intro hform
    constructor
    · rw [reCtcpMessage_exec hmsg, if_neg ((isCtcpForm_iff msg).not.mp hform)]
    · rw [reActionMessage_exec hmsg, if_neg]
      rintro ⟨⟨t, rfl⟩, hlast⟩
      obtain ⟨body, hbody⟩ := List.getLast?_eq_some_iff.mp hlast
      have hdrop : (1 :: bytes "ACTION " ++ t).drop 8 = t := rfl
      rw [hdrop] at hbody
      exact hform ⟨bytes "ACTION " ++ body, by simp [hbody]⟩
  cases msgtype with
  | normal =>
    obtain ⟨h1, h2⟩ := hplain hsend
    simp [IrcPrivmsg.init, IrcMsginfo.init, receivedType, wrapText, h1, h2]
  | notice =>
    obtain ⟨h1, h2⟩ := hplain hsend
    simp [IrcPrivmsg.init, IrcMsginfo.init, receivedType, wrapText, h1]
  | action =>
    simp [IrcPrivmsg.init, IrcMsginfo.init, receivedType, wrapText, reActionMessage_quoted hmsg]
  | ctcp =>
    simp [IrcPrivmsg.init, IrcMsginfo.init, receivedType, wrapText, reCtcpMessage_quoted hmsg,
      reActionMessage_ctcp hmsg hsend]
  | ctcpreply =>
    simp [IrcPrivmsg.init, IrcMsginfo.init, receivedType, wrapText, reCtcpMessage_quoted hmsg]
  | none => exact absurd hsend id

/-- A message to a channel stays with the channel. -/
lemma IrcPrivmsg.init_place {chan : Bytes} (hchan : isChanName chan = true) (origin : IrcIdent)
    (msgtype : IrcMsgtype) (converted : Bool) (msg : Bytes) :
    let m := IrcPrivmsg.init origin (.init chan msgtype .chan converted) msg
    m.msginfo.chantype = .chan ∧ m.msginfo.chan = chan := by
  have hdcc : (IrcMsginfo.init chan msgtype .chan converted).chantype ≠ .dcc := by
    simp [IrcMsginfo.init]
  have hplace : (IrcMsginfo.init chan msgtype .chan converted).chan.head? = some ('#' : Byte) ∨
      (IrcMsginfo.init chan msgtype .chan converted).chan.head? = some ('&' : Byte) := by
    exact of_decide_eq_true hchan
  simp only [IrcPrivmsg.init]
  rw [if_pos hdcc, if_pos hplace]
  exact ⟨rfl, rfl⟩

namespace Irc

/-- A line that fits and has no terminators is put on the wire as it is. -/
lemma wireLine_eq {s : Bytes} (hlen : s.length ≤ ircMaxLineSize) (hLF : LF ∉ s) (hCR : CR ∉ s) :
    wireLine s = s ++ [CR, LF] := by
  have hall : ∀ c ∈ s, (decide (c ≠ LF ∧ c ≠ CR)) = true := by
    intro c hc
    simp only [decide_eq_true_eq]
    exact ⟨fun h => hLF (h ▸ hc), fun h => hCR (h ▸ hc)⟩
  rw [wireLine, List.filter_eq_self.mpr hall, List.take_of_length_le hlen]

/-- The handlers of `PRIVMSG` and `NOTICE` are reached, with the kind they start from. -/
lemma handle_sentCommand (c : Irc) (now : ℤ) (m : Message) (msgtype : IrcMsgtype) :
    handle c now m (.ofBytes (sentCommand msgtype)) =
      .ok (.goOn (onMessage c m (receivedType msgtype))) := by
  cases msgtype <;> rfl

/-- Upper-casing keeps the commands as they are. -/
lemma ircStrupper_sentCommand (msgtype : IrcMsgtype) :
    ircStrupper (sentCommand msgtype) = sentCommand msgtype := by
  cases msgtype <;> decide

/-- A line with a prefix, one of the two commands, a channel and a trailing parameter is received
as a message.

**Proof sketch.** The line is parsed into prefix, command, channel and text
(`parseIrcLine_message`); of the handlers that of messages is chosen, and as the target is a channel
it sends the event for it. -/
lemma processLine_message (c : Irc) (now : ℤ) {pfx chan trailing : Bytes}
    (msgtype : IrcMsgtype) (hpfx : pfx ≠ []) (hpfx' : (' ' : Byte) ∉ pfx)
    (hpfxLen : pfx.length < ircMaxLineSize) (hchan : isChanName chan = true)
    (hchan' : (' ' : Byte) ∉ chan) (hchanLen : chan.length < ircMaxLineSize)
    (hnul : 0 ∉ pfx ∧ 0 ∉ chan ∧ 0 ∉ trailing) :
    c.processLine now ((':' : Byte) :: (pfx ++ (' ' : Byte) :: (sentCommand msgtype ++
      (' ' : Byte) :: (chan ++ (' ' : Byte) :: (':' : Byte) :: trailing)))) =
      .ok (.goOn (c.sendEvent (.privmsg (.init (.setIdent pfx)
        (.init chan (receivedType msgtype) .chan c.isLineConverted) trailing)))) := by
  have hchan0 : chan ≠ [] := by
    rintro rfl
    simp [isChanName] at hchan
  have hcolon : chan.head? ≠ some (':' : Byte) := by
    intro h
    simp only [isChanName, h] at hchan
    revert hchan
    decide
  have hcmd : sentCommand msgtype ≠ [] ∧ (' ' : Byte) ∉ sentCommand msgtype ∧
      (sentCommand msgtype).length < ircMaxLineSize ∧ 0 ∉ sentCommand msgtype := by
    cases msgtype <;> decide
  have hparse := parseIrcLine_message hpfx hpfx' hpfxLen hcmd.1 hcmd.2.1 hcmd.2.2.1 hchan0 hchan'
    hchanLen hcolon ⟨hnul.1, hcmd.2.2.2, hnul.2.1, hnul.2.2⟩
  rw [processLine, Message.ofLine, hparse, ircStrupper_sentCommand]
  simp only [Option.map_some]
  rw [handle_sentCommand, onMessage, if_neg (by simp [Message.nparam]), if_neg hpfx]
  rfl

/-- **The round trip.** A message of any kind, to a channel, with a text that does not look like a
message of another kind, is put on the wire as one line, and that line, sent on with any prefix
that fits the buffer of the parser, is received as one message event with the same kind, channel
and text.

**Proof sketch.** The line is the formatted text (`privmsg_snd`, `wireLine_eq`), the parser takes
it apart into prefix, command, channel and trailing parameter (`parseIrcLine_message`), and the
expressions recover kind and text from the trailing parameter (`IrcPrivmsg.init_wrapText`). -/
theorem privmsg_roundTrip (sender receiver : Irc) (now : ℤ) (dest : IrcMsginfo) (msg : Bytes)
    (hstatus : sender.status = .connected) (hconv : sender.convM2s = none)
    (hdcc : dest.chantype ≠ .dcc) (hchan : isChanName dest.chan = true)
    (hchan' : (' ' : Byte) ∉ dest.chan ∧ 0 ∉ dest.chan ∧ CR ∉ dest.chan ∧ LF ∉ dest.chan)
    (hmsg : msg ≠ []) (hmsg' : 0 ∉ msg ∧ CR ∉ msg ∧ LF ∉ msg) (hsend : Sendable dest.msgtype msg)
    (hfit : ∀ text, messageText dest.msgtype dest.chan msg = some text → text.length ≤ 510) :
    ∃ line, (sender.privmsg dest msg).2 =
        { sender with outgoing := sender.outgoing ++ [(line ++ [CR, LF], dest.priority)] } ∧
      ∀ pfx : Bytes, pfx ≠ [] → (' ' : Byte) ∉ pfx → 0 ∉ pfx → pfx.length < 510 →
        ∃ m, receiver.processLine now ((':' : Byte) :: (pfx ++ (' ' : Byte) :: line)) =
            .ok (.goOn (receiver.sendEvent (.privmsg m))) ∧
          m.origin = .setIdent pfx ∧ m.msginfo.msgtype = dest.msgtype ∧
          m.msginfo.chantype = .chan ∧ m.msginfo.chan = dest.chan ∧ m.msg = msg := by
  obtain ⟨hsp, hnul, hCR, hLF⟩ := hchan'
  obtain ⟨hnul', hCR', hLF'⟩ := hmsg'
  have htype : dest.msgtype ≠ .none := by
    intro h
    simp [h, Sendable] at hsend
  have htext := messageText_eq htype dest.chan msg
  set line := sentCommand dest.msgtype ++ (' ' : Byte) ::
    (dest.chan ++ (' ' : Byte) :: (':' : Byte) :: wrapText dest.msgtype msg) with hline
  have hwrap : ∀ x : Byte, x ∉ msg → x ≠ 1 → x ∉ bytes "ACTION " →
      x ∉ wrapText dest.msgtype msg := by
    intro x hx h1 hact
    cases dest.msgtype <;> simp [wrapText, hx, h1, hact]
  have hlen : line.length ≤ ircMaxLineSize := hfit _ htext
  have hcmd : CR ∉ sentCommand dest.msgtype ∧ LF ∉ sentCommand dest.msgtype ∧
      0 ∉ sentCommand dest.msgtype := by
    cases dest.msgtype <;> decide
  have hlineCR : CR ∉ line := by
    simp [hline, hcmd.1, hCR, hwrap CR hCR' (by decide) (by decide)]
    decide
  have hlineLF : LF ∉ line := by
    simp [hline, hcmd.2.1, hLF, hwrap LF hLF' (by decide) (by decide)]
    decide
  have hline0 : 0 ∉ line := by
    simp [hline, hcmd.2.2, hnul, hwrap 0 hnul' (by decide) (by decide)]
  refine ⟨line, ?_, fun pfx hpfx hpfx' hpfx0 hpfxLen => ?_⟩
  · have hshort : line.length < vsprintfBufSize := Nat.lt_of_le_of_lt hlen (by decide)
    rw [privmsg_snd hstatus, cstr_eq_self hnul, cstr_eq_self hnul', htext]
    dsimp only
    rw [if_pos ⟨hmsg, hdcc⟩, printed_of_lt hshort, quote_snd (by simp [hstatus]), quoteSource, hconv]
    dsimp only
    rw [cstr_eq_self hline0, wireLine_eq hlen hlineLF hlineCR]
  · have hchanLen : dest.chan.length < ircMaxLineSize := by
      simp only [hline, List.length_append, List.length_cons] at hlen
      omega
    refine ⟨_, processLine_message receiver now dest.msgtype hpfx hpfx' hpfxLen hchan hsp hchanLen
      ⟨hpfx0, hnul, hwrap 0 hnul' (by decide) (by decide)⟩, ?_⟩
    obtain ⟨h1, h2⟩ := IrcPrivmsg.init_wrapText hLF' hsend (.setIdent pfx) dest.chan
      receiver.isLineConverted
    obtain ⟨h3, h4⟩ := IrcPrivmsg.init_place hchan (.setIdent pfx) (receivedType dest.msgtype)
      receiver.isLineConverted (wrapText dest.msgtype msg)
    exact ⟨rfl, h1, h3, h4, h2⟩

/-- The round trip of a CTCP text with colons, blanks and quotes. -/
theorem privmsg_roundTrip_ctcp :
    ∃ line, ((fresh (bytes "a")).privmsg (.init (bytes "#c") .ctcp .chan false)
        (bytes ":ACTION \x01 : b")).2 =
        { fresh (bytes "a") with outgoing := [(line ++ [CR, LF], ircPriorityBnormal)] } ∧
      ∃ m, (fresh (bytes "b")).processLine 0 ((':' : Byte) :: (bytes "n!u@h" ++ (' ' : Byte) :: line)) =
          .ok (.goOn ((fresh (bytes "b")).sendEvent (.privmsg m))) ∧
        m.msginfo.msgtype = .ctcp ∧ m.msg = bytes ":ACTION \x01 : b" := by
  obtain ⟨line, h, hread⟩ := privmsg_roundTrip (fresh (bytes "a")) (fresh (bytes "b")) 0
    (.init (bytes "#c") .ctcp .chan false) (bytes ":ACTION \x01 : b") rfl rfl (by decide)
    (by decide) (by decide) (by decide) (by decide) (by simp [Sendable, IrcMsginfo.init, bytes])
    (fun text ht => by obtain rfl := Option.some.inj ht; decide)
  obtain ⟨m, hm, -, h1, -, -, h2⟩ := hread (bytes "n!u@h") (by decide) (by decide) (by decide)
    (by decide)
  exact ⟨line, h, m, hm, h1, h2⟩

end Irc

end Meowbot
