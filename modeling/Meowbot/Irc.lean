import Meowbot.IrcUtils
import Meowbot.ParseLine

set_option relaxedAutoImplicit false
set_option autoImplicit false

/-!
# The connection (`irc.h`, `irc.cpp`): state, sending, lists

The state of an `irc` object as far as the handling of messages uses it, and its methods other
than the main loop. Two logs stand for what leaves the object: `outgoing` holds the arguments of
the calls of `add_to_send_queue`, `events` those of `send_event`. Results that no caller looks at
are left out, and so are the locks: each function here is what one thread does alone.

`s_vsprintf` formats a text of 1024 bytes or more twice, the second time from the `va_list` that
the first pass has used up. What comes out of that pass is a parameter of the object, about which
nothing is assumed.

`chan_users[chan]` creates an empty list as a side effect of every access. An absent list and an
empty one cannot be told apart by any access, so reading does not create here.

## Main definitions

* `Meowbot.Irc` — the object; `Irc.quote`, `Irc.privmsg` — sending.
* `Irc.addToChanlist`, `Irc.delFromChanlist`, `Irc.isJoined` — the channels of the bot.
* `Irc.addToChanuserlist`, `Irc.delFromChanuserlist`, `Irc.delFromChanuserlistAll`,
  `Irc.isUserJoined`, `Irc.getUserData`, `Irc.clearChanuserlist` — their users.

## Main results

* `Meowbot.Irc.quote_snd` — what `quote` hands to the send path.
* `Meowbot.Irc.privmsg_snd` — what `privmsg` hands to `quote`.
-/

namespace Meowbot

/-- `IRCSTATUS_*`. -/
inductive IrcStatus where
  | disconnected | connecting | connected
  deriving DecidableEq

/-- The events sent to the event callback, with what the handlers read of them. They are queued, and
handled by other threads some time later. -/
inductive IrcEvent where
  | idle
  | connected
  | loggedin
  | disconnected
  | srvincoming (line : Bytes) (converted : Bool)
  | privmsg (m : IrcPrivmsg)
  | mode (who : IrcIdent) (chan mode param : Bytes)
  | join (who : IrcIdent) (chan : Bytes)
  | part (who : IrcIdent) (chan msg : Bytes)
  | kick (who : IrcIdent) (chan : Bytes) (kicked : IrcUser) (msg : Bytes)
  | nick (who : IrcIdent) (newnick : Bytes)
  | quit (who : IrcIdent) (msg : Bytes)
  | invite (who : IrcIdent) (chan : Bytes)
  deriving DecidableEq

/-- `srvinfo`, what the server has announced in its 005 lines, or the values of the constructor. -/
structure SrvInfo where
  uhnamesOn : Bool
  namesxOn : Bool
  netname : Bytes
  chantypes : Bytes
  chanmodes : Bytes
  chanusermodePrefixes : Bytes
  chanusermodes : Bytes
  maxChannels : ℕ
  nicklen : ℕ
  casemapping : Bytes
  charset : Bytes
  deriving DecidableEq

/-- `srvinfo` after `connect`. -/
def SrvInfo.init : SrvInfo :=
  { uhnamesOn := false, namesxOn := false, netname := [], chantypes := [], chanmodes := [],
    chanusermodePrefixes := [], chanusermodes := [], maxChannels := 20, nicklen := 31,
    casemapping := [], charset := [] }

/-- `irc`, together with the variables of `main_loop` that survive an iteration. The converters are
functions, as `iconv` is not part of the source. The lines and the events that it hands on are kept
in the order in which it does so. -/
structure Irc where
  status : IrcStatus
  nick : Bytes
  srvinfo : SrvInfo
  /-- `conv_m2s`, which may fail on a line. -/
  convM2s : Option (Bytes → Option Bytes)
  /-- `conv_s2m`, which reports whether the line was valid. -/
  convS2m : Option (Bytes → Bytes × Bool)
  chans : List Bytes
  chanUsers : StrMap (StrMap IrcUser)
  lastPong : ℤ
  quitOnTimer : ℤ
  /-- The variable `is_line_converted` of `main_loop`, not assigned without a converter. -/
  isLineConverted : Bool
  /-- The map `names_receiving` of `main_loop`. -/
  namesReceiving : Bytes → Bool
  /-- The map `who_receiving` of `main_loop`. -/
  whoReceiving : Bytes → Bool
  /-- What a second pass of `s_vsprintf` makes of a format and its arguments. It runs on the
  `va_list` that the first pass has used up, so nothing is known about it. -/
  secondPass : Bytes → List Bytes → Bytes
  /-- The lines and priorities handed to `add_to_send_queue`. -/
  outgoing : List (Bytes × ℤ)
  /-- The events handed to `send_event`. -/
  events : List IrcEvent

namespace Irc

/-- `irc::send_event`. -/
def sendEvent (c : Irc) (e : IrcEvent) : Irc := { c with events := c.events ++ [e] }

/-- `irc::add_to_send_queue`, as far as the caller sees it. -/
def addToSendQueue (c : Irc) (line : Bytes) (priority : ℤ) : Irc :=
  if line = [] then c else { c with outgoing := c.outgoing ++ [(line, priority)] }

/-! ## Sending -/

/-- The copy loop of `quote` with room for so many bytes: the bytes copied, and whether the
terminator was read. -/
def quoteCopy : ℕ → Bytes → Bytes × Bool
  | 0, _ => ([], false)
  | _ + 1, [] => ([], true)
  | n + 1, c :: cs =>
    if c = LF ∨ c = CR then quoteCopy (n + 1) cs
    else (c :: (quoteCopy n cs).1, (quoteCopy n cs).2)

/-- The C string that `quote` copies: the line, converted when a converter is set and conversion
was asked for, or the line itself if the conversion fails. -/
def quoteSource (c : Irc) (line : Bytes) (convertEnc : Bool) : Bytes :=
  match c.convM2s with
  | some convert =>
    if convertEnc then cstr ((convert (cstr line)).getD line) else cstr line
  | none => cstr line

/-- `irc::quote`. -/
def quote (c : Irc) (line : Bytes) (priority : ℤ) (convertEnc : Bool) : ℤ × Irc :=
  if c.status = .disconnected then (-1, c)
  else
    let copied := quoteCopy ircMaxLineSize (c.quoteSource line convertEnc)
    (if copied.2 then 0 else -1, c.addToSendQueue (copied.1 ++ [CR, LF]) priority)

/-- The text of a format whose only conversions are `%s`: each stands for the C string of the
next argument. -/
def formatStrings : Bytes → List Bytes → Bytes
  | [], _ => []
  | [c], _ => [c]
  | c :: d :: cs, args =>
    if c = '%' ∧ d = 's' then
      match args with
      | arg :: args => cstr arg ++ formatStrings cs args
      | [] => formatStrings cs []
    else c :: formatStrings (d :: cs) args

/-- The size of the buffer of the first pass of `s_vsprintf`. -/
def vsprintfBufSize : ℕ := 1024

/-- `s_vsprintf` for a format whose only conversions are `%s`. A text that does not fit into the
buffer, the terminator included, is formatted a second time. -/
def sVsprintf (c : Irc) (fmt : Bytes) (args : List Bytes) : Bytes :=
  let text := formatStrings fmt args
  if text.length < vsprintfBufSize then text else c.secondPass fmt args

/-- `irc::quotef`. -/
def quotef (c : Irc) (priority : ℤ) (convertEnc : Bool) (fmt : Bytes) (args : List Bytes) :
    ℤ × Irc :=
  c.quote (c.sVsprintf fmt args) priority convertEnc

/-- The format of a message of each kind, none for the kinds that are not sent. -/
def msgFormat : IrcMsgtype → Option Bytes
  | .normal => some (bytes "PRIVMSG %s :%s")
  | .notice => some (bytes "NOTICE %s :%s")
  | .action => some (bytes "PRIVMSG %s :\x01ACTION %s\x01")
  | .ctcp => some (bytes "PRIVMSG %s :\x01%s\x01")
  | .ctcpreply => some (bytes "NOTICE %s :\x01%s\x01")
  | .none => none

/-- `irc::privmsg`. Nothing is sent without a connection, and nothing to a DCC chat; the format is
that of the kind of the message, and the text is converted unless the destination says that it is
already. -/
def privmsg (c : Irc) (dest : IrcMsginfo) (msg : Bytes) : ℤ × Irc :=
  if c.status ≠ .connected then (-1, c)
  else
    let convertEnc := !dest.lineConverted
    if msg ≠ [] ∧ dest.chantype ≠ .dcc then
      match msgFormat dest.msgtype with
      | some fmt => (0, (c.quotef dest.priority convertEnc fmt [dest.chan, msg]).2)
      | none => (-2, c)
    else (0, c)

/-- `quote` with the default arguments, its result not looked at. -/
def quoteLine (c : Irc) (line : Bytes) : Irc := (c.quote line ircPriorityAnormal true).2

/-! ## The channels of the bot -/

/-- `irc::clear_chanuserlist`. -/
def clearChanuserlist (c : Irc) (chan : Bytes) : Irc :=
  { c with chanUsers := c.chanUsers.update chan fun _ => .empty }

/-- `irc::add_to_chanlist`. -/
def addToChanlist (c : Irc) (chan : Bytes) : Irc :=
  if chan = [] then c
  else if c.chans.any fun x => ircStrcasecmp x chan = 0 then c
  else ({ c with chans := c.chans ++ [chan] } : Irc).clearChanuserlist chan

/-- `irc::del_from_chanlist`: the first entry equal to the channel is erased. -/
def delFromChanlist (c : Irc) (chan : Bytes) : Irc :=
  if chan = [] then c
  else if c.chans.any fun x => ircStrcasecmp x chan = 0 then
    ({ c with chans := c.chans.eraseP fun x => ircStrcasecmp x chan = 0 } : Irc).clearChanuserlist
      chan
  else c

/-- `irc::is_joined`. The result `-1` for an empty name becomes `true`. -/
def isJoined (c : Irc) (chan : Bytes) : Bool :=
  if chan = [] then true else c.chans.any fun x => ircStrcasecmp x chan = 0

/-! ## The users of the channels -/

/-- `irc::get_chanuserlist`. -/
def getChanuserlist (c : Irc) (chan : Bytes) : StrMap IrcUser :=
  (c.chanUsers.find? chan).getD .empty

/-- Replace the user list of a channel. -/
def modifyChanuserlist (c : Irc) (chan : Bytes) (f : StrMap IrcUser → StrMap IrcUser) : Irc :=
  { c with chanUsers := c.chanUsers.update chan fun users => f (users.getD .empty) }

/-- `users[nick].set_ident(ident)` when there is an identity, and `users[nick].set_nick(decorated)`,
in this order. -/
def storeUser (ident decorated : Bytes) (user : Option IrcUser) : IrcUser :=
  let user := user.getD .init
  (if ident ≠ [] then user.setIdent ident else user).setNick decorated

/-- `irc::add_to_chanuserlist`. -/
def addToChanuserlist (c : Irc) (chan nick ident : Bytes) : Irc :=
  if chan = [] ∨ nick = [] then c
  else
    let realnick := (splitNickUsermode nick).2
    c.modifyChanuserlist chan fun users => users.update realnick (storeUser ident nick)

/-- `irc::refresh_chanuserlist`. -/
def refreshChanuserlist (c : Irc) (chan : Bytes) : Irc :=
  if c.srvinfo.namesxOn then c.quoteLine (bytes "NAMES " ++ chan)
  else c.quoteLine (bytes "WHO " ++ chan)

/-- `irc::del_from_chanuserlist`. -/
def delFromChanuserlist (c : Irc) (chan nick : Bytes) : Irc :=
  if chan = [] ∨ nick = [] then c
  else
    let realnick := (splitNickUsermode nick).2
    if (c.getChanuserlist chan).contains realnick then
      c.modifyChanuserlist chan fun users => users.erase realnick
    else c.refreshChanuserlist chan

/-- `irc::is_user_joined`. The result `-1` for an empty name becomes `true`. -/
def isUserJoined (c : Irc) (chan nick : Bytes) : Bool :=
  if chan = [] ∨ nick = [] then true
  else
    let realnick := match reExtractNick.exec nick with
      | some [realnick] => realnick
      | _ => nick
    (c.getChanuserlist chan).contains realnick

/-- `irc::get_user_data`. -/
def getUserData (c : Irc) (chan nick : Bytes) : Option IrcUser :=
  if chan = [] ∨ nick = [] then none else (c.getChanuserlist chan).find? nick

/-- `irc::del_from_chanuserlist_all`. -/
def delFromChanuserlistAll (c : Irc) (nick : Bytes) : Irc :=
  c.chans.foldl
    (fun c chan => if c.isUserJoined chan nick then c.delFromChanuserlist chan nick else c) c

/-! ## Connecting and disconnecting -/

/-- `irc::connect`, given whether the socket could be connected. -/
def connect (c : Irc) (sockOk : Bool) : Irc :=
  if c.status ≠ .disconnected then c
  else if sockOk then
    ({ c with
        status := .connecting, quitOnTimer := 0, chans := [], chanUsers := .empty,
        srvinfo := .init } : Irc).sendEvent .connected
  else { c with quitOnTimer := 0 }

/-- `irc::disconnect`. -/
def disconnect (c : Irc) : Irc :=
  { (if c.status = .connected ∨ c.status = .connecting then c.sendEvent .disconnected else c) with
    status := .disconnected }

/-- `irc::ircbot_event_handler`, run by an event thread when the handlers of a quit event are
done. -/
def ircbotEventHandler (c : Irc) (nick : Bytes) : Irc := c.delFromChanuserlistAll nick

/-- The object of a bot that has logged in with a nick and has joined no channel. A second pass of
`s_vsprintf` gives it nothing. -/
def fresh (nick : Bytes) : Irc :=
  { status := .connected, nick, srvinfo := .init, convM2s := none, convS2m := none, chans := [],
    chanUsers := .empty, lastPong := 0, quitOnTimer := 0, isLineConverted := false,
    namesReceiving := fun _ => false, whoReceiving := fun _ => false, secondPass := fun _ _ => [],
    outgoing := [], events := [] }

/-! ## What is handed to the send path -/

/-- The copy loop keeps the bytes other than line terminators, as many as fit. -/
lemma quoteCopy_fst (n : ℕ) (s : Bytes) :
    (quoteCopy n s).1 = (s.filter fun c => c ≠ LF ∧ c ≠ CR).take n := by
  induction s generalizing n with
  | nil => cases n <;> rfl
  | cons c cs ih =>
    cases n with
    | zero => rfl
    | succ n =>
      by_cases hc : c = LF ∨ c = CR
      · have hkeep : ¬ (c ≠ LF ∧ c ≠ CR) := by tauto
        rw [quoteCopy, if_pos hc, List.filter_cons_of_neg (by simpa using hkeep), ih]
      · have hkeep : c ≠ LF ∧ c ≠ CR := by tauto
        rw [quoteCopy, if_neg hc, List.filter_cons_of_pos (by simpa using hkeep), ih,
          List.take_succ_cons]

/-- The line that `quote` makes of a C string. -/
def wireLine (s : Bytes) : Bytes :=
  (s.filter fun c => c ≠ LF ∧ c ≠ CR).take ircMaxLineSize ++ [CR, LF]

/-- **`quote`** hands one line to the send path, and changes nothing else. -/
lemma quote_snd {c : Irc} (hc : c.status ≠ .disconnected) (line : Bytes) (priority : ℤ)
    (convertEnc : Bool) :
    (c.quote line priority convertEnc).2 =
      { c with outgoing :=
          c.outgoing ++ [(wireLine (c.quoteSource line convertEnc), priority)] } := by
  simp only [quote, if_neg hc, addToSendQueue, quoteCopy_fst, wireLine]
  rw [if_neg (by simp)]

/-- The text of a message of each kind, for a destination and a text: the command, and for three of
the kinds the bytes 1 around the text. There is none for a message without a kind. -/
def messageText (msgtype : IrcMsgtype) (chan msg : Bytes) : Option Bytes :=
  match msgtype with
  | .normal => some (bytes "PRIVMSG " ++ chan ++ bytes " :" ++ msg)
  | .notice => some (bytes "NOTICE " ++ chan ++ bytes " :" ++ msg)
  | .action => some (bytes "PRIVMSG " ++ chan ++ bytes " :\x01ACTION " ++ msg ++ [1])
  | .ctcp => some (bytes "PRIVMSG " ++ chan ++ bytes " :\x01" ++ msg ++ [1])
  | .ctcpreply => some (bytes "NOTICE " ++ chan ++ bytes " :\x01" ++ msg ++ [1])
  | .none => none

/-- The formats produce the texts. -/
lemma formatStrings_msgFormat (msgtype : IrcMsgtype) (chan msg : Bytes) :
    (msgFormat msgtype).map (formatStrings · [chan, msg]) =
      messageText msgtype (cstr chan) (cstr msg) := by
  cases msgtype <;> simp [msgFormat, messageText, bytes, formatStrings]

/-- What `s_vsprintf` makes of a message with such a text. -/
def printed (c : Irc) (dest : IrcMsginfo) (msg text : Bytes) : Bytes :=
  if text.length < vsprintfBufSize then text
  else c.secondPass ((msgFormat dest.msgtype).getD []) [dest.chan, msg]

/-- A text that fits into the buffer is printed in one pass. -/
lemma printed_of_lt {c : Irc} {dest : IrcMsginfo} {msg text : Bytes}
    (h : text.length < vsprintfBufSize) : c.printed dest msg text = text :=
  if_pos h

/-- **`privmsg`** hands what is printed of the text of the message to `quote`, if there is
something to send, and changes nothing otherwise.

**Proof sketch.** By cases on the text and on the kind of the message: where there is a format, its
strings give the text of the message (`formatStrings_msgFormat`), and otherwise nothing is handed
over. -/
lemma privmsg_snd {c : Irc} (hc : c.status = .connected) (dest : IrcMsginfo) (msg : Bytes) :
    (c.privmsg dest msg).2 =
      match messageText dest.msgtype (cstr dest.chan) (cstr msg) with
      | some text =>
        if msg ≠ [] ∧ dest.chantype ≠ .dcc then
          (c.quote (c.printed dest msg text) dest.priority (!dest.lineConverted)).2
        else c
      | none => c := by
  rw [← formatStrings_msgFormat, privmsg, if_neg (by simp [hc])]
  by_cases hsend : msg ≠ [] ∧ dest.chantype ≠ .dcc
  · rw [if_pos hsend]
    cases hfmt : msgFormat dest.msgtype with
    | some fmt => simp [hsend, quotef, sVsprintf, printed, hfmt]
    | none => rfl
  · rw [if_neg hsend]
    cases msgFormat dest.msgtype with
    | some fmt => simp only [Option.map_some, if_neg hsend]
    | none => rfl

end Irc

end Meowbot
