import Meowbot.Irc

set_option relaxedAutoImplicit false
set_option autoImplicit false

/-!
# The main loop (`irc::main_loop`)

One iteration for a received line: convert it, report it, take it apart, and run the handler of
its command. The parameters are padded to 32 before the handlers run, so the fixed indexes of the
handlers are in range by their type. Two loops index the parameters with numbers that depend on the
line, the one over the letters of MODE and the one over the tokens of 005; their accesses are
checked, and one that is out of range, which is undefined behaviour of the source, is a `Fault`.
Each handler with an inner loop also returns the number of its iterations.

## Main definitions

* `Meowbot.Message` — a parsed line; `Meowbot.Command` — the commands with a handler.
* `Meowbot.onMode`, `onJoin`, …, `onIsupport` — the handlers.
* `Meowbot.Irc.processLine`, `Meowbot.Irc.receiveLine` — one iteration of the main loop.

## Main results

* `Meowbot.onMode_keeps`, `Meowbot.onIsupport_keeps` — the two handlers with an inner loop keep what
  every round of it keeps.
-/

namespace Meowbot

/-- A parsed line. -/
structure Message where
  /-- `ident`, the prefix of the line. -/
  ident : Bytes
  cmd : Bytes
  /-- The parameters before padding, `nparam` of them. -/
  given : List Bytes

/-- `nparam`. -/
def Message.nparam (m : Message) : ℕ := m.given.length

/-- `origin`, after `origin.set_ident(ident)`. -/
def Message.origin (m : Message) : IrcIdent := .setIdent m.ident

/-- `params`, after `params.resize(32)` if there are fewer. -/
def Message.params (m : Message) : List Bytes :=
  if m.nparam < 32 then m.given ++ List.replicate (32 - m.nparam) [] else m.given

/-- There are at least 32 parameters after padding. -/
lemma Message.le_length_params (m : Message) : 32 ≤ m.params.length := by
  unfold params nparam
  split_ifs with h
  · simp
    omega
  · omega

/-- Indexes of padded parameters may be written as numerals. -/
instance Message.neZero_padded : NeZero 32 := ⟨by decide⟩

/-- An access `params[i]` with a fixed index, which padding makes sound. -/
def Message.arg (m : Message) (i : Fin 32) : Bytes :=
  m.params.get ⟨i, lt_of_lt_of_le i.isLt m.le_length_params⟩

/-- A parameter has been given or is padding. -/
lemma Message.arg_mem (m : Message) (i : Fin 32) : m.arg i ∈ m.given ∨ m.arg i = [] := by
  have hmem : m.arg i ∈ m.params := List.get_mem _ _
  unfold params at hmem
  split_ifs at hmem
  · rcases List.mem_append.mp hmem with hgiven | hpad
    · exact .inl hgiven
    · exact .inr (List.mem_replicate.mp hpad).2
  · exact .inl hmem

/-- An access out of the range of a vector. -/
inductive Fault where
  | outOfRange (index size : ℕ)
  deriving DecidableEq

/-- An access `params[i]` with an index computed from the line. -/
def Message.at (m : Message) (i : ℕ) : Except Fault Bytes :=
  match m.params[i]? with
  | some p => .ok p
  | none => .error (.outOfRange i m.params.length)

/-- Whether a name starts like a channel name. -/
def isChanName (chan : Bytes) : Bool :=
  chan.head? = some ('#' : Byte) ∨ chan.head? = some ('&' : Byte)

/-- `concat_param` from the first parameter on. The first one gets no space in front of it, also
when it is the empty ones before that have been skipped. -/
def concatParam (params : List Bytes) : Bytes :=
  (params.zipIdx.filter fun p => p.1 ≠ []).flatMap fun p =>
    (if p.2 ≠ 0 then [(' ' : Byte)] else []) ++ p.1

/-- `atoi` on the start of a string: blanks, a sign, digits, and the value as an `int`. -/
def atoi (s : Bytes) : Int32 :=
  let s := s.dropWhile fun c : Byte => c = ' ' ∨ (9 ≤ c ∧ c ≤ 13)
  let negative := s.head? = some ('-' : Byte)
  let digits := (if negative ∨ s.head? = some ('+' : Byte) then s.tail else s).takeWhile
    fun c : Byte => '0' ≤ c ∧ c ≤ '9'
  let value : ℤ := digits.foldl (fun n c => 10 * n + (c.toNat - 48)) 0
  Int32.ofInt (if negative then -value else value)

/-- What an iteration leads to: the next one, or the end of the loop with a result. -/
inductive Flow where
  | next
  | leave (result : ℤ)
  deriving DecidableEq

/-- What has been done by a handler. -/
structure Handled where
  irc : Irc
  flow : Flow
  /-- The number of iterations of the inner loop. -/
  steps : ℕ

/-- A handler without inner loop that goes on. -/
def Handled.goOn (c : Irc) : Handled := { irc := c, flow := .next, steps := 0 }

/-! ## Messages and channel modes -/

/-- The handler of `PRIVMSG` and `NOTICE`, which differ in the kind of message. -/
def onMessage (c : Irc) (m : Message) (msgtype : IrcMsgtype) : Irc :=
  if m.nparam < 2 then c
  else if m.ident = [] then c
  else c.sendEvent (.privmsg (.init m.origin (.init (m.arg 0) msgtype .chan c.isLineConverted)
    (m.arg 1)))

/-- `PRIVMSG`. -/
def onPrivmsg (c : Irc) (m : Message) : Irc := onMessage c m .normal

/-- `NOTICE`. -/
def onNotice (c : Irc) (m : Message) : Irc := onMessage c m .notice

/-- The mode character in front of a nick for each of the modes `q`, `a`, `o`, `h` and `v`. -/
def modePrefix (mode : Byte) : Option Byte :=
  if mode = 'q' then some '~'
  else if mode = 'a' then some '&'
  else if mode = 'o' then some '@'
  else if mode = 'h' then some '%'
  else if mode = 'v' then some '+'
  else none

/-- The other modes that take a parameter. -/
def modeTakesParam (sign mode : Byte) : Bool :=
  mode ∈ bytes "bdeIgfJkF" ∨ (mode = 'l' ∧ sign = '+')

/-- Give or take one channel mode character of `chan_users[chan][nick]`, which is created if it
does not exist. -/
def Irc.setUserMode (c : Irc) (chan nick : Bytes) (sign newmode : Byte) : Irc :=
  c.modifyChanuserlist chan fun users => users.update nick fun user =>
    if sign = '+' then (user.getD .init).addToChanusermode [newmode]
    else (user.getD .init).delFromChanusermode [newmode]

/-- The variables of the loop of the MODE handler. -/
structure ModeVars where
  irc : Irc
  sign : Byte
  /-- The index of the next parameter. -/
  pi : ℕ

/-- Take a parameter for a mode letter and report the change; an empty parameter ends the loop. -/
def ModeVars.withParam (v : ModeVars) (m : Message) (chan : Bytes) (mode : Byte)
    (apply : Bytes → Irc) : Except Fault (Option ModeVars) := do
  let param ← m.at v.pi
  if param = [] then pure none
  else pure (some { v with
    irc := (apply param).sendEvent (.mode m.origin chan [v.sign, mode] param), pi := v.pi + 1 })

/-- The body of the loop of the MODE handler for one letter, `none` when it leaves the loop. A sign
is kept, a status of a user takes a nick, another letter may take a parameter, and for each of them
an event is sent. -/
def modeLetter (m : Message) (chan : Bytes) (v : ModeVars) (mode : Byte) :
    Except Fault (Option ModeVars) :=
  if mode = '+' ∨ mode = '-' then .ok (some { v with sign := mode })
  else match modePrefix mode with
    | some newmode => v.withParam m chan mode fun nick => v.irc.setUserMode chan nick v.sign newmode
    | none =>
      if modeTakesParam v.sign mode then v.withParam m chan mode fun _ => v.irc
      else .ok (some { v with irc := v.irc.sendEvent (.mode m.origin chan [v.sign, mode] []) })

/-- The loop of the MODE handler over the letters, with the number of its rounds. It fails when a
parameter is read behind the end of the vector. -/
def modeLoop (m : Message) (chan : Bytes) (v : ModeVars) : Bytes → Except Fault (Irc × ℕ)
  | [] => .ok (v.irc, 0)
  | mode :: modes => do
    match ← modeLetter m chan v mode with
    | none => pure (v.irc, 1)
    | some v =>
      let (c, steps) ← modeLoop m chan v modes
      pure (c, steps + 1)

/-- `MODE`. The first byte of the mode string is the first sign, whatever it is, and the parameters
begin behind the mode string. -/
def onMode (c : Irc) (m : Message) : Except Fault Handled :=
  if m.nparam < 2 then pure (.goOn c)
  else
    match cstr (m.arg 1) with
    | [] => pure (.goOn c)
    | sign :: modes => do
      let (c, steps) ← modeLoop m (m.arg 0) { irc := c, sign, pi := 2 } modes
      pure { irc := c, flow := .next, steps }

/-! ## Joining and leaving -/

/-- `JOIN`. When the bot itself joins, the channel is added, its users are asked for unless their
names come with all mode characters anyway, and so are its modes; otherwise the user is added. -/
def onJoin (c : Irc) (m : Message) : Irc :=
  if m.nparam < 1 then c
  else
    let chan := m.arg 0
    let nick := m.origin.nick
    let c :=
      if nick = c.nick then
        let c := c.addToChanlist chan
        let c := if c.srvinfo.namesxOn then c else c.refreshChanuserlist chan
        c.quoteLine (bytes "MODE " ++ chan)
      else c.addToChanuserlist chan nick m.ident
    c.sendEvent (.join m.origin chan)

/-- `PART`. -/
def onPart (c : Irc) (m : Message) : Irc :=
  if m.nparam < 1 then c
  else
    let chan := m.arg 0
    let nick := m.origin.nick
    let c := if nick = c.nick then c.delFromChanlist chan else c.delFromChanuserlist chan nick
    c.sendEvent (.part m.origin chan (m.arg 1))

/-- `KICK`. The kicked user is looked for first; if he is not in the table the list of the channel
is asked for again, and no event is sent. -/
def onKick (c : Irc) (m : Message) : Irc :=
  if m.nparam < 2 then c
  else
    let chan := m.arg 0
    let nick := m.arg 1
    match (c.getChanuserlist chan).find? nick with
    | none => c.refreshChanuserlist chan
    | some kickedUser =>
      let c := if nick = c.nick then c.delFromChanlist chan else c.delFromChanuserlist chan nick
      c.sendEvent (.kick m.origin chan kickedUser (m.arg 2))

/-- One iteration of the loop of the NICK handler over the channels. -/
def renameIn (c : Irc) (nick newnick ident chan : Bytes) : Irc :=
  if c.isUserJoined chan nick then
    let newnick2 := match c.getUserData chan nick with
      | some user => user.chanmode ++ newnick
      | none => newnick
    (c.delFromChanuserlist chan nick).addToChanuserlist chan newnick2 ident
  else c

/-- `NICK`. The nick of the bot is changed first, and then the tables of all channels, one after
another. -/
def onNick (c : Irc) (m : Message) : Irc :=
  if m.nparam < 1 then c
  else
    let newnick := m.arg 0
    let nick := m.origin.nick
    let c := if nick = c.nick then { c with nick := newnick } else c
    let c := c.chans.foldl (fun c chan => renameIn c nick newnick m.ident chan) c
    c.sendEvent (.nick m.origin newnick)

/-- `QUIT`. The user lists are changed by `Irc.ircbotEventHandler` in an event thread. -/
def onQuit (c : Irc) (m : Message) : Handled :=
  if m.origin.nick = c.nick then
    { irc := c, flow := .leave (if c.quitOnTimer = 0 then -1 else 0), steps := 0 }
  else .goOn (c.sendEvent (.quit m.origin (m.arg 0)))

/-! ## Lists of users -/

/-- `352`, a line of a WHO reply. The first line for a channel empties its table, and each of them
adds the user, with the mode characters that are found in the flags. -/
def onWhoReply (c : Irc) (m : Message) : Irc :=
  if c.srvinfo.namesxOn then c
  else if m.nparam < 7 then c
  else
    let chan := m.arg 1
    let nick := m.arg 5
    if isChanName chan then
      let c :=
        if c.whoReceiving chan then c
        else ({ c with whoReceiving := Function.update c.whoReceiving chan true } : Irc)
          |>.clearChanuserlist chan
      let mode := match reExtractModeChars.search (m.arg 6) with
        | some [mode] => mode
        | _ => []
      c.addToChanuserlist chan (mode ++ nick)
        (nick ++ bytes "!" ++ m.arg 2 ++ bytes "@" ++ m.arg 3)
    else c

/-- `315`, the end of a WHO reply. The names are asked for afterwards if the server sends them with
their hosts. -/
def onEndOfWho (c : Irc) (m : Message) : Irc :=
  if c.srvinfo.namesxOn then c
  else if m.nparam < 2 then c
  else
    let chan := m.arg 1
    if isChanName chan then
      let c : Irc := { c with whoReceiving := Function.update c.whoReceiving chan false }
      if c.srvinfo.uhnamesOn then c.quoteLine (bytes "NAMES " ++ chan) else c
    else c

/-- Store one name of a NAMES reply. -/
def addName (c : Irc) (chan arg : Bytes) : Irc :=
  if c.srvinfo.namesxOn then
    let modenick := match reModeAndNick.exec arg with
      | some [modenick] => modenick
      | _ => []
    c.addToChanuserlist chan modenick (IrcIdent.setIdent arg).ident
  else c.addToChanuserlist chan arg []

/-- The loop of the NAMES handler, with the bytes since `startp`. A name ends at a space or at the
end of the text; at a space that ends the text the loop is left. -/
def namesLoop (chan : Bytes) (c : Irc) (arg : Bytes) : Bytes → Irc × ℕ
  | [] => (addName c chan arg, 1)
  | p :: ps =>
    if p = ' ' then
      let c := addName c chan arg
      if ps = [] then (c, 1)
      else
        let r := namesLoop chan c [] ps
        (r.1, r.2 + 1)
    else
      let r := namesLoop chan c (arg ++ [p]) ps
      (r.1, r.2 + 1)

/-- `353`, a line of a NAMES reply. Lines that come during a WHO reply are left out, and the first
line for a channel empties its table if the mode characters of all users are sent. -/
def onNamesReply (c : Irc) (m : Message) : Handled :=
  if m.nparam < 4 then .goOn c
  else
    let chan := m.arg 2
    if isChanName chan then
      if c.whoReceiving chan then .goOn c
      else
        let c :=
          if c.namesReceiving chan then c
          else
            let c : Irc := { c with namesReceiving := Function.update c.namesReceiving chan true }
            if c.srvinfo.namesxOn then c.clearChanuserlist chan else c
        let r := namesLoop chan c [] (cstr (m.arg 3))
        { irc := r.1, flow := .next, steps := r.2 }
    else .goOn c

/-- `366`, the end of a NAMES reply. -/
def onEndOfNames (c : Irc) (m : Message) : Irc :=
  if m.nparam < 1 then c
  else if isChanName (m.arg 1) then
    { c with namesReceiving := Function.update c.namesReceiving (m.arg 1) false }
  else c

/-! ## The server -/

/-- `^([^=]+)=(.*)$` -/
def re005Param : SeqPattern.Pattern Byte :=
  ⟨[.many (· ≠ '=') 1 false, .one (· = '='), .many dot 0 false, .lineEnd LF], [(0, 1), (2, 1)]⟩

/-- `^\(([a-z]+)\)(.+)$` -/
def reSplit005Prefix : SeqPattern.Pattern Byte :=
  ⟨[.one (· = '('), .many (fun c => 'a' ≤ c ∧ c ≤ 'z') 1 false, .one (· = ')'),
    .many dot 1 false, .lineEnd LF], [(1, 1), (3, 1)]⟩

/-- The conversion of an `int` to `size_t`. -/
def toSizeT (n : Int32) : ℕ := (n.toInt % 2 ^ 64).toNat

/-- Store the value of one `name=value` token of the server. Names that the source does not know are
left out, and the numbers are read as by `atoi`. -/
def SrvInfo.assign (i : SrvInfo) (pname parg : Bytes) : SrvInfo :=
  if pname = bytes "NETWORK" then { i with netname := parg }
  else if pname = bytes "CHANTYPES" then { i with chantypes := parg }
  else if pname = bytes "CHANMODES" then { i with chanmodes := parg }
  else if pname = bytes "PREFIX" then
    match reSplit005Prefix.exec parg with
    | some [prefixes, modes] => { i with chanusermodePrefixes := prefixes, chanusermodes := modes }
    | _ => i
  else if pname = bytes "MAXCHANNELS" then { i with maxChannels := toSizeT (atoi (cstr parg)) }
  else if pname = bytes "NICKLEN" then { i with nicklen := toSizeT (atoi (cstr parg)) }
  else if pname = bytes "CASEMAPPING" then { i with casemapping := parg }
  else if pname = bytes "CHARSET" then { i with charset := parg }
  else i

/-- The body of the loop of the 005 handler. Two tokens are answered by asking for what they
announce; a token of another form is left out. -/
def isupportToken (c : Irc) (token : Bytes) : Irc :=
  if token = bytes "UHNAMES" then
    ({ c with srvinfo := { c.srvinfo with uhnamesOn := true } } : Irc).quoteLine
      (bytes "PROTOCTL UHNAMES")
  else if token = bytes "NAMESX" then
    ({ c with srvinfo := { c.srvinfo with namesxOn := true } } : Irc).quoteLine
      (bytes "PROTOCTL NAMESX")
  else match re005Param.exec token with
    | some [pname, parg] => { c with srvinfo := c.srvinfo.assign pname parg }
    | _ => c

/-- The loop of the 005 handler, for so many indexes from `i` on. -/
def isupportLoop (m : Message) (c : Irc) (i : ℕ) : ℕ → Except Fault (Irc × ℕ)
  | 0 => .ok (c, 0)
  | n + 1 => do
    let token ← m.at i
    let (c, steps) ← isupportLoop m (isupportToken c token) (i + 1) n
    pure (c, steps + 1)

/-- `nparam - 1`, for an `unsigned int`. -/
def nparamPred (nparam : ℕ) : ℕ := (nparam + (2 ^ 32 - 1)) % 2 ^ 32

/-- `005`, what the server supports: the loop runs over the indexes `1 ≤ i < nparam - 1`. -/
def onIsupport (c : Irc) (m : Message) : Except Fault Handled := do
  let (c, steps) ← isupportLoop m c 1 (nparamPred m.nparam - 1)
  pure { irc := c, flow := .next, steps }

/-- `PING`. -/
def onPing (c : Irc) (m : Message) : Irc :=
  (c.quote (bytes "PONG " ++ concatParam m.params) ircPriorityMax true).2

/-- `ERROR`. -/
def onError (c : Irc) : Handled :=
  { irc := c, flow := .leave (if c.quitOnTimer = 0 then -1 else 0), steps := 0 }

/-- `INVITE`. -/
def onInvite (c : Irc) (m : Message) : Irc :=
  if m.nparam < 2 then c
  else if m.arg 0 = c.nick then c.sendEvent (.invite m.origin (m.arg 1))
  else c

/-- `433`, the nick is in use. -/
def onNickInUse (c : Irc) : Irc :=
  if c.status = .connecting then
    ({ c with nick := c.nick ++ bytes "_" } : Irc).quoteLine (bytes "NICK " ++ (c.nick ++ bytes "_"))
  else c

/-- `376` and `422`, the end of the message of the day. -/
def onEndOfMotd (c : Irc) : Irc :=
  if c.status = .connecting then ({ c with status := .connected } : Irc).sendEvent .loggedin else c

/-! ## The loops, one iteration at a time -/

/-- An access in range succeeds. -/
lemma Message.at_of_lt {m : Message} {i : ℕ} (h : i < m.params.length) :
    m.at i = .ok (m.params.get ⟨i, h⟩) := by
  simp [Message.at, h]

/-- An access out of range is a fault. -/
lemma Message.at_of_le {m : Message} {i : ℕ} (h : m.params.length ≤ i) :
    m.at i = .error (.outOfRange i m.params.length) := by
  simp [Message.at, h]

/-- The parameters from a valid index on. -/
lemma Message.drop_params {m : Message} {i : ℕ} (h : i < m.params.length) :
    m.params.drop i = m.params.get ⟨i, h⟩ :: m.params.drop (i + 1) :=
  List.drop_eq_getElem_cons h

/-- The loop goes on with the rest of the letters. -/
lemma modeLoop_cons_some {m : Message} {chan : Bytes} {v v' : ModeVars} {mode : Byte}
    (h : modeLetter m chan v mode = .ok (some v')) (modes : Bytes) :
    modeLoop m chan v (mode :: modes) =
      (modeLoop m chan v' modes).map fun r => (r.1, r.2 + 1) := by
  rw [modeLoop, h]
  change (modeLoop m chan v' modes).bind _ = _
  cases modeLoop m chan v' modes <;> rfl

/-- The loop is left. -/
lemma modeLoop_cons_none {m : Message} {chan : Bytes} {v : ModeVars} {mode : Byte}
    (h : modeLetter m chan v mode = .ok none) (modes : Bytes) :
    modeLoop m chan v (mode :: modes) = .ok (v.irc, 1) := by
  rw [modeLoop, h]
  rfl

/-- The loop ends with the fault of a letter. -/
lemma modeLoop_cons_error {m : Message} {chan : Bytes} {v : ModeVars} {mode : Byte} {e : Fault}
    (h : modeLetter m chan v mode = .error e) (modes : Bytes) :
    modeLoop m chan v (mode :: modes) = .error e := by
  rw [modeLoop, h]
  rfl

/-- The MODE handler on a nonempty mode string is its loop. -/
lemma onMode_eq_loop (c : Irc) {m : Message} (hn : ¬ m.nparam < 2) {sign : Byte} {modes : Bytes}
    (hmodes : cstr (m.arg 1) = sign :: modes) :
    onMode c m = (modeLoop m (m.arg 0) { irc := c, sign, pi := 2 } modes).map
      fun r => { irc := r.1, flow := .next, steps := r.2 } := by
  rw [onMode, if_neg hn, hmodes]
  change (modeLoop m (m.arg 0) { irc := c, sign, pi := 2 } modes).bind _ = _
  cases modeLoop m (m.arg 0) { irc := c, sign, pi := 2 } modes <;> rfl

/-- The MODE handler on an empty mode string does nothing. -/
lemma onMode_eq_goOn (c : Irc) {m : Message} (h : m.nparam < 2 ∨ cstr (m.arg 1) = []) :
    onMode c m = .ok (.goOn c) := by
  rw [onMode]
  split_ifs with hn
  · rfl
  · rw [h.resolve_left hn]
    rfl

/-- The loop over the tokens goes on with the next index. -/
lemma isupportLoop_succ {m : Message} {i : ℕ} {token : Bytes} (h : m.at i = .ok token) (c : Irc)
    (n : ℕ) :
    isupportLoop m c i (n + 1) =
      (isupportLoop m (isupportToken c token) (i + 1) n).map fun r => (r.1, r.2 + 1) := by
  rw [isupportLoop, h]
  change (isupportLoop m (isupportToken c token) (i + 1) n).bind _ = _
  cases isupportLoop m (isupportToken c token) (i + 1) n <;> rfl

/-- The loop over the tokens ends with a fault. -/
lemma isupportLoop_succ_error {m : Message} {i : ℕ} {e : Fault} (h : m.at i = .error e) (c : Irc)
    (n : ℕ) : isupportLoop m c i (n + 1) = .error e := by
  rw [isupportLoop, h]
  rfl

/-- The 005 handler is its loop. -/
lemma onIsupport_eq_loop (c : Irc) (m : Message) :
    onIsupport c m = (isupportLoop m c 1 (nparamPred m.nparam - 1)).map
      fun r => { irc := r.1, flow := .next, steps := r.2 } := by
  rw [onIsupport]
  change (isupportLoop m c 1 (nparamPred m.nparam - 1)).bind _ = _
  cases isupportLoop m c 1 (nparamPred m.nparam - 1) <;> rfl

/-- What every letter of a mode string keeps is kept by its loop.

**Proof sketch.** By induction on the mode string: a letter keeps it, or leaves the loop with the
state as it is, or the access is out of range and there is no result. -/
lemma modeLoop_keeps {P : Irc → Prop} {m : Message} {chan : Bytes}
    (hstep : ∀ v mode v', modeLetter m chan v mode = .ok (some v') → P v.irc → P v'.irc)
    {v : ModeVars} {modes : Bytes} {r : Irc × ℕ} (h : modeLoop m chan v modes = .ok r)
    (hv : P v.irc) : P r.1 := by
  induction modes generalizing v r with
  | nil =>
    obtain rfl := Except.ok.inj h
    exact hv
  | cons mode modes ih =>
    rcases hletter : modeLetter m chan v mode with e | _ | v'
    · rw [modeLoop_cons_error hletter] at h
      cases h
    · rw [modeLoop_cons_none hletter] at h
      obtain rfl := Except.ok.inj h
      exact hv
    · rw [modeLoop_cons_some hletter] at h
      rcases hrest : modeLoop m chan v' modes with e | r'
      · rw [hrest] at h
        cases h
      · have hrec := ih hrest (hstep v mode v' hletter hv)
        rw [hrest] at h
        obtain rfl := Except.ok.inj h
        exact hrec

/-- **The MODE handler** goes on, and keeps what every letter of the mode string keeps.

**Proof sketch.** If there is no mode string nothing is done. Otherwise the loop over the letters
keeps what each letter keeps, by induction on them, and the handler goes on behind it. -/
lemma onMode_keeps {P : Irc → Prop} {c : Irc} {m : Message} {h : Handled}
    (hstep : ∀ v mode v', modeLetter m (m.arg 0) v mode = .ok (some v') → P v.irc → P v'.irc)
    (hh : onMode c m = .ok h) (hc : P c) : h.flow = .next ∧ P h.irc := by
  by_cases hn : m.nparam < 2
  · rw [onMode_eq_goOn c (.inl hn)] at hh
    obtain rfl := Except.ok.inj hh
    exact ⟨rfl, hc⟩
  · rcases hmodes : cstr (m.arg 1) with _ | ⟨sign, modes⟩
    · rw [onMode_eq_goOn c (.inr hmodes)] at hh
      obtain rfl := Except.ok.inj hh
      exact ⟨rfl, hc⟩
    · rw [onMode_eq_loop c hn hmodes] at hh
      rcases hr : modeLoop m (m.arg 0) { irc := c, sign, pi := 2 } modes with e | r
      · rw [hr] at hh
        cases hh
      · have hkeeps := modeLoop_keeps hstep hr hc
        rw [hr] at hh
        obtain rfl := Except.ok.inj hh
        exact ⟨rfl, hkeeps⟩

/-- What every token of 005 keeps is kept by the loop over them.

**Proof sketch.** By induction on the number of tokens that are left; a token that cannot be read
ends the loop with an error. -/
lemma isupportLoop_keeps {P : Irc → Prop} (hstep : ∀ c token, P c → P (isupportToken c token))
    {m : Message} {c : Irc} {i n : ℕ} {r : Irc × ℕ} (h : isupportLoop m c i n = .ok r)
    (hc : P c) : P r.1 := by
  induction n generalizing c i r with
  | zero =>
    obtain rfl := Except.ok.inj h
    exact hc
  | succ n ih =>
    rcases hat : m.at i with e | token
    · rw [isupportLoop_succ_error hat] at h
      cases h
    · rw [isupportLoop_succ hat] at h
      rcases hrest : isupportLoop m (isupportToken c token) (i + 1) n with e | r'
      · rw [hrest] at h
        cases h
      · have hrec := ih hrest (hstep c token hc)
        rw [hrest] at h
        obtain rfl := Except.ok.inj h
        exact hrec

/-- **The 005 handler** goes on, and keeps what every token keeps. -/
lemma onIsupport_keeps {P : Irc → Prop} (hstep : ∀ c token, P c → P (isupportToken c token))
    {c : Irc} {m : Message} {h : Handled} (hh : onIsupport c m = .ok h) (hc : P c) :
    h.flow = .next ∧ P h.irc := by
  rw [onIsupport_eq_loop] at hh
  rcases hr : isupportLoop m c 1 (nparamPred m.nparam - 1) with e | r
  · rw [hr] at hh
    cases hh
  · have hkeeps := isupportLoop_keeps hstep hr hc
    rw [hr] at hh
    obtain rfl := Except.ok.inj hh
    exact ⟨rfl, hkeeps⟩

/-! ## One iteration -/

/-- The commands with a handler that does something. -/
inductive Command where
  | ping | privmsg | notice | mode | join | part | kick | nick | quit
  | whoReply | endOfWho | namesReply | endOfNames
  | error | invite | pong | nickInUse | isupport | endOfMotd
  | other
  deriving DecidableEq

/-- The names of the commands, in the order in which the source compares them. Two numerics have the
same handler. -/
def commandTable : List (Bytes × Command) :=
  [(bytes "PING", .ping), (bytes "PRIVMSG", .privmsg), (bytes "NOTICE", .notice),
    (bytes "MODE", .mode), (bytes "JOIN", .join), (bytes "PART", .part), (bytes "KICK", .kick),
    (bytes "NICK", .nick), (bytes "QUIT", .quit), (bytes "352", .whoReply),
    (bytes "315", .endOfWho), (bytes "353", .namesReply), (bytes "366", .endOfNames),
    (bytes "ERROR", .error), (bytes "INVITE", .invite), (bytes "PONG", .pong),
    (bytes "433", .nickInUse), (bytes "005", .isupport), (bytes "376", .endOfMotd),
    (bytes "422", .endOfMotd)]

/-- The command a line names. The commands that are only printed or ignored are `other`. -/
def Command.ofBytes (cmd : Bytes) : Command :=
  ((commandTable.find? fun e => e.1 = cmd).map Prod.snd).getD .other

/-- The handler of a command. Only those of MODE, of 005 and of NAMES have loops of their own, and
only the first two can fail. -/
def handle (c : Irc) (now : ℤ) (m : Message) : Command → Except Fault Handled
  | .ping => .ok (.goOn (onPing c m))
  | .privmsg => .ok (.goOn (onPrivmsg c m))
  | .notice => .ok (.goOn (onNotice c m))
  | .mode => onMode c m
  | .join => .ok (.goOn (onJoin c m))
  | .part => .ok (.goOn (onPart c m))
  | .kick => .ok (.goOn (onKick c m))
  | .nick => .ok (.goOn (onNick c m))
  | .quit => .ok (onQuit c m)
  | .whoReply => .ok (.goOn (onWhoReply c m))
  | .endOfWho => .ok (.goOn (onEndOfWho c m))
  | .namesReply => .ok (onNamesReply c m)
  | .endOfNames => .ok (.goOn (onEndOfNames c m))
  | .error => .ok (onError c)
  | .invite => .ok (.goOn (onInvite c m))
  | .pong => .ok (.goOn { c with lastPong := now })
  | .nickInUse => .ok (.goOn (onNickInUse c))
  | .isupport => onIsupport c m
  | .endOfMotd => .ok (.goOn (onEndOfMotd c))
  | .other => .ok (.goOn c)

/-- The message a line is taken apart into. -/
def Message.ofLine (line : Bytes) : Option Message :=
  (parseIrcLine line).map fun l => { ident := l.ident, cmd := l.cmd, given := l.params }

namespace Irc

/-- The processing of a line: take it apart and run the handler. An invalid line is ignored. -/
def processLine (c : Irc) (now : ℤ) (line : Bytes) : Except Fault Handled :=
  match Message.ofLine line with
  | none => .ok (.goOn c)
  | some m => handle c now m (.ofBytes m.cmd)

/-- The conversion of a received line, which keeps the line if there is no converter. -/
def convertLine (c : Irc) (line : Bytes) : Bytes × Irc :=
  match c.convS2m with
  | some convert => ((convert line).1, { c with isLineConverted := (convert line).2 })
  | none => (line, c)

/-- One iteration of the main loop, for a nonempty line received at a time. -/
def receiveLine (c : Irc) (now : ℤ) (line : Bytes) : Except Fault Handled :=
  let r := c.convertLine line
  (r.2.sendEvent (.srvincoming r.1 r.2.isLineConverted)).processLine now r.1

end Irc

end Meowbot
