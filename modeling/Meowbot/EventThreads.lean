import Meowbot.Membership

set_option relaxedAutoImplicit false
set_option autoImplicit false

/-!
# The main thread and the event threads

The main thread of a connection handles the messages of the server in order and queues events. Any
number of event threads take events from the queue, run the handlers of the bot on them and then
`irc::ircbot_event_handler`, which removes a user who has quit from the user lists. After a QUIT
the main thread pauses until that is done, but not for long: it goes on after a hundred looks at
the flag. The model takes one step for every section in which a thread holds a lock of the lists,
and for every access to the queue or to the flag. Only messages about other users in channels of
the bot are received; they change neither the nick of the bot nor its channels.

The events of the `Irc` object that have not been taken yet are the queue.

## Main definitions

* `Meowbot.Bot` — the state; `Meowbot.MainPc`, `Meowbot.Worker` — where the threads are.
* `Meowbot.Bot.step` — a step of one of the threads.
* `Meowbot.Bot.Quiet` — all messages and events have been handled.

## Main results

* `Meowbot.Bot.run_handle` — a main thread that is not interrupted does what the handlers do.
-/

namespace Meowbot

open Runs

/-! ## States -/

/-- Where the main thread is. The places are those between which an event thread may change the
tables: in front of a handler, in the search of a NICK through the channels, and in the wait after a
QUIT, which counts its rounds. -/
inductive MainPc where
  /-- It is about to read the next line. -/
  | reading
  /-- It is about to handle a message. -/
  | handling (m : Message)
  /-- It has found the user of a KICK. -/
  | kicking (m : Message) (kickedUser : IrcUser)
  /-- It is about to look for the user of a NICK in the channels that are left. -/
  | searching (m : Message) (chans : List Bytes)
  /-- It has found the user of a NICK in a channel. -/
  | found (m : Message) (chan : Bytes) (chans : List Bytes)
  /-- It is about to queue an event. -/
  | reporting (e : IrcEvent)
  /-- It has looked at the flag so many times. -/
  | pausing (cnt : ℕ)

/-- Where an event thread is. It lets the main thread go on in a step of its own, behind the
handlers of a QUIT. -/
inductive Worker where
  /-- It is about to take an event. -/
  | idle
  /-- It runs the handlers of an event. -/
  | running (e : IrcEvent)
  /-- It is about to let the main thread go on. -/
  | resuming
  deriving DecidableEq

/-- The threads of a connection and what they share: the state of the connection with its queue of
events, and the flag by which an event thread lets the main thread go on. The last field is not in
the source: it says what the tables should show. -/
structure Bot where
  irc : Irc
  /-- `pause_irc_main_thread_on`. -/
  pauseOn : Bool
  pc : MainPc
  workers : List Worker
  /-- What the messages received so far say. -/
  heard : List Change

/-- A step of one of the threads. Only the received line is chosen from outside; all else follows
from where the thread is. -/
inductive Action where
  /-- The main thread receives a line. -/
  | receive (line : Bytes)
  /-- The main thread goes on. -/
  | main
  /-- An event thread takes an event. -/
  | take (i : ℕ)
  /-- An event thread has run the handlers of its event. -/
  | handled (i : ℕ)
  /-- An event thread lets the main thread go on. -/
  | resume (i : ℕ)
  deriving DecidableEq

/-- What a message says about users, for the five commands that say something. Mode characters in
front of a nick are not part of it. -/
def Message.change (m : Message) : Option Change :=
  match Command.ofBytes m.cmd with
  | .join => some (.joins (m.arg 0) (bareNick m.origin.nick))
  | .part => some (.leaves (m.arg 0) (bareNick m.origin.nick))
  | .kick => some (.leaves (m.arg 0) (bareNick (m.arg 1)))
  | .nick => some (.renames (bareNick m.origin.nick) (bareNick (m.arg 0)))
  | .quit => some (.quits (bareNick m.origin.nick))
  | _ => none

/-- A message is about another user, and in a channel of the bot: it has the parameters that its
handler reads, the nick is not empty and not that of the bot, and the channel is one that the bot is
in. Messages of other commands are not meant. -/
def Irc.AboutOther (c : Irc) (m : Message) : Prop :=
  match Command.ofBytes m.cmd with
  | .join => 1 ≤ m.nparam ∧ m.origin.nick ≠ [] ∧ m.origin.nick ≠ c.nick ∧ c.lists.InChans (m.arg 0)
  | .part => 1 ≤ m.nparam ∧ m.origin.nick ≠ [] ∧ m.origin.nick ≠ c.nick ∧ c.lists.InChans (m.arg 0)
  | .kick => 2 ≤ m.nparam ∧ m.arg 1 ≠ [] ∧ m.arg 1 ≠ c.nick ∧ c.lists.InChans (m.arg 0)
  | .nick => 1 ≤ m.nparam ∧ m.origin.nick ≠ [] ∧ m.origin.nick ≠ c.nick ∧ m.arg 0 ≠ []
  | .quit => m.origin.nick ≠ [] ∧ m.origin.nick ≠ c.nick
  | _ => False

instance (c : Irc) (m : Message) : Decidable (c.AboutOther m) := by
  unfold Irc.AboutOther
  generalize Command.ofBytes m.cmd = cmd
  cases cmd <;> infer_instance

namespace Bot

/-- A connection in some state, with so many event threads, that has handled all events. -/
def start (c : Irc) (n : ℕ) : Bot :=
  { irc := { c with events := [] }, pauseOn := false, pc := .reading,
    workers := List.replicate n .idle, heard := [] }

/-- All messages received and all events have been handled. -/
def Quiet (b : Bot) : Prop :=
  b.pc = .reading ∧ b.irc.events = [] ∧ ∀ w ∈ b.workers, w = .idle

instance (b : Bot) : Decidable b.Quiet :=
  have : Decidable (b.pc = .reading) :=
    match b.pc with
    | .reading => isTrue rfl
    | .handling _ | .kicking _ _ | .searching _ _ | .found _ _ _ | .reporting _ | .pausing _ =>
      isFalse nofun
  inferInstanceAs (Decidable (_ ∧ _))

/-! ## Steps -/

/-- A received line, reported and taken apart. It is converted first, and the event for the raw line
is sent before its handler runs. -/
def receive (b : Bot) (line : Bytes) : Option Bot :=
  match b.pc, Message.ofLine (b.irc.convertLine line).1 with
  | .reading, some m =>
    if b.irc.status ≠ .disconnected ∧ b.irc.AboutOther m then
      some { b with
        irc := (b.irc.convertLine line).2.sendEvent
          (.srvincoming (b.irc.convertLine line).1 (b.irc.convertLine line).2.isLineConverted)
        pc := .handling m
        heard := b.heard ++ m.change.toList }
    else none
  | _, _ => none

/-- The first step of a handler. JOIN and PART change the table at once; KICK and NICK first look
for the user, and QUIT sets the flag that it waits for, and leaves the table to the event thread.
-/
def beginHandler (b : Bot) (m : Message) : Command → Option Bot
  | .join => some { b with
      irc := b.irc.addToChanuserlist (m.arg 0) m.origin.nick m.ident
      pc := .reporting (.join m.origin (m.arg 0)) }
  | .part => some { b with
      irc := b.irc.delFromChanuserlist (m.arg 0) m.origin.nick
      pc := .reporting (.part m.origin (m.arg 0) (m.arg 1)) }
  | .kick =>
    match (b.irc.getChanuserlist (m.arg 0)).find? (m.arg 1) with
    | none => some { b with irc := b.irc.refreshChanuserlist (m.arg 0), pc := .reading }
    | some kickedUser => some { b with pc := .kicking m kickedUser }
  | .nick => some { b with pc := .searching m b.irc.chans }
  | .quit => some { b with pauseOn := true, pc := .reporting (.quit m.origin (m.arg 0)) }
  | _ => none

/-- A step of the main thread, other than receiving a line. For a NICK each channel takes two steps,
one for the search and one for the change. -/
def mainStep (b : Bot) : Option Bot :=
  match b.pc with
  | .reading => none
  | .handling m => b.beginHandler m (.ofBytes m.cmd)
  | .kicking m kickedUser => some { b with
      irc := b.irc.delFromChanuserlist (m.arg 0) (m.arg 1)
      pc := .reporting (.kick m.origin (m.arg 0) kickedUser (m.arg 2)) }
  | .searching m [] => some { b with pc := .reporting (.nick m.origin (m.arg 0)) }
  | .searching m (chan :: chans) =>
    some { b with
      pc := if b.irc.isUserJoined chan m.origin.nick then .found m chan chans
        else .searching m chans }
  | .found m chan chans =>
    let newnick2 := match b.irc.getUserData chan m.origin.nick with
      | some user => user.chanmode ++ m.arg 0
      | none => m.arg 0
    some { b with
      irc := (b.irc.delFromChanuserlist chan m.origin.nick).addToChanuserlist chan newnick2 m.ident
      pc := .searching m chans }
  | .reporting e => some { b with
      irc := b.irc.sendEvent e
      pc := match e with
        | .quit _ _ => .pausing 0
        | _ => .reading }
  | .pausing cnt =>
    if b.pauseOn ∧ cnt < 100 then some { b with pc := .pausing (cnt + 1) }
    else some { b with pauseOn := false, pc := .reading }

/-- What an event thread does to the lists when the handlers of an event are done. -/
def finishEvent (c : Irc) : IrcEvent → Irc
  | .quit who _ => c.ircbotEventHandler who.nick
  | _ => c

/-- A step of one of the threads. Events are taken in the order of the queue; what is done at the
end of the handlers of a QUIT, the removal of the nick from all channels, is part of the step that
ends them. -/
def step (b : Bot) : Action → Option Bot
  | .receive line => b.receive line
  | .main => b.mainStep
  | .take i =>
    match b.workers[i]?, b.irc.events with
    | some .idle, e :: events => some { b with
        irc := { b.irc with events }, workers := b.workers.set i (.running e) }
    | _, _ => none
  | .handled i =>
    match b.workers[i]? with
    | some (.running e) => some { b with
        irc := finishEvent b.irc e
        workers := b.workers.set i (match e with
          | .quit _ _ => .resuming
          | _ => .idle) }
    | _ => none
  | .resume i =>
    match b.workers[i]? with
    | some .resuming => some { b with pauseOn := false, workers := b.workers.set i .idle }
    | _ => none

/-! ## A main thread that is not interrupted -/

/-- The loop of the NICK handler, channel by channel.

**Proof sketch.** By induction on the channels. If the user is found in one, the thread renames it
in a further step; otherwise it goes on to the next one. -/
lemma run_searching (b : Bot) (m : Message) (chans : List Bytes) (hpc : b.pc = .searching m chans) :
    ∃ as, (∀ a ∈ as, a = .main) ∧ Run (Fun step) b as { b with
      irc := chans.foldl (fun c chan => renameIn c m.origin.nick (m.arg 0) m.ident chan) b.irc
      pc := .searching m [] } := by
  induction chans generalizing b with
  | nil =>
    refine ⟨[], fun a ha => absurd ha List.not_mem_nil, ?_⟩
    rw [← hpc]
    exact .nil b
  | cons chan chans ih =>
    by_cases hjoined : b.irc.isUserJoined chan m.origin.nick
    · have hfind : b.step .main = some { b with pc := .found m chan chans } := by
        simp only [step, mainStep, hpc, if_pos hjoined]
      have hrename : step { b with pc := .found m chan chans } .main = some { b with
          irc := renameIn b.irc m.origin.nick (m.arg 0) m.ident chan
          pc := .searching m chans } := by
        rw [renameIn, if_pos hjoined]
        rfl
      obtain ⟨as, has, hrun⟩ := ih { b with
        irc := renameIn b.irc m.origin.nick (m.arg 0) m.ident chan, pc := .searching m chans } rfl
      exact ⟨.main :: .main :: as, by simpa using has, .cons hfind (.cons hrename hrun)⟩
    · have hskip : b.step .main = some { b with pc := .searching m chans } := by
        simp only [step, mainStep, hpc, if_neg hjoined]
      obtain ⟨as, has, hrun⟩ := ih { b with pc := .searching m chans } rfl
      refine ⟨.main :: as, by simpa using has, .cons hskip ?_⟩
      rw [List.foldl_cons, renameIn, if_neg hjoined]
      exact hrun

/-- The end of the NICK handler. -/
lemma run_renamed {b : Bot} {m : Message} (hpc : b.pc = .searching m []) :
    Run (Fun step) b [.main, .main]
      { b with irc := b.irc.sendEvent (.nick m.origin (m.arg 0)), pc := .reading } := by
  have hend : b.step .main = some { b with pc := .reporting (.nick m.origin (m.arg 0)) } := by
    simp only [step, mainStep, hpc]
  exact .cons hend (.cons rfl (.nil _))

/-- **A main thread that is not interrupted** does with a message what its handler does.

**Proof sketch.** By cases on the command. Each handler is a sequence of steps of the main thread
only, which change the state of the connection as the handler does; the loop of NICK is
`run_searching`. -/
lemma run_handle (b : Bot) (now : ℤ) {m : Message} (hpc : b.pc = .handling m)
    (hm : b.irc.AboutOther m) :
    ∃ as b', (∀ a ∈ as, a = .main) ∧ Run (Fun step) b as b' ∧
      (b'.pc = .reading ∨ b'.pc = .pausing 0) ∧
      handle b.irc now m (.ofBytes m.cmd) = .ok (.goOn b'.irc) := by
  unfold Irc.AboutOther at hm
  have hbegin : b.step .main = b.beginHandler m (.ofBytes m.cmd) := by
    simp only [step, mainStep, hpc]
  rcases hcmd : Command.ofBytes m.cmd <;> rw [hcmd] at hm hbegin <;> try exact hm.elim
  case join =>
    obtain ⟨hn, -, hnick, -⟩ := hm
    refine ⟨[.main, .main], _, by simp, .cons hbegin (.cons rfl (.nil _)), .inl rfl, ?_⟩
    simp only [handle, onJoin, if_neg (by omega : ¬ m.nparam < 1), if_neg hnick]
  case part =>
    obtain ⟨hn, -, hnick, -⟩ := hm
    refine ⟨[.main, .main], _, by simp, .cons hbegin (.cons rfl (.nil _)), .inl rfl, ?_⟩
    simp only [handle, onPart, if_neg (by omega : ¬ m.nparam < 1), if_neg hnick]
  case kick =>
    obtain ⟨hn, -, hnick, -⟩ := hm
    rcases hfind : (b.irc.getChanuserlist (m.arg 0)).find? (m.arg 1) with _ | user
    · simp only [beginHandler, hfind] at hbegin
      refine ⟨[.main], _, by simp, .cons hbegin (.nil _), .inl rfl, ?_⟩
      simp only [handle, onKick, if_neg (by omega : ¬ m.nparam < 2), hfind]
    · simp only [beginHandler, hfind] at hbegin
      refine ⟨[.main, .main, .main], _, by simp, .cons hbegin (.cons rfl (.cons rfl (.nil _))),
        .inl rfl, ?_⟩
      simp only [handle, onKick, if_neg (by omega : ¬ m.nparam < 2), hfind, if_neg hnick]
  case nick =>
    obtain ⟨hn, -, hnick, -⟩ := hm
    obtain ⟨as, has, hrun⟩ := run_searching { b with pc := .searching m b.irc.chans } m b.irc.chans rfl
    refine ⟨.main :: (as ++ [.main, .main]), _, by simpa [or_imp, forall_and] using has,
      .cons hbegin (hrun.trans (run_renamed rfl)), .inl rfl, ?_⟩
    simp only [handle, onNick, if_neg (by omega : ¬ m.nparam < 1), if_neg hnick]
  case quit =>
    obtain ⟨-, hnick⟩ := hm
    refine ⟨[.main, .main], _, by simp, .cons hbegin (.cons rfl (.nil _)), .inr rfl, ?_⟩
    simp only [handle, onQuit, if_neg hnick]

end Bot

end Meowbot
