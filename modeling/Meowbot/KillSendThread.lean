import Meowbot.SendThread

set_option relaxedAutoImplicit false
set_option autoImplicit false

/-!
# Stopping the send thread (`irc::kill_send_thread`, `irc::send_thread`)

`kill_send_thread` clears `send_ready`, signals the condition variable and joins the thread, without
the mutex. The thread tests the flag behind the wait and behind every line, and it sets the flag
when it starts. If the signal comes between such a test and the wait, nobody gets it, and the thread
waits until a line is queued; if the flag is cleared before the thread has set it, the thread never
sees it cleared.

Here, in contrast to the transition system of the send queue, every operation on the mutex, the
condition variable, the flag or the queue is a step of its own, and so is every part of
`kill_send_thread`, which is called once. The wait may end without a signal.

## Main definitions

* `Meowbot.SenderPc`, `Meowbot.KillerPc`, `Meowbot.SendHolder` — where the threads are.
* `Meowbot.SendControl`, `Meowbot.SendControl.step` — what they share, and their steps.
* `Meowbot.SendControl.Stuck` — the thread is waited for and waits.
* `Meowbot.SendControl.InTime` — the killer comes neither too early nor between a test and the wait.

## Main results

* `Meowbot.SendControl.senderStep_spec`, `Meowbot.SendControl.killStep_cases` — what a step of the
  send thread and a step of the killer may do.
* `Meowbot.SendControl.Stoppable.step` — a thread that is stopped in time stays away from the wait.
* `Meowbot.SendControl.no_stuck` — no run gets stuck in which the thread is stopped in time.
-/

namespace Meowbot

open Runs StableSort

/-! ## States and steps -/

/-- Where the send thread is: what it does next. The tests of the flag are places of their own, so
it may be cleared between them and the next step. -/
inductive SenderPc where
  /-- Lock the mutex for the first time. -/
  | starting
  /-- Set `send_ready`. -/
  | setting
  /-- Give the mutex back and wait, in `pthread_cond_wait`. -/
  | toWait
  /-- In `pthread_cond_wait`, with a signal pending or not. -/
  | waiting (signaled : Bool)
  /-- Lock the mutex, in `pthread_cond_wait`, after a wake-up. -/
  | waking
  /-- Test `send_ready` behind the wait. -/
  | testing
  /-- Look at the queue and at the clock. -/
  | looking
  /-- Give the mutex back in front of the sleep. -/
  | toSleep
  /-- Sleep, and lock the mutex. -/
  | sleeping
  | sending
  /-- Test `send_ready` behind a line. -/
  | sent
  /-- Clear `send_ready`. -/
  | leaving
  /-- Give the mutex back for the last time. -/
  | unlocking
  | returned
  deriving DecidableEq

/-- Where `kill_send_thread` is. It is called once, and does not take the mutex. -/
inductive KillerPc where
  /-- Not called yet. -/
  | idle
  /-- The flag is cleared; send the signal. -/
  | cleared
  /-- In `pthread_join`. -/
  | joining
  | joined
  deriving DecidableEq

/-- Who has the mutex: the send thread, or a call of `add_to_send_queue` at some place. -/
inductive SendHolder where
  | sender
  | locked | queued | signaled
  deriving DecidableEq

/-- The variables of the send queue and of the threads. Times are in seconds, and the lines that
have been sent are kept in their order. -/
structure SendControl where
  pc : SenderPc
  killer : KillerPc
  /-- `send_mutex` -/
  mutex : Option SendHolder
  sendReady : Bool
  sendQueue : List SendqData
  sendqAdded : Bool
  enableFloodProtection : Bool
  nextSend : ℤ
  prevNow : ℤ
  now : ℤ
  /-- All lines sent so far. -/
  sent : List SendqData
  deriving DecidableEq

/-- A step of the send thread, of `kill_send_thread`, or of a call of `add_to_send_queue`, which
locks the mutex, queues its line, signals and unlocks. -/
inductive SendLabel where
  /-- The send thread goes on, with the clock if it reads it. -/
  | sender (clock : ℤ)
  /-- `kill_send_thread` goes on. -/
  | kill
  /-- A call of `add_to_send_queue` that has found flood protection on locks the mutex. -/
  | lock
  | queue (d : SendqData)
  | signal
  | unlock
  /-- Flood protection is switched on or off. -/
  | protect (on : Bool)
  deriving DecidableEq

/-- `pthread_cond_signal`, which is lost on a thread that is not waiting. -/
def SenderPc.signal : SenderPc → SenderPc
  | .waiting _ => .waiting true
  | pc => pc

/-- The send thread has the mutex. -/
def SenderPc.holds : SenderPc → Bool
  | .setting | .toWait | .testing | .looking | .toSleep | .sending | .sent | .leaving
  | .unlocking => true
  | .starting | .waiting _ | .waking | .sleeping | .returned => false

namespace SendControl

/-- The state after `create_send_thread` has cleared the queue and created the thread. -/
def init : SendControl :=
  { pc := .starting, killer := .idle, mutex := none, sendReady := false, sendQueue := [],
    sendqAdded := false, enableFloodProtection := true, nextSend := 0, prevNow := 0, now := 0,
    sent := [] }

/-- `pthread_mutex_lock`, which blocks as long as somebody has the mutex. -/
def lock (s : SendControl) (h : SendHolder) : Option SendControl :=
  if s.mutex = none then some { s with mutex := some h } else none

/-- The timer `next_send` when the clock has been read. -/
def timerAt (s : SendControl) (clock : ℤ) : ℤ :=
  let timer := if s.enableFloodProtection then s.nextSend else clock
  if timer < clock then clock else timer

/-- The head of the inner loop. -/
def look (s : SendControl) (clock : ℤ) : SendControl :=
  if s.sendQueue = [] then { s with pc := .toWait }
  else if 10 ≤ s.timerAt clock - clock then
    if clock < s.prevNow then { s with now := clock, nextSend := clock, pc := .sending }
    else { s with now := clock, nextSend := s.timerAt clock, pc := .toSleep }
  else { s with now := clock, nextSend := s.timerAt clock, pc := .sending }

/-- Sort the queue if lines have been added, and send its first line. The timer goes on by two
seconds and the penalty of the line. -/
def sendFront (s : SendControl) : Option SendControl :=
  match if s.sendqAdded then sortDesc SendqData.priority s.sendQueue else s.sendQueue with
  | [] => none
  | d :: rest => some { s with
      sendQueue := rest
      sendqAdded := false
      sent := s.sent ++ [d]
      nextSend := s.nextSend + 2 + penalty d.line
      prevNow := s.now
      pc := .sent }

/-- `send_thread`: each place is followed by the next one of the source. The flag is tested at the
head of each loop, and the mutex is given back in the waits and in the sleep only. -/
def senderStep (s : SendControl) (clock : ℤ) : Option SendControl :=
  match s.pc with
  | .starting => (s.lock .sender).map fun s => { s with pc := .setting }
  | .setting => some { s with sendReady := true, nextSend := 0, prevNow := 0, pc := .toWait }
  | .toWait => some { s with mutex := none, pc := .waiting false }
  | .waiting _ => some { s with pc := .waking }
  | .waking => (s.lock .sender).map fun s => { s with pc := .testing }
  | .testing | .sent => some { s with pc := if s.sendReady then .looking else .leaving }
  | .looking => some (s.look clock)
  | .toSleep => some { s with mutex := none, pc := .sleeping }
  | .sleeping => (s.lock .sender).map fun s => { s with now := clock, pc := .sending }
  | .sending => s.sendFront
  | .leaving => some { s with sendReady := false, pc := .unlocking }
  | .unlocking => some { s with mutex := none, pc := .returned }
  | .returned => none

/-- `kill_send_thread`: clear the flag, signal, join, and empty the queue. The join is over only if
the thread has returned. -/
def killStep (s : SendControl) : Option SendControl :=
  match s.killer with
  | .idle => some { s with sendReady := false, killer := .cleared }
  | .cleared => some { s with pc := s.pc.signal, killer := .joining }
  | .joining =>
    if s.pc = .returned then some { s with sendQueue := [], sendqAdded := false, killer := .joined }
    else none
  | .joined => none

/-- The step function. The callers of `add_to_send_queue` are as one, since they hold the mutex from
their first step to their last; an empty line is not queued. -/
def step (s : SendControl) : SendLabel → Option SendControl
  | .sender clock => s.senderStep clock
  | .kill => s.killStep
  | .lock => s.lock .locked
  | .queue d =>
    if s.mutex = some .locked ∧ d.line ≠ [] then
      some { s with mutex := some .queued, sendQueue := s.sendQueue ++ [d], sendqAdded := true }
    else none
  | .signal =>
    if s.mutex = some .queued then some { s with mutex := some .signaled, pc := s.pc.signal }
    else none
  | .unlock => if s.mutex = some .signaled then some { s with mutex := none } else none
  | .protect on => some { s with enableFloodProtection := on }

/-! ## Getting stuck -/

/-- **Stuck**: the killer has cleared the flag and sent its signal and is joining the thread, which
is blocked in the wait with no signal pending. -/
def Stuck (s : SendControl) : Prop := s.killer = .joining ∧ s.pc = .waiting false

/-- The thread comes to the wait without another test of the flag. -/
def HeadsForWait (s : SendControl) : Prop :=
  s.pc = .toWait ∨ s.pc = .looking ∧ s.sendQueue = []

/-- **The thread is stopped in time**: when the killer clears the flag, the thread has set it, and
when the killer sends its signal, the thread does not come to the wait without another test of the
flag. -/
def InTime (s : SendControl) : SendLabel → Prop
  | .kill => (s.killer = .idle → s.pc ≠ .starting ∧ s.pc ≠ .setting) ∧
      (s.killer = .cleared → ¬ s.HeadsForWait)
  | _ => True

instance (s : SendControl) : Decidable s.HeadsForWait :=
  inferInstanceAs (Decidable (_ ∨ _ ∧ s.sendQueue = []))

instance (s : SendControl) : (l : SendLabel) → Decidable (s.InTime l)
  | .kill => inferInstanceAs (Decidable ((_ → _ ∧ _) ∧ (_ → ¬ s.HeadsForWait)))
  | .sender _ | .lock | .queue _ | .signal | .unlock | .protect _ => .isTrue trivial

/-- A thread that is being stopped has seen, or will see, that the flag is cleared. -/
structure Stoppable (s : SendControl) : Prop where
  cleared : s.killer ≠ .idle → s.sendReady = false ∧ s.pc ≠ .starting ∧ s.pc ≠ .setting
  joining : s.killer = .joining → s.pc ≠ .waiting false ∧ ¬ s.HeadsForWait

variable {s t : SendControl}

/-- `pthread_mutex_lock` has taken the mutex. -/
lemma lock_eq {h : SendHolder} (hlock : s.lock h = some t) :
    s.mutex = none ∧ t = { s with mutex := some h } := by
  rw [lock] at hlock
  split_ifs at hlock with hfree
  exact ⟨hfree, (Option.some.inj hlock).symm⟩

/-- What a step of the send thread may do, whatever its place is: how it gets to a wait, what it
does to the flag and to the mutex. The invariants are derived from this. -/
structure SenderMove (s t : SendControl) : Prop where
  killer : t.killer = s.killer
  started : t.pc ≠ .starting ∧ (t.pc = .setting → s.pc = .starting)
  /-- The flag is set at the start only. -/
  sendReady : t.sendReady = true → s.sendReady = true ∨ s.pc = .setting
  /-- The wait is entered behind the start and when there is nothing to do. -/
  toWait : t.pc = .toWait → s.pc = .setting ∨ s.pc = .looking ∧ s.sendQueue = []
  waiting : t.pc = .waiting false → s.pc = .toWait
  /-- The loop is entered with the flag set. -/
  looking : t.pc = .looking → s.sendReady = true
  /-- The mutex stays with its holder, or it is taken, or it is given back. -/
  mutex : t.mutex = s.mutex ∧ t.pc.holds = s.pc.holds ∨
    s.mutex = none ∧ t.mutex = some .sender ∧ t.pc.holds ∨
    s.pc.holds ∧ t.mutex = none ∧ ¬ t.pc.holds

/-- A look at the queue leads to the wait, or to a sleep or a line. -/
lemma look_spec (s : SendControl) (clock : ℤ) :
    ∃ pc timer now, s.look clock = { s with pc, nextSend := timer, now } ∧
      (s.sendQueue = [] ∧ pc = .toWait ∨ pc = .toSleep ∨ pc = .sending) := by
  unfold look
  split_ifs with hqueue
  · exact ⟨_, _, _, rfl, .inl ⟨hqueue, rfl⟩⟩
  · exact ⟨_, _, _, rfl, .inr (.inr rfl)⟩
  · exact ⟨_, _, _, rfl, .inr (.inl rfl)⟩
  · exact ⟨_, _, _, rfl, .inr (.inr rfl)⟩

/-- A line that is sent is taken from the queue. -/
lemma sendFront_spec (h : s.sendFront = some t) :
    ∃ rest sent nextSend, t = { s with
      sendQueue := rest, sendqAdded := false, sent, nextSend, prevNow := s.now, pc := .sent } := by
  rw [sendFront] at h
  split at h
  · cases h
  · exact ⟨_, _, _, (Option.some.inj h).symm⟩

/-- **What the send thread may do.**

**Proof sketch.** By the place of the thread. Each of the parts is about the place where the step
leads to, and is read off there; only the look at the queue and the sending of a line need their own
lemmas. -/
lemma senderStep_spec {clock : ℤ} (h : s.senderStep clock = some t) : s.SenderMove t := by
  cases hpc : s.pc with
  | starting | waking | sleeping =>
    rw [senderStep, hpc] at h
    obtain ⟨u, hu, rfl⟩ := Option.map_eq_some_iff.mp h
    obtain ⟨hfree, rfl⟩ := lock_eq hu
    constructor <;> simp [hpc, hfree, SenderPc.holds]
  | setting | toWait | waiting | toSleep | leaving | unlocking =>
    rw [senderStep, hpc] at h
    obtain rfl := Option.some.inj h
    constructor <;> simp [hpc, SenderPc.holds]
  | testing | sent =>
    rw [senderStep, hpc] at h
    obtain rfl := Option.some.inj h
    constructor <;> cases s.sendReady <;> simp [hpc, SenderPc.holds]
  | looking =>
    rw [senderStep, hpc] at h
    obtain rfl := Option.some.inj h
    obtain ⟨pc, timer, now, heq, hnext⟩ := s.look_spec clock
    rw [heq]
    rcases hnext with ⟨hqueue, rfl⟩ | rfl | rfl
    · constructor <;> simp [hpc, hqueue, SenderPc.holds]
    · constructor <;> simp [hpc, SenderPc.holds]
    · constructor <;> simp [hpc, SenderPc.holds]
  | sending =>
    rw [senderStep, hpc] at h
    obtain ⟨rest, sent, nextSend, rfl⟩ := sendFront_spec h
    constructor <;> simp [hpc, SenderPc.holds]
  | returned =>
    rw [senderStep, hpc] at h
    cases h

/-- **What the killer may do**: clear the flag, signal the thread, or go on when it has returned.

**Proof sketch.** By the place of the killer, which has one step at each. -/
lemma killStep_cases (h : s.killStep = some t) :
    (s.killer = .idle ∧ t = { s with sendReady := false, killer := .cleared }) ∨
      (s.killer = .cleared ∧ t = { s with pc := s.pc.signal, killer := .joining }) ∨
      (s.killer = .joining ∧ s.pc = .returned ∧
        t = { s with sendQueue := [], sendqAdded := false, killer := .joined }) := by
  rw [killStep] at h
  cases hkiller : s.killer with
  | idle =>
    rw [hkiller] at h
    exact .inl ⟨rfl, (Option.some.inj h).symm⟩
  | cleared =>
    rw [hkiller] at h
    exact .inr (.inl ⟨rfl, (Option.some.inj h).symm⟩)
  | joining =>
    rw [hkiller] at h
    dsimp only at h
    split_ifs at h with hpc
    exact .inr (.inr ⟨rfl, hpc, (Option.some.inj h).symm⟩)
  | joined =>
    rw [hkiller] at h
    cases h

/-- A signal moves a thread that waits, and no other. -/
lemma signal_spec (pc : SenderPc) :
    pc.signal ≠ .waiting false ∧ pc.signal.holds = pc.holds ∧
      (∀ pc', (∀ b, pc' ≠ .waiting b) → (pc.signal = pc' ↔ pc = pc')) := by
  cases pc with
  | waiting b =>
    refine ⟨by simp [SenderPc.signal], rfl, fun pc' h => ?_⟩
    exact iff_of_false (fun heq => h true heq.symm) fun heq => h b heq.symm
  | starting | setting | toWait | waking | testing | looking | toSleep | sleeping | sending | sent
  | leaving | unlocking | returned =>
    exact ⟨by simp [SenderPc.signal], rfl, fun pc' _ => Iff.rfl⟩

/-- A signal does not change whether the thread comes to the wait. -/
lemma headsForWait_signal (hpc : t.pc = s.pc.signal) (hqueue : t.sendQueue = s.sendQueue) :
    t.HeadsForWait ↔ s.HeadsForWait := by
  have hsame := (signal_spec s.pc).2.2
  rw [HeadsForWait, HeadsForWait, hpc, hqueue, hsame .toWait (by simp), hsame .looking (by simp)]

/-! ## The invariants -/

/-- A signal to a thread that is behind the start. -/
lemma Stoppable.of_signal (hpc : t.pc = s.pc.signal) (hqueue : t.sendQueue = s.sendQueue)
    (hcleared : t.killer ≠ .idle → t.sendReady = false ∧ s.pc ≠ .starting ∧ s.pc ≠ .setting)
    (hheads : t.killer = .joining → ¬ s.HeadsForWait) : t.Stoppable := by
  obtain ⟨hnot, -, hsame⟩ := signal_spec s.pc
  constructor
  · intro hkiller
    rw [hpc, ne_eq, ne_eq, hsame .starting (by simp), hsame .setting (by simp)]
    exact hcleared hkiller
  · intro hkiller
    rw [hpc, headsForWait_signal hpc hqueue]
    exact ⟨hnot, hheads hkiller⟩

/-- **A thread that is stopped in time** stays away from the wait.

**Proof sketch.** By cases on the step. The flag is set by the thread at its start only, where it is
not any more when the killer clears the flag. A test of the cleared flag leads out of the loops, and
a signal wakes a thread that waits. -/
lemma Stoppable.step {l : SendLabel} (hs : s.Stoppable) (hl : s.InTime l) (h : s.step l = some t) :
    t.Stoppable := by
  cases l with
  | sender clock =>
    have hmove := senderStep_spec h
    constructor
    · rw [hmove.killer]
      intro hkiller
      obtain ⟨hready, hstarting, hsetting⟩ := hs.cleared hkiller
      refine ⟨?_, hmove.started.1, fun hpc => hstarting (hmove.started.2 hpc)⟩
      rw [← Bool.not_eq_true]
      intro hset
      rcases hmove.sendReady hset with hset | hpc
      · rw [hready] at hset
        cases hset
      · exact hsetting hpc
    · rw [hmove.killer]
      intro hkiller
      obtain ⟨hready, -, hsetting⟩ := hs.cleared (by rw [hkiller]; decide)
      obtain ⟨hwaiting, hheads⟩ := hs.joining hkiller
      refine ⟨fun hpc => hheads (.inl (hmove.waiting hpc)), ?_⟩
      rintro (hpc | ⟨hpc, -⟩)
      · rcases hmove.toWait hpc with hpc | hpc
        · exact hsetting hpc
        · exact hheads (.inr hpc)
      · have := hmove.looking hpc
        rw [hready] at this
        cases this
  | kill =>
    obtain ⟨hkiller, rfl⟩ | ⟨hkiller, rfl⟩ | ⟨hkiller, -, rfl⟩ := killStep_cases h
    · exact ⟨fun _ => ⟨rfl, hl.1 hkiller⟩, fun h => by cases h⟩
    · have hcleared := hs.cleared (by rw [hkiller]; decide)
      exact .of_signal rfl rfl (fun _ => hcleared) fun _ => hl.2 hkiller
    · exact ⟨fun _ => hs.cleared (by rw [hkiller]; decide), fun h => by cases h⟩
  | lock =>
    obtain ⟨-, rfl⟩ := lock_eq h
    exact ⟨hs.cleared, hs.joining⟩
  | queue d =>
    rw [SendControl.step] at h
    split_ifs at h
    obtain rfl := Option.some.inj h
    refine ⟨hs.cleared, fun hkiller => ⟨(hs.joining hkiller).1, ?_⟩⟩
    rintro (hpc | ⟨-, hqueue⟩)
    · exact (hs.joining hkiller).2 (.inl hpc)
    · simp at hqueue
  | signal =>
    rw [SendControl.step] at h
    split_ifs at h
    obtain rfl := Option.some.inj h
    exact .of_signal rfl rfl hs.cleared fun hkiller => (hs.joining hkiller).2
  | unlock =>
    rw [SendControl.step] at h
    split_ifs at h
    obtain rfl := Option.some.inj h
    exact ⟨hs.cleared, hs.joining⟩
  | protect on =>
    obtain rfl := Option.some.inj h
    exact ⟨hs.cleared, hs.joining⟩

/-- A thread that is stopped in time is not stuck. -/
lemma Stoppable.not_stuck (hs : s.Stoppable) : ¬ s.Stuck :=
  fun h => (hs.joining h.1).1 h.2

/-- The send thread has the mutex exactly where its place says so. -/
def Locked (s : SendControl) : Prop := s.mutex = some .sender ↔ s.pc.holds

/-- A call of `add_to_send_queue` changes the mutex among its own places. -/
lemma Locked.of_adder (hs : s.Locked) (hfrom : s.mutex ≠ some .sender)
    (hto : t.mutex ≠ some .sender) (hpc : t.pc.holds = s.pc.holds) : t.Locked := by
  rw [Locked, hpc]
  exact iff_of_false hto fun h => hfrom (hs.mpr h)

/-- **The mutex** is kept by every step with the thread that has it.

**Proof sketch.** By cases on the step. Only steps of the thread and of `add_to_send_queue` take the
mutex, if it is free, or give it back. -/
lemma Locked.step {l : SendLabel} (hs : s.Locked) (h : s.step l = some t) : t.Locked := by
  cases l with
  | sender clock =>
    rcases (senderStep_spec h).mutex with ⟨hm, hpc⟩ | ⟨-, hm, hpc⟩ | ⟨-, hm, hpc⟩
    · rw [Locked, hm, hpc]
      exact hs
    · exact iff_of_true hm hpc
    · rw [Locked, hm]
      exact iff_of_false nofun hpc
  | kill =>
    obtain ⟨-, rfl⟩ | ⟨-, rfl⟩ | ⟨-, -, rfl⟩ := killStep_cases h
    · exact hs
    · rw [Locked, (signal_spec s.pc).2.1]
      exact hs
    · exact hs
  | lock =>
    obtain ⟨hfree, rfl⟩ := lock_eq h
    exact hs.of_adder (by rw [hfree]; nofun) nofun rfl
  | queue d =>
    rw [SendControl.step] at h
    split_ifs at h with hm
    obtain rfl := Option.some.inj h
    exact hs.of_adder (by rw [hm.1]; decide) nofun rfl
  | signal =>
    rw [SendControl.step] at h
    split_ifs at h with hm
    obtain rfl := Option.some.inj h
    exact hs.of_adder (by rw [hm]; decide) nofun (signal_spec s.pc).2.1
  | unlock =>
    rw [SendControl.step] at h
    split_ifs at h with hm
    obtain rfl := Option.some.inj h
    exact hs.of_adder (by rw [hm]; decide) nofun rfl
  | protect on =>
    obtain rfl := Option.some.inj h
    exact hs

/-! ## Runs -/

/-- The invariants at the start. -/
lemma stoppable_init : init.Stoppable ∧ init.Locked :=
  ⟨⟨fun h => absurd rfl h, fun h => by cases h⟩, iff_of_false nofun nofun⟩

/-- A line that may be queued. -/
def someLine : SendqData := ⟨bytes "QUIT", 0⟩

/-- **The mutex is given back** by a call of `add_to_send_queue`, while the thread has not started.

**Proof sketch.** By the place of the call that has the mutex: it queues its line, signals and
unlocks, and the thread, which has not started, does not take notice. -/
lemma run_unlock (hpc : s.pc = .starting) (hm : s.mutex ≠ some .sender) :
    ∃ ls t, Run (Fun step) s ls t ∧ t.mutex = none ∧ t.pc = .starting ∧ t.killer = s.killer := by
  have hsignaled : ∀ s : SendControl, s.mutex = some .signaled → s.pc = .starting →
      ∃ ls t, Run (Fun step) s ls t ∧ t.mutex = none ∧ t.pc = .starting ∧ t.killer = s.killer :=
    fun s hm hpc => ⟨[.unlock], _, .cons (if_pos hm) (.nil _), rfl, hpc, rfl⟩
  have hqueued : ∀ s : SendControl, s.mutex = some .queued → s.pc = .starting →
      ∃ ls t, Run (Fun step) s ls t ∧ t.mutex = none ∧ t.pc = .starting ∧ t.killer = s.killer := by
    intro s hm hpc
    obtain ⟨ls, t, hrun, hrest⟩ := hsignaled
      { s with mutex := some .signaled, pc := s.pc.signal } rfl (by rw [hpc]; rfl)
    exact ⟨.signal :: ls, t, .cons (if_pos hm) hrun, hrest⟩
  rcases hmutex : s.mutex with _ | _ | _ | _ | _
  · exact ⟨[], s, .nil s, hmutex, hpc, rfl⟩
  · exact absurd hmutex hm
  · obtain ⟨ls, t, hrun, hrest⟩ := hqueued
      { s with
        mutex := some .queued, sendQueue := s.sendQueue ++ [someLine], sendqAdded := true } rfl hpc
    exact ⟨.queue someLine :: ls, t, .cons (if_pos ⟨hmutex, by decide⟩) hrun, hrest⟩
  · exact hqueued s hmutex hpc
  · exact hsignaled s hmutex hpc

/-- A thread that comes to the wait when the killer is joining it gets stuck. -/
lemma exists_stuck_of_heads (hkiller : s.killer = .joining) (h : s.HeadsForWait) :
    ∃ ls t, Run (Fun step) s ls t ∧ t.Stuck := by
  have hwait : ∀ s : SendControl, s.killer = .joining → s.pc = .toWait →
      ∃ ls t, Run (Fun step) s ls t ∧ t.Stuck := by
    intro s hkiller hpc
    have hstep : s.step (.sender 0) = some { s with mutex := none, pc := .waiting false } := by
      rw [step, senderStep, hpc]
    exact ⟨_, _, .cons hstep (.nil _), hkiller, rfl⟩
  rcases h with hpc | ⟨hpc, hqueue⟩
  · exact hwait s hkiller hpc
  · obtain ⟨ls, t, hrun, hstuck⟩ := hwait { s with pc := .toWait } hkiller rfl
    have hstep : s.step (.sender 0) = some { s with pc := .toWait } := by
      rw [step, senderStep, hpc]
      exact congrArg some (if_pos hqueue)
    exact ⟨_, _, .cons hstep hrun, hstuck⟩

/-- A thread that comes to its first wait when the killer has cleared the flag gets stuck. -/
lemma exists_stuck_of_setting (hkiller : s.killer = .cleared) (hpc : s.pc = .setting) :
    ∃ ls t, Run (Fun step) s ls t ∧ t.Stuck := by
  have hset : s.step (.sender 0) =
      some { s with sendReady := true, nextSend := 0, prevNow := 0, pc := .toWait } := by
    rw [step, senderStep, hpc]
  have hkill : step { s with sendReady := true, nextSend := 0, prevNow := 0, pc := .toWait } .kill =
      some { s with
        sendReady := true, nextSend := 0, prevNow := 0, pc := .toWait, killer := .joining } := by
    simp only [step, killStep, hkiller, SenderPc.signal]
  obtain ⟨ls, t, hrun, hstuck⟩ := exists_stuck_of_heads (s := { s with
    sendReady := true, nextSend := 0, prevNow := 0, pc := .toWait,
    killer := .joining }) rfl (.inl rfl)
  exact ⟨_, _, .cons hset (.cons hkill hrun), hstuck⟩

/-- When a thread is not stopped in time. -/
lemma not_inTime (h : ¬ s.InTime .kill) :
    s.killer = .idle ∧ (s.pc = .starting ∨ s.pc = .setting) ∨
      s.killer = .cleared ∧ s.HeadsForWait := by
  simpa only [InTime, not_and_or, Classical.not_imp, not_not, ne_eq] using h

/-- **A thread that is not stopped in time** can get stuck.

**Proof sketch.** When the flag is cleared before the thread has set it, the thread sets it again
and waits; the signal comes before that. When the signal is sent to a thread that is on its way to
the wait, it is lost, and the thread waits. -/
lemma exists_stuck (hs : s.Locked) (h : s.step .kill = some t) (hl : ¬ s.InTime .kill) :
    ∃ ls u, Run (Fun step) t ls u ∧ u.Stuck := by
  rcases not_inTime hl with ⟨hkiller, hpc | hpc⟩ | ⟨hkiller, hheads⟩
  · rw [step, killStep, hkiller] at h
    obtain rfl := Option.some.inj h
    have hm : s.mutex ≠ some .sender := fun hm => by
      have := hs.mp hm
      rw [hpc] at this
      cases this
    obtain ⟨ls, u, hrun, hfree, hpc', hkiller'⟩ := run_unlock
      (s := { s with sendReady := false, killer := .cleared }) hpc hm
    have hlock : u.step (.sender 0) = some { u with mutex := some .sender, pc := .setting } := by
      rw [step, senderStep, hpc']
      simp only [lock, if_pos hfree, Option.map_some]
    obtain ⟨ls', v, hrun', hstuck⟩ := exists_stuck_of_setting
      (s := { u with mutex := some .sender, pc := .setting }) hkiller' rfl
    exact ⟨_, v, hrun.trans (.cons hlock hrun'), hstuck⟩
  · rw [step, killStep, hkiller] at h
    obtain rfl := Option.some.inj h
    exact exists_stuck_of_setting rfl hpc
  · rw [step, killStep, hkiller] at h
    obtain rfl := Option.some.inj h
    have hsignaled : { s with pc := s.pc.signal, killer := .joining }.HeadsForWait := by
      refine (headsForWait_signal (s := s) ?_ ?_).mpr hheads <;> rfl
    exact exists_stuck_of_heads rfl hsignaled

/-- **The send thread can be stopped** if it is stopped in time: no run gets stuck in which the flag
is cleared after the thread has set it and the signal is sent when the thread does not come to the
wait without another test. Otherwise it can get stuck.

**Proof sketch.** Once the flag is cleared, every test leads out of the loops, so the wait is
entered only by a thread that is behind its last test when the signal comes. -/
theorem no_stuck (ls : List SendLabel) (s : SendControl) :
    (Run (Under (Fun step) InTime) init ls s → ¬ s.Stuck) ∧
    (Run (Fun step) init ls s → ∀ t, s.step .kill = some t → ¬ s.InTime .kill →
      ∃ ls' u, Run (Fun step) t ls' u ∧ u.Stuck) := by
  obtain ⟨hstoppable, hlocked⟩ := stoppable_init
  refine ⟨fun h => ?_, fun h t hkill hlate => ?_⟩
  · have hkept : ∀ s l t, s.Stoppable → Under (Fun step) InTime s l t → t.Stoppable :=
      fun s l t hs h => hs.step h.2 h.1
    exact (h.preserves hkept hstoppable).not_stuck
  · have hs : s.Locked := h.preserves (fun _ _ _ hs hstep => Locked.step hs hstep) hlocked
    exact exists_stuck hs hkill hlate

/-- A thread that is stopped in its wait, behind a line that it has sent, returns. -/
theorem no_stuck_waiting :
    ∃ s, Run (Under (Fun step) InTime) init
      [.sender 0, .sender 0, .sender 0, .lock, .queue ⟨bytes "QUIT", 0⟩, .signal, .unlock, .sender 0,
        .sender 0, .sender 0, .sender 0, .sender 0, .sender 0, .sender 0, .sender 0, .kill, .kill,
        .sender 0, .sender 0, .sender 0, .sender 0, .sender 0] s ∧
      s.sent = [⟨bytes "QUIT", 0⟩] ∧ s.pc = .returned ∧ ¬ s.Stuck := by
  obtain ⟨s, hrun, hsent, hpc⟩ := @Run.under_exists_of_foldlM _ _ step InTime _
    (fun s => s.sent = [⟨bytes "QUIT", 0⟩] ∧ s.pc = .returned) init
    [.sender 0, .sender 0, .sender 0, .lock, .queue ⟨bytes "QUIT", 0⟩, .signal, .unlock, .sender 0,
      .sender 0, .sender 0, .sender 0, .sender 0, .sender 0, .sender 0, .sender 0, .kill, .kill,
      .sender 0, .sender 0, .sender 0, .sender 0, .sender 0] (by decide)
  exact ⟨s, hrun, hsent, hpc, (no_stuck _ s).1 hrun⟩

/-- **A thread that is killed at once**: it has set the flag and not waited yet. -/
theorem not_no_stuck : ∃ ls s, Run (Fun step) init ls s ∧ s.Stuck :=
  ⟨[.sender 0, .sender 0, .kill, .kill, .sender 0], _, Run.of_foldlM rfl, rfl, rfl⟩

end SendControl

end Meowbot
