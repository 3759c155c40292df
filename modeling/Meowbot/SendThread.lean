import Meowbot.Basic
import Meowbot.Lib.Runs
import Meowbot.Lib.StableSort

set_option relaxedAutoImplicit false
set_option autoImplicit false

/-!
# The send queue (`irc::add_to_send_queue`, `irc::send_thread`)

Lines are queued by any thread and sent by one, which sorts them by priority and keeps to the rate
that the server allows. The two functions are a transition system. Its steps are the pieces of
code between two operations on `send_mutex`, so that every interleaving is a run: a call of
`add_to_send_queue` is one step, possible whenever the send thread does not hold the mutex, and
the send thread has one step for each stretch from one acquisition, sleep or reading of the clock
to the next. Flood protection is on throughout. A condition wait may return without a signal.

## Main definitions

* `Meowbot.SendState` — the variables, with the history of queued and sent lines.
* `Meowbot.SendAction`, `Meowbot.sendStep` — the steps.
* `Meowbot.SendState.Queued`, `Meowbot.SendState.Woken` — the invariants.
* `Meowbot.AfterReady` — the runs in which nothing is queued before the thread is ready.

## Main results

* `Meowbot.SendState.Queued.step`, `Meowbot.SendState.Woken.step` — each step keeps them.
* `Meowbot.sendThread_discipline` — the discipline of the queue.
* `Meowbot.sendThread_lostWakeup` — a line queued before the thread waits is not noticed.
-/

namespace Meowbot

open Runs StableSort

/-- `irc_sendq_data`. -/
structure SendqData where
  line : Bytes
  priority : ℤ
  deriving DecidableEq

/-- Where the send thread is. It holds the mutex at the head of the loop and behind the sleep, and
in the two waits it does not. -/
inductive SendPc where
  /-- Created; it has not locked the mutex yet. -/
  | start
  /-- In `pthread_cond_wait`, with a signal pending or not. -/
  | waiting (signaled : Bool)
  /-- At the head of the inner loop, with the mutex. -/
  | top
  /-- In `sleep`, without the mutex. -/
  | sleeping
  /-- Behind the sleep, with the mutex. -/
  | sending
  /-- Returned. -/
  | dead
  deriving DecidableEq

/-- The send thread holds the mutex. -/
def SendPc.holdsMutex : SendPc → Bool
  | .top | .sending => true
  | _ => false

/-- `pthread_cond_signal`, which is lost on a thread that is not waiting. -/
def SendPc.signal : SendPc → SendPc
  | .waiting _ => .waiting true
  | pc => pc

/-- A line sent, with the values of `now` and of the timer `next_send` at that time. -/
structure Sent where
  data : SendqData
  time : ℤ
  timer : ℤ
  deriving DecidableEq

/-- The variables of the send queue and of the send thread, with the last two readings of the clock.
The last two fields are not in the source. -/
structure SendState where
  pc : SendPc
  sendReady : Bool
  sendQueue : List SendqData
  sendqAdded : Bool
  nextSend : ℤ
  prevNow : ℤ
  now : ℤ
  /-- All lines queued so far. -/
  enqueued : List SendqData
  /-- All lines sent so far. -/
  sent : List Sent
  deriving DecidableEq

/-- The state after `create_send_thread` has cleared the queue and created the thread. -/
def SendState.init : SendState :=
  { pc := .start, sendReady := false, sendQueue := [], sendqAdded := false, nextSend := 0,
    prevNow := 0, now := 0, enqueued := [], sent := [] }

/-- The steps of the callers and of the send thread, with the readings of the clock. A step goes
from one place at which the mutex is given back or the clock is read to the next. -/
inductive SendAction where
  /-- A call of `add_to_send_queue`. -/
  | add (d : SendqData)
  /-- `kill_send_thread`, up to its `pthread_join`. -/
  | kill
  /-- The thread locks the mutex, sets `send_ready` and waits. -/
  | start
  /-- `pthread_cond_wait` returns. -/
  | wake
  /-- The thread finds the queue empty and waits, or reads the clock and decides whether to
  sleep. -/
  | check (now : ℤ)
  /-- `sleep` returns, and the thread locks the mutex and reads the clock. -/
  | resume (now : ℤ)
  /-- The thread sorts if need be and sends the first line. -/
  | send
  deriving DecidableEq

/-- The additional penalty for a long line, in seconds: its bytes from the first space on. -/
def penalty (line : Bytes) : ℤ := ((line.dropWhile fun c : Byte => c ≠ ' ').length / 120 : ℕ)

namespace SendState

/-- `irc::add_to_send_queue`. -/
def addToSendQueue (s : SendState) (d : SendqData) : SendState :=
  if d.line = [] then s
  else { s with
    sendQueue := s.sendQueue ++ [d], sendqAdded := true, pc := s.pc.signal,
    enqueued := s.enqueued ++ [d] }

/-- The head of the inner loop. The timer is moved up to the clock; if it is ten seconds ahead the
thread sleeps, unless the clock has been set back, in which case the timer is set back too. -/
def check (s : SendState) (now : ℤ) : SendState :=
  if s.sendQueue = [] then { s with pc := .waiting false }
  else
    let nextSend := if s.nextSend < now then now else s.nextSend
    if 10 ≤ nextSend - now then
      if now < s.prevNow then { s with now, nextSend := now, pc := .sending }
      else { s with now, nextSend, pc := .sleeping }
    else { s with now, nextSend, pc := .sending }

/-- The queue, sorted if lines have been added since it was sorted last. -/
def sortedQueue (s : SendState) : List SendqData :=
  if s.sendqAdded then sortDesc SendqData.priority s.sendQueue else s.sendQueue

/-- Send the first line of the queue and go back to the head of the loop, or leave. The line is
recorded with the clock and the timer at which it was sent. -/
def sendFront (s : SendState) (d : SendqData) (rest : List SendqData) : SendState :=
  { s with
    sendQueue := rest
    sendqAdded := false
    sent := s.sent ++ [{ data := d, time := s.now, timer := s.nextSend }]
    nextSend := s.nextSend + 2 + penalty d.line
    prevNow := s.now
    pc := if s.sendReady then .top else .dead }

end SendState

/-- One step, if it is possible. A caller cannot add a line while the thread holds the mutex, and
the queue is sorted when a line is to be sent. -/
def sendStep (s : SendState) : SendAction → Option SendState
  | .add d => if s.pc.holdsMutex then none else some (s.addToSendQueue d)
  | .kill => some { s with sendReady := false, pc := s.pc.signal }
  | .start =>
    if s.pc = .start then
      some { s with sendReady := true, nextSend := 0, prevNow := 0, pc := .waiting false }
    else none
  | .wake =>
    match s.pc with
    | .waiting _ => some { s with pc := if s.sendReady then .top else .dead }
    | _ => none
  | .check now => if s.pc = .top then some (s.check now) else none
  | .resume now => if s.pc = .sleeping then some { s with now, pc := .sending } else none
  | .send =>
    if s.pc = .sending then
      match s.sortedQueue with
      | [] => none
      | d :: rest => some (s.sendFront d rest)
    else none

/-- The condition on a step that a line is added only after the thread has set `send_ready`. -/
def AfterReady (s : SendState) : SendAction → Prop
  | .add _ => s.pc ≠ .start
  | _ => True

instance (s : SendState) (a : SendAction) : Decidable (AfterReady s a) :=
  match a with
  | .add _ => inferInstanceAs (Decidable (s.pc ≠ .start))
  | .kill | .start | .wake | .check _ | .resume _ | .send => isTrue trivial

/-- The runs of the send queue. -/
abbrev SendRun (as : List SendAction) (s : SendState) : Prop := Run (Fun sendStep) .init as s

namespace SendState

/-- The lines sent. -/
def sentLines (s : SendState) : List SendqData := s.sent.map Sent.data

/-- The invariant of the queue. -/
structure Queued (s : SendState) : Prop where
  /-- A queue that has not been added to is sorted. -/
  sorted : s.sendqAdded = false → s.sendQueue.Pairwise fun a b => b.priority ≤ a.priority
  /-- The lines of one priority, sent and queued, are those queued, in order. -/
  order : ∀ p, (s.sentLines ++ s.sendQueue).filter (fun d => d.priority = p) =
    s.enqueued.filter fun d => d.priority = p

/-- The invariant of the wait: a thread that waits without a signal has nothing to do, and nothing
is queued before it starts. -/
structure Woken (s : SendState) : Prop where
  start : s.pc = .start → s.sendQueue = []
  waiting : s.pc = .waiting false → s.sendQueue = []

/-- Before sending, the queue is sorted, by the flag or by the sort. -/
lemma Queued.pairwise_sortedQueue {s : SendState} (h : s.Queued) :
    s.sortedQueue.Pairwise fun a b => b.priority ≤ a.priority := by
  unfold sortedQueue
  cases hadded : s.sendqAdded with
  | false => exact h.sorted hadded
  | true => exact pairwise_sortDesc _ _

/-- Sorting keeps the order of the lines of one priority. -/
lemma filter_sortedQueue (s : SendState) (p : ℤ) :
    s.sortedQueue.filter (fun d => d.priority = p) =
      s.sendQueue.filter fun d => d.priority = p := by
  unfold sortedQueue
  split_ifs
  · exact filter_sortDesc _ _ _
  · rfl

/-- Sorting keeps the lines. -/
lemma mem_sortedQueue {s : SendState} {d : SendqData} : d ∈ s.sortedQueue ↔ d ∈ s.sendQueue := by
  unfold sortedQueue
  split_ifs
  · exact (sortDesc_perm _ _).mem_iff
  · rfl

end SendState

/-- The first line of the sorted queue is sent. -/
lemma sendStep_send {s t : SendState} (h : sendStep s .send = some t) :
    s.pc = .sending ∧ ∃ d rest, s.sortedQueue = d :: rest ∧ t = s.sendFront d rest := by
  simp only [sendStep] at h
  split_ifs at h with hpc
  rcases hq : s.sortedQueue with _ | ⟨d, rest⟩
  · simp [hq] at h
  · simp only [hq, Option.some.injEq] at h
    exact ⟨hpc, d, rest, rfl, h.symm⟩

/-- **What a step can do** to the queue: one line is added at the end, or the first line of the
sorted queue is sent, or queue, flag and history stay.

**Proof sketch.** By cases on the action. An empty line is not queued; the thread takes a line in
one place only, and it gets to its first wait from the start, or with an empty queue. -/
lemma sendStep_cases {s t : SendState} {a : SendAction} (h : sendStep s a = some t) :
    (∃ d, a = .add d ∧ t = { s with
      sendQueue := s.sendQueue ++ [d], sendqAdded := true, pc := s.pc.signal,
      enqueued := s.enqueued ++ [d] }) ∨
    (∃ d rest, a = .send ∧ s.pc = .sending ∧ s.sortedQueue = d :: rest ∧
      t = s.sendFront d rest) ∨
    (a ≠ .send ∧ t.sendQueue = s.sendQueue ∧ t.sendqAdded = s.sendqAdded ∧
      t.enqueued = s.enqueued ∧ t.sent = s.sent ∧ (t.pc = .start → s.pc = .start) ∧
      (t.pc = .waiting false → s.sendQueue = [] ∨ s.pc = .start ∨ s.pc = .waiting false)) := by
  cases a with
  | add d =>
    simp only [sendStep] at h
    split_ifs at h
    obtain rfl := Option.some.inj h
    by_cases hd : d.line = []
    · refine .inr (.inr ?_)
      simp only [SendState.addToSendQueue, if_pos hd, true_and]
      exact ⟨by simp, id, fun hw => .inr (.inr hw)⟩
    · exact .inl ⟨d, rfl, if_neg hd⟩
  | kill =>
    obtain rfl := Option.some.inj h
    refine .inr (.inr ⟨by simp, rfl, rfl, rfl, rfl, ?_, ?_⟩)
    · cases hpc : s.pc <;> simp [SendPc.signal]
    · cases hpc : s.pc <;> simp [SendPc.signal]
  | start =>
    simp only [sendStep] at h
    split_ifs at h with hpc
    obtain rfl := Option.some.inj h
    exact .inr (.inr ⟨by simp, rfl, rfl, rfl, rfl, fun _ => hpc, fun _ => .inr (.inl hpc)⟩)
  | wake =>
    cases hpc : s.pc <;> simp only [sendStep, hpc, Option.some.injEq, reduceCtorEq] at h
    subst h
    refine .inr (.inr ⟨by simp, rfl, rfl, rfl, rfl, ?_, ?_⟩)
    · dsimp only
      split_ifs <;> simp
    · dsimp only
      split_ifs <;> simp
  | check now =>
    simp only [sendStep] at h
    split_ifs at h with hpc
    obtain rfl := Option.some.inj h
    refine .inr (.inr ?_)
    by_cases hq : s.sendQueue = []
    · simp only [SendState.check, if_pos hq]
      simp [hq]
    · simp only [SendState.check, if_neg hq]
      split_ifs <;> simp
  | resume now =>
    simp only [sendStep] at h
    split_ifs at h
    obtain rfl := Option.some.inj h
    exact .inr (.inr ⟨by simp, rfl, rfl, rfl, rfl, by simp, by simp⟩)
  | send =>
    obtain ⟨hpc, d, rest, hq, ht⟩ := sendStep_send h
    exact .inr (.inl ⟨d, rest, rfl, hpc, hq, ht⟩)

namespace SendState

/-- **The invariant of the queue** is kept by every step.

**Proof sketch.** By the cases of a step. A line that is added comes behind those of its priority;
sending takes the first one of the sorted queue, and sorting keeps the order within a priority. -/
lemma Queued.step {s t : SendState} {a : SendAction} (hs : s.Queued) (h : sendStep s a = some t) :
    t.Queued := by
  rcases sendStep_cases h with ⟨d, -, rfl⟩ | ⟨d, rest, -, -, hq, rfl⟩ | ⟨-, hq, ha, he, hsent, -, -⟩
  · refine ⟨fun hadded => (by cases hadded), fun p => ?_⟩
    have := hs.order p
    simp only [sentLines, List.filter_append] at this ⊢
    rw [← List.append_assoc, this]
  · have hsorted := hs.pairwise_sortedQueue
    rw [hq] at hsorted
    refine ⟨fun _ => hsorted.of_cons, fun p => ?_⟩
    have := hs.order p
    rw [List.filter_append, ← filter_sortedQueue, hq, ← List.filter_append] at this
    simpa [sentLines, sendFront] using this
  · refine ⟨?_, ?_⟩
    · rw [hq, ha]
      exact hs.sorted
    · simp only [sentLines, hq, he, hsent]
      exact hs.order

/-- **The invariant of the wait** is kept by every step that does not add a line to a thread that
is not ready.

**Proof sketch.** By the cases of a step. Adding a line wakes a thread that waits, and a thread that
is not at its start looks at the queue before it waits; when a line is sent the thread is at neither
of the two places. -/
lemma Woken.step {s t : SendState} {a : SendAction} (hs : s.Woken) (h : sendStep s a = some t)
    (hready : AfterReady s a) : t.Woken := by
  rcases sendStep_cases h with ⟨d, rfl, rfl⟩ | ⟨d, rest, -, -, -, rfl⟩ |
    ⟨-, hq, -, -, -, hstart, hwait⟩
  · have hpc : s.pc ≠ .start := hready
    constructor
    · intro hp
      cases hs' : s.pc <;> simp_all [SendPc.signal]
    · intro hp
      cases hs' : s.pc <;> simp_all [SendPc.signal]
  · constructor
    · simp only [sendFront]
      split_ifs <;> simp
    · simp only [sendFront]
      split_ifs <;> simp
  · constructor
    · intro hp
      rw [hq]
      exact hs.start (hstart hp)
    · intro hp
      rw [hq]
      rcases hwait hp with hnil | hp | hp
      · exact hnil
      · exact hs.start hp
      · exact hs.waiting hp

/-- The invariant of the queue holds at the start. -/
lemma queued_init : SendState.init.Queued := ⟨fun _ => List.Pairwise.nil, fun _ => rfl⟩

/-- The invariant of the wait holds at the start. -/
lemma woken_init : SendState.init.Woken := ⟨fun _ => rfl, fun _ => rfl⟩

end SendState

/-- **The discipline of the send queue.** In every state that is reached by steps in which nothing
is queued before the thread is ready: the lines sent and those still queued are the lines queued,
each as often as it was queued; the lines of one priority have been sent in the order in which they
were queued; when a line is sent, no line in the queue has a higher priority; and the thread does
not wait without a pending signal while a line is queued.

**Proof sketch.** The first three are consequences of `SendState.Queued`, which any run keeps: the
sort is stable, and a queue without the flag is sorted because only additions at its end can
disturb the order and they set the flag. The last is `SendState.Woken`: a line added while the
thread waits signals it, and a line added while it sleeps is found when it looks at the queue
again before waiting. -/
theorem sendThread_discipline {as : List SendAction} {s : SendState}
    (h : Run (Under (Fun sendStep) AfterReady) .init as s) :
    (s.sentLines ++ s.sendQueue).Perm s.enqueued ∧
    (∀ p, s.sentLines.filter (fun d => d.priority = p) <+:
      s.enqueued.filter fun d => d.priority = p) ∧
    (∀ t, sendStep s .send = some t → ∃ d, t.sentLines = s.sentLines ++ [d] ∧
      ∀ e ∈ s.sendQueue, e.priority ≤ d.priority) ∧
    (s.pc = .waiting false → s.sendQueue = []) := by
  have hq : s.Queued :=
    h.of_under.preserves (fun _ _ _ hs hstep => hs.step hstep) SendState.queued_init
  have hw : s.Woken :=
    h.preserves (fun _ _ _ hs hstep => hs.step hstep.1 hstep.2) SendState.woken_init
  refine ⟨perm_of_filter_eq SendqData.priority hq.order, fun p => ?_, fun t ht => ?_, hw.waiting⟩
  · rw [← hq.order p, List.filter_append]
    exact List.prefix_append _ _
  · obtain ⟨d, ha, -⟩ | ⟨d, rest, -, -, hqueue, rfl⟩ | ⟨hne, -⟩ := sendStep_cases ht
    · cases ha
    · refine ⟨d, by simp [SendState.sentLines, SendState.sendFront], fun e he => ?_⟩
      have hsorted := hq.pairwise_sortedQueue
      rw [hqueue] at hsorted
      rw [← SendState.mem_sortedQueue, hqueue] at he
      rcases List.mem_cons.mp he with rfl | he
      · exact le_rfl
      · exact (List.pairwise_cons.mp hsorted).1 e he
    · exact absurd rfl hne

/-- A run with two priorities: the line queued last is sent first. -/
def priorityRun : List SendAction :=
  [.start, .add ⟨bytes "A", 0⟩, .add ⟨bytes "B", 99⟩, .wake, .check 1000, .send]

/-- The discipline for a run with two priorities. -/
theorem sendThread_discipline_priorities :
    ∃ s, Run (Under (Fun sendStep) AfterReady) .init priorityRun s ∧
      s.sentLines = [⟨bytes "B", 99⟩] ∧ (s.sentLines ++ s.sendQueue).Perm s.enqueued := by
  have hrun : Run (Under (Fun sendStep) AfterReady) .init priorityRun _ :=
    Run.under_of_foldlM rfl
  exact ⟨_, hrun, rfl, (sendThread_discipline hrun).1⟩

/-- **The lost wake-up**: a line queued before the thread has locked the mutex signals nobody, and
the thread then waits although a line is queued. -/
theorem sendThread_lostWakeup :
    ∃ as s, SendRun as s ∧ s.pc = .waiting false ∧ s.sendQueue ≠ [] :=
  ⟨[.add ⟨bytes "A", 0⟩, .start], _, Run.of_foldlM rfl, rfl, by decide⟩

end Meowbot
