import Meowbot.Basic
import Meowbot.Lib.Runs

set_option relaxedAutoImplicit false
set_option autoImplicit false

/-!
# The event queue and the event threads (`ircbot.cpp`)

Events are queued by any thread and taken by the event threads, which wait at a condition variable.
An event thread takes all events that there are before it waits again, but it enters its first wait
without a look at the queue. So an event that is queued before some thread has entered a wait is
signalled to nobody, and it stays in the queue until another event comes.

Every stretch of code between two operations on the mutex of the queue or on its condition variable
is a step; event threads may be created at any moment, pausing is off, and none of them is killed. A
thread may leave the wait without a signal.

## Main definitions

* `Meowbot.WorkerPc`, `Meowbot.AddPc` — where an event thread and a call of `add_to_event_queue`
  are.
* `Meowbot.EventQueue`, `Meowbot.EventQueue.step` — the queue with its threads, and their steps.
* `Meowbot.EventQueue.Stranded` — events are queued and every thread is blocked.
* `Meowbot.EventQueue.Served` — an event is queued when some thread has entered a wait.

## Main results

* `Meowbot.EventQueue.InOrder.step` — the events taken and queued are those added, in order.
* `Meowbot.EventQueue.Attended.step` — queued events are attended to, if they are served.
* `Meowbot.EventQueue.no_stranded` — no stranding in runs with served events only.
-/

namespace Meowbot

open Runs

/-! ## States and steps -/

/-- Where an event thread is: what it does next. The thread waits once before it has looked at the
queue for the first time, which is a place of its own here; the wait in the loop comes after a look
that has found nothing. -/
inductive WorkerPc where
  /-- Lock the queue for the first time. -/
  | starting
  /-- Give the queue back and wait, for the first time. -/
  | firstWait
  /-- In `pthread_cond_wait`, with a signal pending or not. -/
  | waiting (signaled : Bool)
  /-- Lock the queue, in `pthread_cond_wait`, after a wake-up. -/
  | waking
  /-- With the queue locked: take an event, or wait if there is none. -/
  | looking
  | unlocking
  /-- In the handlers of an event. -/
  | handling
  /-- Lock the queue again. -/
  | relocking
  deriving DecidableEq

/-- Where a call of `add_to_event_queue` is that has the mutex. -/
inductive AddPc where
  | locked | pushed | signaled
  deriving DecidableEq

/-- Who has the mutex. -/
inductive QueueHolder where
  | worker (i : ℕ)
  | adder (pc : AddPc)
  deriving DecidableEq

/-- The event queue with its mutex and its threads. Events are numbered as they are added, which
tells them apart, and a thread that takes one is recorded with it. -/
structure EventQueue where
  /-- `event_queue_mutex` -/
  mutex : Option QueueHolder
  events : List ℕ
  /-- `event_threads` -/
  workers : List WorkerPc
  /-- The number of events added so far. -/
  added : ℕ
  /-- The events taken so far, with the thread that has taken each. -/
  taken : List (ℕ × ℕ)

/-- A step of a thread or of a call of `add_to_event_queue`. Which waiting thread gets a signal is
up to the system, and whether the connection of an event still exists is up to the rest of the
program, so both are part of the label. -/
inductive QueueLabel where
  /-- `create_event_threads` creates a thread. -/
  | create
  /-- A thread goes on; an event that it takes is of a connection that still exists, or not. -/
  | worker (i : ℕ) (connected : Bool)
  /-- A call of `add_to_event_queue` locks the mutex. -/
  | lock
  | push
  /-- `pthread_cond_signal`, with the thread that gets the signal, if there is one to get it. -/
  | signal (target : Option ℕ)
  | unlock
  deriving DecidableEq

namespace EventQueue

/-- The state after `init_event_threads`. -/
def init : EventQueue := { mutex := none, events := [], workers := [], added := 0, taken := [] }

/-- `pthread_mutex_lock`, which blocks as long as somebody has the mutex. -/
def lock (s : EventQueue) (h : QueueHolder) : Option EventQueue :=
  if s.mutex = none then some { s with mutex := some h } else none

/-- A thread goes to another place. -/
def move (s : EventQueue) (i : ℕ) (pc : WorkerPc) : EventQueue :=
  { s with workers := s.workers.set i pc }

/-- A thread gives the mutex back and goes to another place. -/
def release (s : EventQueue) (i : ℕ) (pc : WorkerPc) : EventQueue :=
  { s with mutex := none }.move i pc

/-- `event_thread`. A wait gives the mutex back, and takes it again when it is over; an event whose
connection is gone is taken and dropped, and the thread looks at the queue again without giving the
mutex back. -/
def workerStep (s : EventQueue) (i : ℕ) (connected : Bool) : WorkerPc → Option EventQueue
  | .starting => (s.lock (.worker i)).map fun s => s.move i .firstWait
  | .firstWait => some (s.release i (.waiting false))
  | .waiting _ => some (s.move i .waking)
  | .waking => (s.lock (.worker i)).map fun s => s.move i .looking
  | .looking =>
    match s.events with
    | [] => some (s.release i (.waiting false))
    | e :: events =>
      some ({ s with events, taken := s.taken ++ [(i, e)] }.move i
        (if connected then .unlocking else .looking))
  | .unlocking => some (s.release i .handling)
  | .handling => some (s.move i .relocking)
  | .relocking => (s.lock (.worker i)).map fun s => s.move i .looking

/-- `pthread_cond_signal`: some thread that waits without a signal gets one, and the signal is lost
if there is none. -/
def condSignal (s : EventQueue) : Option ℕ → Option EventQueue
  | some i =>
    if s.workers[i]? = some (.waiting false) then some (s.move i (.waiting true)) else none
  | none => if s.workers.contains (.waiting false) then none else some s

/-- The step function. A call of `add_to_event_queue` locks, adds the event, signals and unlocks,
one step each, and the threads may step in between as far as the mutex lets them. -/
def step (s : EventQueue) : QueueLabel → Option EventQueue
  | .create => some { s with workers := s.workers ++ [.starting] }
  | .worker i connected => (s.workers[i]?).bind (s.workerStep i connected)
  | .lock => s.lock (.adder .locked)
  | .push =>
    if s.mutex = some (.adder .locked) then
      some { s with
        mutex := some (.adder .pushed), events := s.events ++ [s.added], added := s.added + 1 }
    else none
  | .signal target =>
    if s.mutex = some (.adder .pushed) then
      (s.condSignal target).map fun s => { s with mutex := some (.adder .signaled) }
    else none
  | .unlock => if s.mutex = some (.adder .signaled) then some { s with mutex := none } else none

/-! ## Stranded events -/

/-- **Stranded events**: the queue is not empty, there are event threads, all of them are blocked in
`pthread_cond_wait` with no signal pending, and no call is about to send one. -/
def Stranded (s : EventQueue) : Prop :=
  s.events ≠ [] ∧ s.workers ≠ [] ∧ (∀ pc ∈ s.workers, pc = .waiting false) ∧
    s.mutex ≠ some (.adder .pushed)

end EventQueue

/-- A thread has entered a wait. -/
def WorkerPc.started : WorkerPc → Bool
  | .starting | .firstWait => false
  | _ => true

/-- A thread will look at the queue before it waits again, without a further signal. -/
def WorkerPc.awake : WorkerPc → Bool
  | .starting | .firstWait | .waiting false => false
  | _ => true

/-- A thread has the mutex. -/
def WorkerPc.holds : WorkerPc → Bool
  | .firstWait | .looking | .unlocking => true
  | _ => false

/-- A thread that has not entered a wait and does not have the mutex has not started. -/
lemma WorkerPc.eq_starting {pc : WorkerPc} (h : ¬ pc.started) (hholds : ¬ pc.holds) :
    pc = .starting := by
  cases pc with
  | starting => rfl
  | firstWait => exact absurd rfl hholds
  | waiting | waking | looking | unlocking | handling | relocking => exact absurd rfl h

namespace EventQueue

/-- **An event is served**: it is queued when some thread has already entered a wait. -/
def Served (s : EventQueue) : QueueLabel → Prop
  | .push => ∃ pc ∈ s.workers, pc.started
  | _ => True

instance (s : EventQueue) : (l : QueueLabel) → Decidable (s.Served l)
  | .push => inferInstanceAs (Decidable (∃ pc ∈ s.workers, pc.started))
  | .create | .worker _ _ | .lock | .signal _ | .unlock => .isTrue trivial

/-- The events that have been taken and those that are queued are the ones added, in order. -/
def InOrder (s : EventQueue) : Prop :=
  s.taken.map Prod.snd ++ s.events = List.range s.added

/-- A thread whose place says so has the mutex. -/
def Locked (s : EventQueue) : Prop :=
  ∀ i, ∀ pc ∈ s.workers[i]?, pc.holds → s.mutex = some (.worker i)

/-- If events are queued, some thread is going to look, or a signal is on its way to some thread. -/
def Attended (s : EventQueue) : Prop :=
  s.events ≠ [] → (∃ pc ∈ s.workers, pc.awake) ∨
    s.mutex = some (.adder .pushed) ∧ ∃ pc ∈ s.workers, pc.started

variable {s t : EventQueue}

/-- `pthread_mutex_lock` has taken the mutex. -/
lemma lock_eq {h : QueueHolder} (hlock : s.lock h = some t) :
    s.mutex = none ∧ t = { s with mutex := some h } := by
  rw [lock] at hlock
  split_ifs at hlock with hfree
  exact ⟨hfree, (Option.some.inj hlock).symm⟩

/-- What a step of a thread at a place does, whatever the place is. The invariants below are derived
from this, with the place itself only where it is named here. -/
structure WorkerMove (s : EventQueue) (i : ℕ) (pc pc' : WorkerPc) (t : EventQueue) : Prop where
  workers : t.workers = s.workers.set i pc'
  added : t.added = s.added
  inOrder : t.taken.map Prod.snd ++ t.events = s.taken.map Prod.snd ++ s.events
  /-- A thread that has entered a wait has done so for good. -/
  started : pc.started → pc'.started
  /-- A thread waits only when there are no events, unless for the first time. -/
  awake : pc.awake → pc'.awake ∨ t.events = []
  events : s.events = [] → t.events = []
  /-- The mutex stays with its holder, or it is taken, or it is given back. -/
  mutex : t.mutex = s.mutex ∧ (pc'.holds → pc.holds) ∨
    s.mutex = none ∧ t.mutex = some (.worker i) ∨ pc.holds ∧ ¬ pc'.holds ∧ t.mutex = none

/-- **What an event thread may do.**

**Proof sketch.** Every place of the thread is one of three kinds of step: the mutex is taken, or it
is given back, or the thread goes on without it. Only the look at the queue does more, and takes an
event if there is one. -/
lemma workerStep_spec {i : ℕ} {connected : Bool} {pc : WorkerPc}
    (h : s.workerStep i connected pc = some t) : ∃ pc', s.WorkerMove i pc pc' t := by
  have hlock : ∀ {pc'}, (s.lock (.worker i)).map (fun s => s.move i pc') = some t →
      (pc.started → pc'.started) → (pc.awake → pc'.awake) → s.WorkerMove i pc pc' t := by
    intro pc' hstep hstarted hawake
    obtain ⟨u, hu, rfl⟩ := Option.map_eq_some_iff.mp hstep
    obtain ⟨hfree, rfl⟩ := lock_eq hu
    exact ⟨rfl, rfl, rfl, hstarted, fun h => .inl (hawake h), id, .inr (.inl ⟨hfree, rfl⟩)⟩
  have hmove : ∀ {pc'}, (pc.started → pc'.started) → (pc.awake → pc'.awake) →
      (pc'.holds → pc.holds) → s.WorkerMove i pc pc' (s.move i pc') := by
    intro pc' hstarted hawake hholds
    exact ⟨rfl, rfl, rfl, hstarted, fun h => .inl (hawake h), id, .inl ⟨rfl, hholds⟩⟩
  have hrelease : ∀ {pc'}, (pc.started → pc'.started) → (pc.awake → pc'.awake ∨ s.events = []) →
      (pc.holds ∧ ¬ pc'.holds) → s.WorkerMove i pc pc' (s.release i pc') := by
    intro pc' hstarted hawake hholds
    exact ⟨rfl, rfl, rfl, hstarted, hawake, id, .inr (.inr ⟨hholds.1, hholds.2, rfl⟩)⟩
  cases pc with
  | starting | waking | relocking => exact ⟨_, hlock h (by decide) (by decide)⟩
  | firstWait =>
    obtain rfl := Option.some.inj h
    exact ⟨_, hrelease (by decide) (fun h => by cases h) (by decide)⟩
  | waiting signaled =>
    obtain rfl := Option.some.inj h
    exact ⟨_, hmove (fun _ => rfl) (fun _ => rfl) (fun h => by cases h)⟩
  | looking =>
    rw [workerStep] at h
    cases hevents : s.events with
    | nil =>
      rw [hevents] at h
      obtain rfl := Option.some.inj h
      exact ⟨_, hrelease (by decide) (fun _ => .inr hevents) (by decide)⟩
    | cons e events =>
      rw [hevents] at h
      obtain rfl := Option.some.inj h
      refine ⟨_, rfl, rfl, ?_, fun _ => ?_, fun _ => .inl ?_, fun hnil => ?_,
        .inl ⟨rfl, fun _ => rfl⟩⟩
      · simp [move, hevents]
      · split_ifs <;> rfl
      · split_ifs <;> rfl
      · rw [hevents] at hnil
        cases hnil
  | unlocking =>
    obtain rfl := Option.some.inj h
    exact ⟨_, hrelease (by decide) (fun _ => .inl rfl) (by decide)⟩
  | handling =>
    obtain rfl := Option.some.inj h
    exact ⟨_, hmove (by decide) (by decide) (by decide)⟩

/-- The signal goes to a thread that waits without one, if there is such a thread. -/
lemma condSignal_spec {target : Option ℕ} (h : s.condSignal target = some t) :
    (∃ i, s.workers[i]? = some (.waiting false) ∧ t = s.move i (.waiting true)) ∨
      .waiting false ∉ s.workers ∧ t = s := by
  cases target with
  | some i =>
    rw [condSignal] at h
    split_ifs at h with hi
    exact .inl ⟨i, hi, (Option.some.inj h).symm⟩
  | none =>
    rw [condSignal] at h
    split_ifs at h with hmem
    exact .inr ⟨by simpa using hmem, (Option.some.inj h).symm⟩

/-- **What a step may do.**

**Proof sketch.** By cases on the label. A step of a thread is a move of it; the three steps of
`add_to_event_queue` each ask who has the mutex, and a signal goes to a thread that waits, if there
is one. -/
lemma step_cases {l : QueueLabel} (h : s.step l = some t) :
    (l = .create ∧ t = { s with workers := s.workers ++ [.starting] }) ∨
    (∃ i pc pc', s.workers[i]? = some pc ∧ s.WorkerMove i pc pc' t) ∨
    (s.mutex = none ∧ t = { s with mutex := some (.adder .locked) }) ∨
    (l = .push ∧ s.mutex = some (.adder .locked) ∧ t = { s with
      mutex := some (.adder .pushed), events := s.events ++ [s.added], added := s.added + 1 }) ∨
    (s.mutex = some (.adder .pushed) ∧ .waiting false ∉ s.workers ∧
      t = { s with mutex := some (.adder .signaled) }) ∨
    (∃ i, s.mutex = some (.adder .pushed) ∧ s.workers[i]? = some (.waiting false) ∧
      t = { s.move i (.waiting true) with mutex := some (.adder .signaled) }) ∨
    (s.mutex = some (.adder .signaled) ∧ t = { s with mutex := none }) := by
  cases l with
  | create => exact .inl ⟨rfl, (Option.some.inj h).symm⟩
  | worker i connected =>
    obtain ⟨pc, hpc, hstep⟩ := Option.bind_eq_some_iff.mp h
    obtain ⟨pc', hmove⟩ := workerStep_spec hstep
    exact .inr (.inl ⟨i, pc, pc', hpc, hmove⟩)
  | lock => exact .inr (.inr (.inl (lock_eq h)))
  | push =>
    rw [step] at h
    split_ifs at h with hmutex
    exact .inr (.inr (.inr (.inl ⟨rfl, hmutex, (Option.some.inj h).symm⟩)))
  | signal target =>
    rw [step] at h
    split_ifs at h with hmutex
    obtain ⟨u, hu, rfl⟩ := Option.map_eq_some_iff.mp h
    rcases condSignal_spec hu with ⟨i, hi, rfl⟩ | ⟨hnone, rfl⟩
    · exact .inr (.inr (.inr (.inr (.inr (.inl ⟨i, hmutex, hi, rfl⟩)))))
    · exact .inr (.inr (.inr (.inr (.inl ⟨hmutex, hnone, rfl⟩))))
  | unlock =>
    rw [step] at h
    split_ifs at h with hmutex
    exact .inr (.inr (.inr (.inr (.inr (.inr ⟨hmutex, (Option.some.inj h).symm⟩)))))

/-! ## The invariants -/

/-- **The order of the events** is kept by every step. -/
lemma InOrder.step {l : QueueLabel} (hs : s.InOrder) (h : s.step l = some t) : t.InOrder := by
  rcases step_cases h with ⟨-, rfl⟩ | ⟨i, pc, pc', -, hmove⟩ | ⟨-, rfl⟩ | ⟨-, -, rfl⟩ |
    ⟨-, -, rfl⟩ | ⟨i, -, -, rfl⟩ | ⟨-, rfl⟩
  · exact hs
  · rw [InOrder, hmove.inOrder, hmove.added]
    exact hs
  · exact hs
  · rw [InOrder] at hs ⊢
    rw [← List.append_assoc, hs, List.range_succ]
  · exact hs
  · exact hs
  · exact hs

/-- A thread whose place says so has the mutex, so no one else has. -/
lemma Locked.not_holds (hs : s.Locked) (hmutex : ∀ i, s.mutex ≠ some (.worker i)) {pc : WorkerPc}
    (hpc : pc ∈ s.workers) : ¬ pc.holds := by
  intro hholds
  obtain ⟨i, hi⟩ := List.mem_iff_getElem?.mp hpc
  exact hmutex i (hs i pc hi hholds)

/-- **The mutex** is kept by every step with the thread that has it.

**Proof sketch.** By the cases of a step. When the mutex is with a call of `add_to_event_queue`, no
thread is at a place that has it; a thread that gets to such a place has taken the mutex, and one
that gives it back leaves it. -/
lemma Locked.step {l : QueueLabel} (hs : s.Locked) (h : s.step l = some t) : t.Locked := by
  have hadder : (∀ i, s.mutex ≠ some (.worker i)) →
      (∀ pc ∈ t.workers, pc ∈ s.workers ∨ ¬ pc.holds) → t.Locked := by
    intro hmutex hworkers i pc hi hholds
    refine absurd hholds ?_
    exact (hworkers pc (List.mem_iff_getElem?.mpr ⟨i, hi⟩)).elim (hs.not_holds hmutex) id
  rcases step_cases h with ⟨-, rfl⟩ | ⟨i, pc, pc', hi, hmove⟩ | ⟨hm, rfl⟩ | ⟨-, hm, rfl⟩ |
    ⟨hm, -, rfl⟩ | ⟨i, hm, -, rfl⟩ | ⟨hm, rfl⟩
  · intro j pc hj hholds
    rw [Option.mem_def, List.getElem?_append] at hj
    split_ifs at hj
    · exact hs j pc hj hholds
    · rw [List.mem_singleton.mp (List.mem_of_getElem? hj)] at hholds
      cases hholds
  · intro j pcj hj hholds
    rw [Option.mem_def, hmove.workers, List.getElem?_set] at hj
    split_ifs at hj with hij hlt
    · subst hij
      obtain rfl := Option.some.inj hj
      rcases hmove.mutex with ⟨hm, hpc⟩ | ⟨-, hm⟩ | ⟨-, hnot, -⟩
      · rw [hm]
        exact hs i pc hi (hpc hholds)
      · exact hm
      · exact absurd hholds hnot
    · have hmj := hs j pcj hj hholds
      rcases hmove.mutex with ⟨hm, -⟩ | ⟨hm, -⟩ | ⟨hpc, -, -⟩
      · rw [hm]
        exact hmj
      · rw [hm] at hmj
        cases hmj
      · rw [hs i pc hi hpc] at hmj
        cases hmj
        exact absurd rfl hij
  · exact hadder (by simp [hm]) fun pc hpc => .inl hpc
  · exact hadder (by simp [hm]) fun pc hpc => .inl hpc
  · exact hadder (by simp [hm]) fun pc hpc => .inl hpc
  · refine hadder (by simp [hm]) fun pc hpc => ?_
    rcases List.mem_or_eq_of_mem_set hpc with hpc | rfl
    · exact .inl hpc
    · exact .inr (by decide)
  · exact hadder (by simp [hm]) fun pc hpc => .inl hpc

/-- **Attention** is kept by every step of a run in which the events are served: a thread that looks
goes on until the queue is empty, and a signal that is sent when some thread has entered a wait
reaches a thread that will look, or such a thread is there already.

**Proof sketch.** By the cases of a step. A thread that has been awake is awake after its step, or
has seen an empty queue. What makes the queue not empty is a push, after which a signal is due; that
signal wakes a thread, or all threads that have started are awake. -/
lemma Attended.step {l : QueueLabel} (hs : s.Attended) (hlocked : s.Locked) (hl : s.Served l)
    (h : s.step l = some t) : t.Attended := by
  rcases step_cases h with ⟨-, rfl⟩ | ⟨i, pc, pc', hi, hmove⟩ | ⟨hm, rfl⟩ | ⟨rfl, -, rfl⟩ |
    ⟨hm, hnone, rfl⟩ | ⟨i, hm, hi, rfl⟩ | ⟨hm, rfl⟩
  · intro hne
    rcases hs hne with ⟨pc, hpc, hawake⟩ | ⟨hm, pc, hpc, hstarted⟩
    · exact .inl ⟨pc, List.mem_append_left _ hpc, hawake⟩
    · exact .inr ⟨hm, pc, List.mem_append_left _ hpc, hstarted⟩
  · intro hne
    -- a thread with a property of its place still has it, or it is the one that has moved
    have hkeep : ∀ {P : WorkerPc → Prop}, (∃ q ∈ s.workers, P q) → (P pc → P pc') →
        ∃ q ∈ t.workers, P q := by
      rintro P ⟨q, hq, hP⟩ hpc
      obtain ⟨j, hj⟩ := List.mem_iff_getElem?.mp hq
      by_cases hij : i = j
      · subst hij
        obtain rfl := Option.some.inj (hi.symm.trans hj)
        refine ⟨pc', ?_, hpc hP⟩
        rw [hmove.workers]
        exact List.mem_iff_getElem?.mpr
          ⟨i, List.getElem?_set_self (List.getElem?_eq_some_iff.mp hi).1⟩
      · refine ⟨q, ?_, hP⟩
        rw [hmove.workers]
        exact List.mem_iff_getElem?.mpr ⟨j, by rw [List.getElem?_set_ne hij, hj]⟩
    rcases hs (fun hnil => hne (hmove.events hnil)) with hawake | ⟨hm, hstarted⟩
    · exact .inl (hkeep hawake fun hpc => (hmove.awake hpc).resolve_right hne)
    · refine .inr ⟨?_, hkeep hstarted hmove.started⟩
      rcases hmove.mutex with ⟨hm', -⟩ | ⟨hm', -⟩ | ⟨hpc, -, -⟩
      · rw [hm', hm]
      · rw [hm'] at hm
        cases hm
      · rw [hlocked i pc hi hpc] at hm
        cases hm
  · intro hne
    rcases hs hne with hawake | ⟨hm', -⟩
    · exact .inl hawake
    · rw [hm] at hm'
      cases hm'
  · exact fun _ => .inr ⟨rfl, hl⟩
  · intro hne
    rcases hs hne with hawake | ⟨-, pc, hpc, hstarted⟩
    · exact .inl hawake
    · refine .inl ⟨pc, hpc, ?_⟩
      have hpc' : pc ≠ .waiting false := fun heq => hnone (heq ▸ hpc)
      revert hstarted hpc'
      generalize pc = pc
      rcases pc with _ | _ | signaled | _ | _ | _ | _ | _
      case waiting => cases signaled <;> decide
      all_goals decide
  · refine fun _ => .inl ⟨.waiting true, ?_, rfl⟩
    exact List.mem_iff_getElem?.mpr
      ⟨i, List.getElem?_set_self (List.getElem?_eq_some_iff.mp hi).1⟩
  · intro hne
    rcases hs hne with hawake | ⟨hm', -⟩
    · exact .inl hawake
    · rw [hm] at hm'
      cases hm'

/-- Attended events are not stranded. -/
lemma Attended.not_stranded (hs : s.Attended) : ¬ s.Stranded := by
  rintro ⟨hne, -, hall, hm⟩
  rcases hs hne with ⟨pc, hpc, hawake⟩ | ⟨hm', -⟩
  · rw [hall pc hpc] at hawake
    cases hawake
  · exact hm hm'

/-! ## Runs -/

/-- The invariants at the start. -/
lemma inOrder_init : init.InOrder ∧ init.Locked ∧ init.Attended :=
  ⟨rfl, fun i pc h => (by cases h), fun h => absurd rfl h⟩

/-- **Threads that have not started** can all come to their first wait.

**Proof sketch.** By induction on the threads that have not started: one of them takes the free
mutex, gives it back, and waits. -/
lemma run_firstWaits (n : ℕ) {k : ℕ} (hm : s.mutex = none)
    (hw : s.workers = List.replicate k (.waiting false) ++ List.replicate n .starting) :
    ∃ ls, Run (Fun step) s ls { s with workers := List.replicate (k + n) (.waiting false) } := by
  induction n generalizing s k with
  | zero =>
    have heq : s = { s with workers := List.replicate (k + 0) (.waiting false) } := by
      rw [Nat.add_zero, ← List.append_nil (List.replicate k _)]
      exact congrArg (fun w => { s with workers := w }) hw
    rw [← heq]
    exact ⟨[], .nil s⟩
  | succ n ih =>
    rw [List.replicate_succ] at hw
    have hget (pc : WorkerPc) (l : List WorkerPc) :
        (List.replicate k (WorkerPc.waiting false) ++ pc :: l)[k]? = some pc := by
      rw [List.getElem?_append_right (by simp), List.length_replicate, Nat.sub_self]
      rfl
    have hset (pc pc' : WorkerPc) (l : List WorkerPc) :
        (List.replicate k (WorkerPc.waiting false) ++ pc :: l).set k pc' =
          List.replicate k (WorkerPc.waiting false) ++ pc' :: l := by
      rw [List.set_append_right _ _ (by simp), List.length_replicate, Nat.sub_self]
      rfl
    have hlock : s.step (.worker k true) = some { s with
        mutex := some (.worker k),
        workers := List.replicate k (.waiting false) ++
          .firstWait :: List.replicate n .starting } := by
      rw [step, hw, hget, Option.bind_some, workerStep, lock, if_pos hm, Option.map_some, move]
      simp only [hw, hset]
    have hwait : step { s with
          mutex := some (.worker k),
          workers := List.replicate k (.waiting false) ++ .firstWait :: List.replicate n .starting }
        (.worker k true) = some { s with
          workers := List.replicate k (.waiting false) ++ .waiting false ::
            List.replicate n .starting } := by
      rw [step, hget, Option.bind_some, workerStep, release, move]
      simp only [hset, hm]
    obtain ⟨ls, hrun⟩ := ih (s := { s with
      workers := List.replicate k (.waiting false) ++
        .waiting false :: List.replicate n .starting })
      (k := k + 1) hm (by rw [List.replicate_succ', List.append_assoc]; rfl)
    rw [Nat.add_assoc, Nat.add_comm 1 n] at hrun
    exact ⟨_, .cons hlock (.cons hwait hrun)⟩

/-- **An event that is not served** can be stranded: the threads that there are, and one that is
created, come to their first wait when the signal has been sent.

**Proof sketch.** When the event is queued, no thread has entered a wait, and none has the mutex, so
all of them are at their start. The signal finds nobody, and with one more thread, which makes sure
that there is one, all come to their first wait (`run_firstWaits`). -/
lemma exists_stranded (hs : s.Locked) (h : s.step .push = some t) (hl : ¬ s.Served .push) :
    ∃ ls u, Run (Fun step) t ls u ∧ u.Stranded := by
  rw [step] at h
  split_ifs at h with hm
  obtain rfl := Option.some.inj h
  have hstarting : ∀ pc ∈ s.workers, pc = .starting := fun pc hpc =>
    WorkerPc.eq_starting (fun hstarted => hl ⟨pc, hpc, hstarted⟩)
      (hs.not_holds (by simp [hm]) hpc)
  have hworkers : s.workers ++ [.starting] =
      List.replicate 0 (.waiting false) ++ List.replicate (s.workers.length + 1) .starting := by
    rw [List.replicate_succ', ← List.eq_replicate_of_mem hstarting]
    rfl
  have hnone : s.workers.contains (.waiting false) = false := by
    rw [List.contains_eq_mem, decide_eq_false_iff_not]
    intro hmem
    cases hstarting _ hmem
  obtain ⟨ls, hrun⟩ := run_firstWaits (s.workers.length + 1) (s := { s with
    mutex := none, events := s.events ++ [s.added], added := s.added + 1,
    workers := s.workers ++ [.starting] }) rfl hworkers
  have hsignal : step { s with
        mutex := some (.adder .pushed), events := s.events ++ [s.added], added := s.added + 1 }
      (.signal none) = some { s with
        mutex := some (.adder .signaled), events := s.events ++ [s.added],
        added := s.added + 1 } := by
    rw [step, if_pos rfl, condSignal]
    simp only [hnone]
    rfl
  have hunlock : step { s with
        mutex := some (.adder .signaled), events := s.events ++ [s.added], added := s.added + 1 }
      .unlock = some { s with
        mutex := none, events := s.events ++ [s.added], added := s.added + 1 } := rfl
  have hcreate : step { s with
        mutex := none, events := s.events ++ [s.added], added := s.added + 1 }
      .create = some { s with
        mutex := none, events := s.events ++ [s.added], added := s.added + 1,
        workers := s.workers ++ [.starting] } := rfl
  refine ⟨_, _, .cons hsignal (.cons hunlock (.cons hcreate hrun)), ?_⟩
  exact ⟨by simp, by simp, fun pc hpc => List.eq_of_mem_replicate hpc, nofun⟩

/-- **Stranded events.** In every run, the events that have been taken and those that are queued are
the events added, in order, so each is taken by one thread at most. If every event is queued when
some thread has entered a wait, no state is reached in which events are stranded. An event queued
before that can be stranded.

**Proof sketch.** A thread that has been woken waits only when it has found the queue empty, so it
is enough that some thread is awake or gets the signal of an event. Otherwise no thread has got
further than to its first wait, which it enters without a look at the queue. -/
theorem no_stranded (ls : List QueueLabel) (s : EventQueue) :
    (Run (Fun step) init ls s →
      s.taken.map Prod.snd ++ s.events = List.range s.added ∧ (s.taken.map Prod.snd).Nodup) ∧
    (Run (Under (Fun step) Served) init ls s → ¬ s.Stranded) ∧
    (Run (Fun step) init ls s → ∀ t, s.step .push = some t → ¬ s.Served .push →
      ∃ ls' u, Run (Fun step) t ls' u ∧ u.Stranded) := by
  obtain ⟨horder, hlocked, hattended⟩ := inOrder_init
  refine ⟨fun h => ?_, fun h => ?_, fun h t hpush hserved => ?_⟩
  · have hs : s.InOrder := h.preserves (fun _ _ _ hs hstep => InOrder.step hs hstep) horder
    have hnodup : (s.taken.map Prod.snd ++ s.events).Nodup := by
      rw [hs]
      exact List.nodup_range
    exact ⟨hs, hnodup.sublist (List.sublist_append_left _ _)⟩
  · have hkept : ∀ s l t, s.Locked ∧ s.Attended → Under (Fun step) Served s l t →
        t.Locked ∧ t.Attended :=
      fun s l t hs h => ⟨hs.1.step h.1, hs.2.step hs.1 h.2 h.1⟩
    have hs := h.preserves hkept ⟨hlocked, hattended⟩
    exact hs.2.not_stranded
  · have hs : s.Locked := h.preserves (fun _ _ _ hs hstep => Locked.step hs hstep) hlocked
    exact exists_stranded hs hpush hserved

/-- Two events in a row: one thread is in the handlers of the first event, and the second one is
queued; another thread, which has come to its first wait since, has the signal. -/
theorem no_stranded_two :
    ∃ s, Run (Under (Fun step) Served) init
      [.create, .create, .worker 0 true, .worker 0 true, .lock, .push, .signal (some 0), .unlock,
        .worker 0 true, .worker 0 true, .worker 0 true, .worker 0 true, .worker 1 true,
        .worker 1 true, .lock, .push, .signal (some 1), .unlock] s ∧
      s.workers = [.handling, .waiting true] ∧ s.taken = [(0, 0)] ∧ s.events = [1] ∧
      ¬ s.Stranded := by
  obtain ⟨s, hrun, hworkers, htaken, hevents⟩ := @Run.under_exists_of_foldlM _ _ step Served _
    (fun s => s.workers = [.handling, .waiting true] ∧ s.taken = [(0, 0)] ∧ s.events = [1]) init
    [.create, .create, .worker 0 true, .worker 0 true, .lock, .push, .signal (some 0), .unlock,
      .worker 0 true, .worker 0 true, .worker 0 true, .worker 0 true, .worker 1 true,
      .worker 1 true, .lock, .push, .signal (some 1), .unlock] (by decide)
  exact ⟨s, hrun, hworkers, htaken, hevents, (no_stranded _ s).2.1 hrun⟩

/-- **The first event of a slow start**: it is queued when the only thread has not waited yet, and
then the thread waits. -/
theorem not_no_stranded : ∃ ls s, Run (Fun step) init ls s ∧ s.Stranded :=
  ⟨[.create, .lock, .push, .signal none, .unlock, .worker 0 true, .worker 0 true], _,
    Run.of_foldlM rfl, by decide, by decide, by decide, by decide⟩

end EventQueue

end Meowbot
