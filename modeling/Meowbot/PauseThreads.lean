import Meowbot.Basic
import Meowbot.Lib.Runs

set_option relaxedAutoImplicit false
set_option autoImplicit false

/-!
# Pausing the event threads and the timer thread (`ircbot.cpp`)

`pause_event_threads(true)` raises a level and then looks at the state of every other thread until
it has seen none running. An event thread and the timer thread read the level before they set their
state to running, so a thread may be between the two when it is looked at. Every access to the
level, to a state or to the mutex of the queue is a step; a call of `pause_event_threads` is made
from an event handler, from a timer callback or from any other thread.

The threads are neither created nor killed in a run, and the mutex `pause_event_threads_fxn_lock`
has one holder at a time, so the call that is going on is part of the state.

## Main definitions

* `Meowbot.EventPc`, `Meowbot.TimerPc`, `Meowbot.PausePc` — where the threads are.
* `Meowbot.Threads`, `Meowbot.Threads.step` — the threads with what they share, and their steps.
* `Meowbot.Threads.Exclusive` — nobody else runs a handler or a callback while a pause lasts.
* `Meowbot.Threads.SeenClearly` — a thread that is looked at is not between reading and setting.

## Main results

* `Meowbot.Threads.pause_exclusive` — runs in which the threads are seen clearly are exclusive.
-/

namespace Meowbot

open Runs

/-! ## States -/

/-- `IRCEVTHREAD_STATE` -/
inductive ThreadState where
  | idle | waiting | running | paused
  deriving DecidableEq

/-- A thread. -/
inductive Tid where
  | event (i : ℕ)
  | timer
  | other (k : ℕ)
  deriving DecidableEq

/-- Where an event thread is: what it does next. The level is read with the queue locked, and again
and again while the thread is paused, and each reading is a place of its own. -/
inductive EventPc where
  /-- Lock the queue for the first time. -/
  | starting
  /-- Set the first state. -/
  | init
  /-- Give the queue back, in `pthread_cond_wait`. -/
  | toWait
  /-- Lock the queue, in `pthread_cond_wait`, after a wake-up. -/
  | waiting
  /-- Look whether there are events. -/
  | looking
  /-- Read the level. -/
  | testing
  | pausing
  | pausedUnlocking
  /-- Read the level again. -/
  | polling
  | relocking
  /-- Look whether there are still events. -/
  | rechecking
  /-- Set the state to running. -/
  | tested
  /-- Take an event. -/
  | taking
  | unlocking
  /-- In the handlers of an event. -/
  | handling
  | returning
  /-- Set the state to waiting. -/
  | finished
  deriving DecidableEq

/-- Where the timer thread is: what it does next. It takes no lock, and reads the level in front of
each pass over the timers. -/
inductive TimerPc where
  /-- Read the level. -/
  | testing
  | pausing
  /-- Read the level again. -/
  | polling
  /-- Set the state to running. -/
  | tested
  /-- Go on with the next timer, or set the state to waiting. -/
  | running
  /-- In the callback of a timer. -/
  | callback
  deriving DecidableEq

/-- Where a call of `pause_event_threads` is: on its way to pause, in the wait for the timer thread
and for the event threads, or on its way back from a pause. -/
inductive PausePc where
  /-- Look at the level and the owner before pausing. -/
  | check
  /-- Raise the level. -/
  | raise
  /-- Look whether it was raised before. -/
  | nested
  | setOwner
  /-- Look at the state of the timer thread. -/
  | waitTimer
  /-- Look at the state of an event thread. -/
  | scan (i : ℕ)
  /-- Lower the level after too long a wait. -/
  | giveUp
  | clear
  /-- Look at the level and the owner before going on. -/
  | checkOff
  /-- Lower the level. -/
  | lower
  | waitTimerOff
  | scanOff (i : ℕ)
  | clearOff
  deriving DecidableEq

/-- The thread that a call of `pause_event_threads(true)` looks at. -/
def PausePc.looksAt : PausePc → Option Tid
  | .waitTimer => some .timer
  | .scan i => some (.event i)
  | _ => none

/-- `ircevent_thread_state`, as far as the threads look at it. -/
structure EventThread where
  pc : EventPc
  state : ThreadState
  deriving DecidableEq

/-- The threads and what they share: the level and the owner of the pause, the lock of the function
with the call that has it, the queue with its mutex, and the states that the threads report. -/
structure Threads where
  /-- `event_thread_pause_level` -/
  level : ℤ
  /-- `event_thread_lock_owner` -/
  owner : Option Tid
  /-- The call that has `pause_event_threads_fxn_lock`. -/
  call : Option (Tid × PausePc)
  /-- Who has `event_queue_mutex`. -/
  queueMutex : Option Tid
  /-- The number of queued events. -/
  events : ℕ
  eventThreads : List EventThread
  timerPc : TimerPc
  /-- `timer_thread_state` -/
  timerState : ThreadState
  /-- For the record: the callers whose pauses have succeeded and have not been taken back. -/
  paused : List Tid

/-- A step of one of the threads. What a thread finds in the world, such as a timer that is due or a
wait that has been too long, is part of the label. -/
inductive ThreadLabel where
  /-- An event thread goes on; an event that it takes is of a connection that still exists, or not.
  -/
  | event (i : ℕ) (connected : Bool)
  /-- The timer thread goes on; a timer is due, or not. -/
  | timer (due : Bool)
  /-- Another thread locks the queue. -/
  | lockQueue (k : ℕ)
  /-- The other thread unlocks the queue, with so many events in it. -/
  | unlockQueue (events : ℕ)
  /-- A thread calls `pause_event_threads`. -/
  | call (t : Tid) (pause : Bool)
  /-- The call goes on; it has taken too long, or not. -/
  | go (expired : Bool)

namespace Threads

/-! ## Steps -/

/-- So many event threads before they have started, and the timer thread. -/
def init (n : ℕ) : Threads :=
  { level := 0, owner := none, call := none, queueMutex := none, events := 0,
    eventThreads := List.replicate n { pc := .starting, state := .idle },
    timerPc := .testing, timerState := .idle, paused := [] }

/-- A thread is in a call. -/
def InCall (s : Threads) (t : Tid) : Prop := ∃ c ∈ s.call, c.1 = t

instance (s : Threads) (t : Tid) : Decidable (s.InCall t) :=
  inferInstanceAs (Decidable (∃ c ∈ s.call, c.1 = t))

/-- `pthread_mutex_lock`, which blocks as long as somebody has the queue. -/
def lockQueue (s : Threads) (t : Tid) : Option Threads :=
  if s.queueMutex = none then some { s with queueMutex := some t } else none

/-- `pthread_mutex_unlock` -/
def unlockQueue (s : Threads) : Threads := { s with queueMutex := none }

/-- An event thread goes to another place. -/
def moveEvent (s : Threads) (i : ℕ) (e : EventThread) (pc : EventPc) : Threads :=
  { s with eventThreads := s.eventThreads.set i { e with pc } }

/-- An event thread sets its state and goes to another place. -/
def setEvent (s : Threads) (i : ℕ) (state : ThreadState) (pc : EventPc) : Threads :=
  { s with eventThreads := s.eventThreads.set i { pc, state } }

/-- `event_thread`: each place is followed by the next one of the source. A thread that finds the
level raised reports that it is paused, gives the queue back, and looks at the level until it is
down again. -/
def eventStep (s : Threads) (i : ℕ) (e : EventThread) (connected : Bool) : Option Threads :=
  match e.pc with
  | .starting => (s.lockQueue (.event i)).map fun s => s.moveEvent i e .init
  | .init => some (s.setEvent i .waiting .toWait)
  | .toWait => some (s.unlockQueue.moveEvent i e .waiting)
  | .waiting => (s.lockQueue (.event i)).map fun s => s.moveEvent i e .looking
  | .looking => some (s.moveEvent i e (if s.events = 0 then .toWait else .testing))
  | .testing => some (s.moveEvent i e (if s.level > 0 then .pausing else .tested))
  | .pausing => some (s.setEvent i .paused .pausedUnlocking)
  | .pausedUnlocking => some (s.unlockQueue.moveEvent i e .polling)
  | .polling => some (s.moveEvent i e (if s.level > 0 then .polling else .relocking))
  | .relocking => (s.lockQueue (.event i)).map fun s => s.moveEvent i e .rechecking
  | .rechecking =>
    some (if s.events = 0 then s.setEvent i .waiting .toWait else s.moveEvent i e .tested)
  | .tested => some (s.setEvent i .running .taking)
  | .taking =>
    some ({ s with events := s.events - 1 }.moveEvent i e (if connected then .unlocking else .finished))
  | .unlocking => some (s.unlockQueue.moveEvent i e .handling)
  | .handling => some (s.moveEvent i e .returning)
  | .returning => (s.lockQueue (.event i)).map fun s => s.moveEvent i e .finished
  | .finished => some (s.setEvent i .waiting .looking)

/-- `timer_thread`: it reads the level, and waits while it is not zero; otherwise it reports that it
is running, and runs the callbacks that are due. -/
def timerStep (s : Threads) (due : Bool) : Threads :=
  match s.timerPc with
  | .testing => { s with timerPc := if s.level ≠ 0 then .pausing else .tested }
  | .pausing => { s with timerState := .paused, timerPc := .polling }
  | .polling => { s with timerPc := if s.level ≠ 0 then .polling else .tested }
  | .tested => { s with timerState := .running, timerPc := .running }
  | .running =>
    if due then { s with timerPc := .callback } else { s with timerState := .waiting, timerPc := .testing }
  | .callback => { s with timerPc := .running }

/-- A thread that may call `pause_event_threads`. -/
def CanCall (s : Threads) : Tid → Prop
  | .event i => ∃ e ∈ s.eventThreads[i]?, e.pc = .handling
  | .timer => s.timerPc = .callback
  | .other _ => True

instance (s : Threads) : (t : Tid) → Decidable (s.CanCall t)
  | .event i => inferInstanceAs (Decidable (∃ e ∈ s.eventThreads[i]?, e.pc = .handling))
  | .timer => inferInstanceAs (Decidable (s.timerPc = .callback))
  | .other _ => .isTrue trivial

/-- Another thread has paused the threads. -/
def OwnedByOther (s : Threads) (t : Tid) : Prop := s.level > 0 ∧ s.owner ≠ none ∧ s.owner ≠ some t

instance (s : Threads) (t : Tid) : Decidable (s.OwnedByOther t) :=
  inferInstanceAs (Decidable (s.level > 0 ∧ s.owner ≠ none ∧ s.owner ≠ some t))

/-- `pause_event_threads`, up to its lock: `trylock` returns `-1` when the lock is taken, `lock`
blocks. -/
def callStep (s : Threads) (t : Tid) (pause : Bool) : Option Threads :=
  if s.CanCall t ∧ ¬ s.InCall t then
    match s.call, pause with
    | none, true => some { s with call := some (t, .check) }
    | none, false => some { s with call := some (t, .checkOff) }
    | some _, true => some s
    | some _, false => none
  else none

/-- A call goes to another place. -/
def goto (s : Threads) (t : Tid) (pc : PausePc) : Threads := { s with call := some (t, pc) }

/-- A call returns a negative value, or does so after it has changed nothing. -/
def giveBack (s : Threads) : Threads := { s with call := none }

/-- A call of `pause_event_threads(true)` returns `0` or `1`. -/
def succeed (s : Threads) (t : Tid) : Threads := { s with call := none, paused := t :: s.paused }

/-- `if(event_thread_pause_level == 0) event_thread_lock_owner = 0;` -/
def clearOwner (s : Threads) : Threads := { s with owner := if s.level = 0 then none else s.owner }

/-- `pause_event_threads`, behind its lock. A call that pauses raises the level and waits until the
timer thread and all event threads but its own are not running; one that ends the pause lowers it,
and waits until none of them reports a pause any more. -/
def goStep (s : Threads) (t : Tid) (expired : Bool) : PausePc → Threads
  | .check => if s.OwnedByOther t then s.giveBack else s.goto t .raise
  | .raise => { s with level := s.level + 1 }.goto t .nested
  | .nested => if s.level ≥ 2 then s.succeed t else s.goto t .setOwner
  | .setOwner => { s with owner := some t }.goto t (if t ≠ Tid.timer then .waitTimer else .scan 0)
  | .waitTimer =>
    s.goto t (if s.timerState = .running then if expired then .giveUp else .waitTimer else .scan 0)
  | .scan i =>
    match s.eventThreads[i]? with
    | none => s.succeed t
    | some e =>
      s.goto t (if t ≠ .event i ∧ e.state = .running then if expired then .giveUp else .scan 0
        else .scan (i + 1))
  | .giveUp => { s with level := s.level - 1 }.goto t .clear
  | .clear => s.clearOwner.giveBack
  | .checkOff => if s.OwnedByOther t ∨ s.level ≤ 0 then s.giveBack else s.goto t .lower
  | .lower =>
    { s with level := s.level - 1, paused := s.paused.erase t }.goto t
      (if t ≠ Tid.timer then .waitTimerOff else .scanOff 0)
  | .waitTimerOff =>
    if s.timerState = .paused then if expired then s.giveBack else s else s.goto t (.scanOff 0)
  | .scanOff i =>
    match s.eventThreads[i]? with
    | none => s.goto t .clearOff
    | some e =>
      if t ≠ .event i ∧ e.state = .paused then if expired then s.giveBack else s.goto t (.scanOff 0)
      else s.goto t (.scanOff (i + 1))
  | .clearOff => s.clearOwner.giveBack

/-- The step function. A thread does nothing else while it is in a call, and the queue is locked by
one thread at a time. -/
def step (s : Threads) : ThreadLabel → Option Threads
  | .event i connected =>
    if s.InCall (.event i) then none else (s.eventThreads[i]?).bind fun e => s.eventStep i e connected
  | .timer due => if s.InCall .timer then none else some (s.timerStep due)
  | .lockQueue k => s.lockQueue (.other k)
  | .unlockQueue events =>
    match s.queueMutex with
    | some (.other _) => some { s.unlockQueue with events }
    | _ => none
  | .call t pause => s.callStep t pause
  | .go expired => s.call.map fun c => s.goStep c.1 expired c.2

/-! ## Exclusion -/

/-- A thread runs a handler, a command or a callback. -/
def Executing (s : Threads) : Tid → Prop
  | .event i => ∃ e ∈ s.eventThreads[i]?, e.pc = .handling
  | .timer => s.timerPc = .callback
  | .other _ => False

instance (s : Threads) : (w : Tid) → Decidable (s.Executing w)
  | .event i => inferInstanceAs (Decidable (∃ e ∈ s.eventThreads[i]?, e.pc = .handling))
  | .timer => inferInstanceAs (Decidable (s.timerPc = .callback))
  | .other _ => .isFalse id

/-- **Exclusion**: as long as a pause lasts, no thread but the caller's runs a handler, a command or
a callback. A pause lasts from the return of the call to the step that lowers the level again. -/
def Exclusive (s : Threads) : Prop := ∀ t ∈ s.paused, ∀ w ≠ t, ¬ s.Executing w

/-- A thread has read a level of `0` and has not yet set its state to running. -/
def Between (s : Threads) : Tid → Prop
  | .event i => ∃ e ∈ s.eventThreads[i]?, e.pc = .relocking ∨ e.pc = .rechecking ∨ e.pc = .tested
  | .timer => s.timerPc = .tested
  | .other _ => False

instance (s : Threads) : (w : Tid) → Decidable (s.Between w)
  | .event i =>
    inferInstanceAs (Decidable (∃ e ∈ s.eventThreads[i]?,
      e.pc = .relocking ∨ e.pc = .rechecking ∨ e.pc = .tested))
  | .timer => inferInstanceAs (Decidable (s.timerPc = .tested))
  | .other _ => .isFalse id

/-- **The threads are seen clearly**: `pause_event_threads(true)` looks at no thread that has read a
level of `0` and has not yet set its state to running. -/
def SeenClearly (s : Threads) : ThreadLabel → Prop
  | .go _ => ∀ c ∈ s.call, ∀ w ∈ c.2.looksAt, ¬ s.Between w
  | _ => True

instance (s : Threads) : (l : ThreadLabel) → Decidable (s.SeenClearly l)
  | .go _ => inferInstanceAs (Decidable (∀ c ∈ s.call, ∀ w ∈ c.2.looksAt, ¬ s.Between w))
  | .event .. | .timer .. | .lockQueue .. | .unlockQueue .. | .call .. => .isTrue trivial

end Threads

/-! ## The states that the threads show -/

/-- The state of an event thread is running. -/
def EventPc.busy : EventPc → Bool
  | .taking | .unlocking | .handling | .returning | .finished => true
  | _ => false

/-- The state of the timer thread is running. -/
def TimerPc.busy : TimerPc → Bool
  | .running | .callback => true
  | _ => false

/-- An event thread will read the level before it runs handlers. -/
def EventPc.calm : EventPc → Bool
  | .starting | .init | .toWait | .waiting | .looking | .testing | .pausing | .pausedUnlocking
  | .polling => true
  | _ => false

/-- The timer thread will read the level before it runs callbacks. -/
def TimerPc.calm : TimerPc → Bool
  | .testing | .pausing | .polling => true
  | _ => false

/-- What a call has added to the level and has not yet succeeded with. -/
def PausePc.added : PausePc → ℤ
  | .nested | .setOwner | .waitTimer | .scan _ | .giveUp => 1
  | _ => 0

/-- Calls do not keep the level down. -/
lemma PausePc.added_nonneg (pc : PausePc) : 0 ≤ pc.added := by
  unfold added
  split <;> decide

/-- An event thread shows where it is. -/
def EventThread.Sound (e : EventThread) : Prop := e.state = .running ↔ e.pc.busy

namespace Threads

variable {s s' : Threads}

/-- `pthread_mutex_lock` has taken the queue. -/
lemma lockQueue_eq {t : Tid} (h : s.lockQueue t = some s') : s' = { s with queueMutex := some t } := by
  rw [lockQueue] at h
  split_ifs at h
  exact (Option.some.inj h).symm

/-- A step from a thread to a thread that is as sound, and calm if it has to be. -/
structure EventMove (s : Threads) (e e' : EventThread) : Prop where
  sound : e.Sound → e'.Sound
  calm : s.level > 0 → e.pc.calm → e'.pc.calm

/-- What a step of an event thread makes of the threads. -/
def withEvent (s : Threads) (i : ℕ) (mutex : Option Tid) (events : ℕ) (e : EventThread) : Threads :=
  { s with queueMutex := mutex, events, eventThreads := s.eventThreads.set i e }

/-- **What an event thread may change**: the queue, its mutex, and where the thread itself is. While
the level is raised, it does not come past reading it.

**Proof sketch.** By the place of the thread. It takes the mutex of the queue, gives it back, or
moves on; it becomes busy only behind reading the level as zero. -/
lemma eventStep_spec {i : ℕ} {e : EventThread} {connected : Bool}
    (h : s.eventStep i e connected = some s') :
    ∃ mutex events e', s' = s.withEvent i mutex events e' ∧ s.EventMove e e' := by
  obtain ⟨pc, state⟩ := e
  have hlock : ∀ {pc'}, (s.lockQueue (.event i)).map (fun s => s.moveEvent i ⟨pc, state⟩ pc') = some s' →
      s.EventMove ⟨pc, state⟩ ⟨pc', state⟩ →
      ∃ mutex events e', s' = s.withEvent i mutex events e' ∧ s.EventMove ⟨pc, state⟩ e' := by
    intro pc' hstep hmove
    obtain ⟨t, ht, rfl⟩ := Option.map_eq_some_iff.mp hstep
    rw [lockQueue_eq ht]
    exact ⟨_, _, _, rfl, hmove⟩
  have hset : ∀ {pc' state'}, (pc'.calm ∨ ¬ pc.calm) → (state' = .running ↔ pc'.busy) →
      s.EventMove ⟨pc, state⟩ ⟨pc', state'⟩ := by
    intro pc' state' hcalm hsound
    exact ⟨fun _ => hsound, fun _ h => hcalm.resolve_right (not_not_intro h)⟩
  have hmove : ∀ {pc'}, (s.level > 0 → pc.calm → pc'.calm) → (pc.busy = pc'.busy) →
      s.EventMove ⟨pc, state⟩ ⟨pc', state⟩ := by
    intro pc' hcalm hbusy
    exact ⟨fun hsound => hsound.trans (by rw [hbusy]), hcalm⟩
  cases pc with
  | starting | waiting | relocking | returning => exact hlock h (hmove (fun _ => by decide) rfl)
  | init | tested | pausing | finished =>
    exact ⟨_, _, _, (Option.some.inj h).symm, hset (by decide) (by decide)⟩
  | toWait | pausedUnlocking | unlocking | handling =>
    exact ⟨_, _, _, (Option.some.inj h).symm, hmove (fun _ => by decide) rfl⟩
  | looking =>
    exact ⟨_, _, _, (Option.some.inj h).symm, hmove (fun _ _ => by split_ifs <;> rfl)
      (by split_ifs <;> rfl)⟩
  | taking =>
    exact ⟨_, _, _, (Option.some.inj h).symm, hmove (fun _ hcalm => by cases hcalm)
      (by split_ifs <;> rfl)⟩
  | testing | polling =>
    -- the level is read
    exact ⟨_, _, _, (Option.some.inj h).symm, hmove (fun hlevel _ => by rw [if_pos hlevel]; rfl)
      (by split_ifs <;> rfl)⟩
  | rechecking =>
    obtain rfl := Option.some.inj h
    split_ifs
    · exact ⟨_, _, _, rfl, hset (by decide) (by decide)⟩
    · exact ⟨_, _, _, rfl, hmove (fun _ => by decide) rfl⟩

/-- **What the timer thread may change**: where it is. While the level is raised, it does not come
past reading it.

**Proof sketch.** One case for each place. The state that is reported is that of the place, and the
level is read in two of the places only. -/
lemma timerStep_spec (s : Threads) (due : Bool) :
    ∃ pc state, s.timerStep due = { s with timerPc := pc, timerState := state } ∧
      ((s.timerState = .running ↔ s.timerPc.busy) → (state = .running ↔ pc.busy)) ∧
      (s.level > 0 → s.timerPc.calm → pc.calm) := by
  rcases hpc : s.timerPc with _ | _ | _ | _ | _ | _
  · refine ⟨_, s.timerState, by rw [timerStep, hpc], fun h => h.trans ?_, fun hlevel _ => ?_⟩
    · split_ifs <;> rfl
    · rw [if_pos hlevel.ne']
      rfl
  · exact ⟨_, _, by rw [timerStep, hpc], fun _ => by decide, fun _ _ => rfl⟩
  · refine ⟨_, s.timerState, by rw [timerStep, hpc], fun h => h.trans ?_, fun hlevel _ => ?_⟩
    · split_ifs <;> rfl
    · rw [if_pos hlevel.ne']
      rfl
  · exact ⟨_, _, by rw [timerStep, hpc], fun _ => by decide, fun _ h => by cases h⟩
  · cases due
    · exact ⟨_, _, by rw [timerStep, hpc]; rfl, fun _ => by decide, fun _ h => by cases h⟩
    · exact ⟨.callback, s.timerState, by rw [timerStep, hpc]; rfl, id, fun _ h => by cases h⟩
  · exact ⟨.running, s.timerState, by rw [timerStep, hpc], id, fun _ h => by cases h⟩

/-! ## The invariant -/

/-- A thread will read the level before it runs handlers or callbacks. -/
def Calm (s : Threads) : Tid → Prop
  | .event i => ∀ e ∈ s.eventThreads[i]?, e.pc.calm
  | .timer => s.timerPc.calm
  | .other _ => True

/-- A calm thread runs nothing. -/
lemma Calm.not_executing {w : Tid} (h : s.Calm w) : ¬ s.Executing w := by
  cases w with
  | event i =>
    rintro ⟨e, he, hpc⟩
    have := h e he
    rw [hpc] at this
    cases this
  | timer =>
    intro hpc
    rw [Calm, hpc] at h
    cases h
  | other k => exact id

/-- What the calls have added to the level and have not yet succeeded with. -/
def added (s : Threads) : ℤ := (s.call.map fun c => c.2.added).getD 0

/-- What a call knows about the pauses and the owner. -/
def CallKnows (paused : List Tid) (owner : Option Tid) (t : Tid) : PausePc → Prop
  | .raise | .nested => ∀ u ∈ paused, u = t
  | .setOwner | .giveUp => paused = []
  | .waitTimer | .scan _ => paused = [] ∧ owner = some t
  | .lower => t ∈ paused ∧ ∀ u ∈ paused, u = t
  | _ => True

/-- The threads that a call has looked at when it comes to an event thread. -/
def Scanned (i : ℕ) : Tid → Prop
  | .event j => j < i
  | _ => True

/-- Before the first event thread, a call has looked at the timer thread only. -/
lemma calm_of_scanned_zero {w : Tid} (hscanned : Scanned 0 w) (htimer : w = .timer → s.Calm w) :
    s.Calm w := by
  cases w with
  | event j => exact absurd hscanned (Nat.not_lt_zero j)
  | timer => exact htimer rfl
  | other k => trivial

/-- **The threads that must be calm**: those that are paused, and those that a call has looked at.
-/
def Watched (s : Threads) (w : Tid) : Prop :=
  (∃ t ∈ s.paused, w ≠ t) ∨ ∃ t i, s.call = some (t, .scan i) ∧ w ≠ t ∧ Scanned i w

/-- **What holds at every moment** of a run in which the threads are seen clearly. -/
structure Good (s : Threads) : Prop where
  sound : ∀ e ∈ s.eventThreads, e.Sound
  timerSound : s.timerState = .running ↔ s.timerPc.busy
  level : s.level = s.paused.length + s.added
  owner : ∀ t ∈ s.paused, s.owner = some t
  knows : ∀ t pc, s.call = some (t, pc) → CallKnows s.paused s.owner t pc
  calm : ∀ w, s.Watched w → s.Calm w

/-- Nobody has to be calm unless the level is raised. -/
lemma Good.level_pos (h : Good s) {w : Tid} (hw : s.Watched w) : s.level > 0 := by
  rw [h.level]
  rcases hw with ⟨t, ht, -⟩ | ⟨t, i, hcall, -, -⟩
  · have hlen := List.length_pos_of_mem ht
    have hadded : 0 ≤ s.added := by
      rw [added]
      rcases s.call with _ | ⟨u, pc⟩
      · exact le_rfl
      · exact pc.added_nonneg
    omega
  · have hadded : s.added = 1 := by
      rw [added, hcall]
      rfl
    omega

/-- The start. -/
lemma Good.init (n : ℕ) : Good (init n) where
  sound e he := by
    obtain rfl := List.eq_of_mem_replicate he
    exact iff_of_false nofun nofun
  timerSound := iff_of_false nofun nofun
  level := rfl
  owner t ht := absurd ht List.not_mem_nil
  knows t pc h := by cases h
  calm w hw := by
    rcases hw with ⟨t, ht, -⟩ | ⟨t, i, hcall, -⟩
    · exact absurd ht List.not_mem_nil
    · cases hcall

/-! ## Steps of the threads -/

/-- An event thread goes on.

**Proof sketch.** The level, the owner and what the calls know do not change. A thread that has been
calm is calm after its step, by what such a step may do, and all other threads have not moved. -/
lemma Good.event (h : Good s) {i : ℕ} {e e' : EventThread} (he : s.eventThreads[i]? = some e)
    (hmove : s.EventMove e e') (mutex : Option Tid) (events : ℕ) :
    Good (s.withEvent i mutex events e') where
  sound f hf := by
    rcases List.mem_or_eq_of_mem_set hf with hf | rfl
    · exact h.sound f hf
    · exact hmove.sound (h.sound e (List.mem_of_getElem? he))
  timerSound := h.timerSound
  level := h.level
  owner := h.owner
  knows := h.knows
  calm w hw := by
    have hcalm := h.calm w hw
    cases w with
    | event j =>
      intro f hf
      rw [Option.mem_def, withEvent, List.getElem?_set] at hf
      split_ifs at hf with hij hlt
      · subst hij
        obtain rfl := Option.some.inj hf
        exact hmove.calm (h.level_pos hw) (hcalm e he)
      · exact hcalm f hf
    | timer => exact hcalm
    | other k => trivial

/-- The timer thread goes on. -/
lemma Good.timer (h : Good s) (due : Bool) : Good (s.timerStep due) := by
  obtain ⟨pc, state, heq, hsound, hcalm⟩ := s.timerStep_spec due
  rw [heq]
  refine ⟨h.sound, hsound h.timerSound, h.level, h.owner, h.knows, fun w hw => ?_⟩
  have hbefore := h.calm w hw
  cases w with
  | event j => exact hbefore
  | timer => exact hcalm (h.level_pos hw) hbefore
  | other k => trivial

/-- Another thread uses the queue. -/
lemma Good.queue (h : Good s) (mutex : Option Tid) (events : ℕ) :
    Good { s with queueMutex := mutex, events } :=
  ⟨h.sound, h.timerSound, h.level, h.owner, h.knows, fun w hw => h.calm w hw⟩

/-! ## Steps of a call -/

/-- A thread that is seen clearly, and not running, is calm. -/
lemma Good.calm_event (h : Good s) {i : ℕ} {e : EventThread} (he : s.eventThreads[i]? = some e)
    (hclear : ¬ s.Between (.event i)) (hstate : e.state ≠ .running) : s.Calm (.event i) := by
  intro f hf
  obtain rfl := Option.some.inj (he.symm.trans hf)
  have hbusy : ¬ e.pc.busy := fun hb => hstate ((h.sound e (List.mem_of_getElem? he)).mpr hb)
  by_contra hcalm
  refine hclear ⟨e, he, ?_⟩
  revert hbusy hcalm
  generalize e.pc = pc
  cases pc <;> decide

/-- The timer thread, seen clearly and not running, is calm. -/
lemma Good.calm_timer (h : Good s) (hclear : ¬ s.Between .timer) (hstate : s.timerState ≠ .running) :
    s.Calm .timer := by
  have hbusy : ¬ s.timerPc.busy := fun hb => hstate (h.timerSound.mpr hb)
  change s.timerPc.calm
  by_contra hcalm
  refine hclear ?_
  change s.timerPc = .tested
  revert hbusy hcalm
  generalize s.timerPc = pc
  cases pc <;> decide

/-- A call goes to another place, and may change the level and the owner. -/
lemma Good.of_call (h : Good s) {level : ℤ} {owner : Option Tid} {t : Tid} {pc : PausePc}
    (hlevel : level = s.paused.length + pc.added) (howner : ∀ u ∈ s.paused, owner = some u)
    (hknows : CallKnows s.paused owner t pc)
    (hscan : ∀ i, pc = .scan i → ∀ w ≠ t, Scanned i w → s.Calm w) :
    Good { s with level, owner, call := some (t, pc) } where
  sound := h.sound
  timerSound := h.timerSound
  level := hlevel
  owner := howner
  knows u pc' hcall := by
    cases hcall
    exact hknows
  calm w hw := by
    rcases hw with hpaused | ⟨u, i, hcall, hne, hi⟩
    · exact h.calm w (.inl hpaused)
    · cases hcall
      exact hscan i rfl w hne hi

/-- A call returns, and may have changed the level and the owner. -/
lemma Good.of_return (h : Good s) {level : ℤ} {owner : Option Tid}
    (hlevel : level = s.paused.length) (howner : ∀ u ∈ s.paused, owner = some u) :
    Good { s with level, owner, call := none } where
  sound := h.sound
  timerSound := h.timerSound
  level := hlevel.trans (add_zero _).symm
  owner := howner
  knows u pc' hcall := by cases hcall
  calm w hw := by
    rcases hw with hpaused | ⟨u, i, hcall, -, -⟩
    · exact h.calm w (.inl hpaused)
    · cases hcall

/-- **A call succeeds** when all the others are calm.

**Proof sketch.** One more pause is counted, of the thread that owns the level. By assumption all
others are calm, which is what the invariant asks for while a pause is held. -/
lemma Good.succeed (h : Good s) {t : Tid} (hlevel : s.level = s.paused.length + 1)
    (howner : s.owner = some t) (hpaused : ∀ u ∈ s.paused, u = t)
    (hcalm : ∀ w ≠ t, s.Calm w) : Good (s.succeed t) where
  sound := h.sound
  timerSound := h.timerSound
  level := by
    change s.level = ((t :: s.paused).length : ℕ) + 0
    rw [hlevel, List.length_cons]
    push_cast
    omega
  owner u hu := by
    rcases List.mem_cons.mp hu with rfl | hu
    · exact howner
    · exact hpaused u hu ▸ howner
  knows u pc' hcall := by cases hcall
  calm w hw := by
    rcases hw with ⟨u, hu, hne⟩ | ⟨u, i, hcall, -, -⟩
    · rcases List.mem_cons.mp hu with rfl | hu
      · exact hcalm w hne
      · exact hcalm w (hpaused u hu ▸ hne)
    · cases hcall

/-- A caller who finds no other owner is the one whose pauses last. -/
lemma Good.paused_eq (h : Good s) {t : Tid} (hown : ¬ s.OwnedByOther t) (hadded : 0 ≤ s.added) :
    ∀ u ∈ s.paused, u = t := by
  intro u hu
  have hlen := List.length_pos_of_mem hu
  have howner := h.owner u hu
  have hlevel : s.level > 0 := by
    rw [h.level]
    omega
  by_contra hne
  refine hown ⟨hlevel, by rw [howner]; nofun, fun heq => hne ?_⟩
  exact Option.some.inj (howner.symm.trans heq)

/-- While a pause lasts, the owner is not cleared. -/
lemma Good.clearOwner (h : Good s) (hadded : s.added = 0) :
    ∀ u ∈ s.paused, (if s.level = 0 then none else s.owner) = some u := by
  intro u hu
  have hlen := List.length_pos_of_mem hu
  rw [if_neg (by rw [h.level]; omega)]
  exact h.owner u hu

/-- **A pause is taken back.**

**Proof sketch.** One pause less is counted, and the level goes down with it; the pauses that are
left are of the same owner. -/
lemma Good.lower (h : Good s) {t : Tid} (hlevel : s.level = s.paused.length) (ht : t ∈ s.paused)
    {pc : PausePc} (hpc : pc = .waitTimerOff ∨ pc = .scanOff 0) :
    Good ({ s with level := s.level - 1, paused := s.paused.erase t }.goto t pc) where
  sound := h.sound
  timerSound := h.timerSound
  level := by
    have hlen := List.length_erase_of_mem ht
    have hpos := List.length_pos_of_mem ht
    change s.level - 1 = ((s.paused.erase t).length : ℕ) + pc.added
    have hadded : pc.added = 0 := by rcases hpc with rfl | rfl <;> rfl
    rw [hadded, hlen, hlevel]
    omega
  owner u hu := h.owner u (List.mem_of_mem_erase hu)
  knows u pc' hcall := by
    cases hcall
    rcases hpc with rfl | rfl <;> trivial
  calm w hw := by
    rcases hw with ⟨u, hu, hne⟩ | ⟨u, i, hcall, -, -⟩
    · exact h.calm w (.inl ⟨u, List.mem_of_mem_erase hu, hne⟩)
    · cases hcall
      rcases hpc with hpc | hpc <;> cases hpc

/-- **A call goes on.**

**Proof sketch.** By the place of the call. Raising and lowering the level is counted as added or as
a pause; the scan goes on behind a thread that it has seen waiting, which is calm then, as it is
seen clearly; when all have been seen, the call succeeds. -/
lemma Good.go (h : Good s) {t : Tid} {pc : PausePc} (hcall : s.call = some (t, pc)) (expired : Bool)
    (hclear : s.SeenClearly (.go expired)) : Good (s.goStep t expired pc) := by
  have hadded : s.added = pc.added := by rw [added, hcall]; rfl
  have hlevel : s.level = s.paused.length + pc.added := by rw [h.level, hadded]
  have hknows := h.knows t pc hcall
  have hclear : ∀ w ∈ pc.looksAt, ¬ s.Between w := hclear _ hcall
  have hreturn : pc.added = 0 → Good s.giveBack := fun h0 =>
    h.of_return (by rw [hlevel, h0, add_zero]) h.owner
  have hgoto : ∀ pc', pc'.added = pc.added → CallKnows s.paused s.owner t pc' →
      (∀ i, pc' = .scan i → ∀ w ≠ t, Scanned i w → s.Calm w) → Good (s.goto t pc') :=
    fun pc' h0 hk hscan => h.of_call (by rw [hlevel, h0]) h.owner hk hscan
  cases pc with
  | check =>
    rw [goStep]
    split_ifs with hown
    · exact hreturn rfl
    · exact hgoto _ rfl (h.paused_eq hown hadded.ge) nofun
  | raise =>
    refine h.of_call ?_ h.owner hknows nofun
    rw [hlevel]
    rfl
  | nested =>
    have hlevel : s.level = s.paused.length + 1 := hlevel
    rw [goStep]
    split_ifs with hnested
    · obtain ⟨u, hu⟩ := List.exists_mem_of_length_pos (l := s.paused) (by omega)
      obtain rfl := hknows u hu
      exact h.succeed hlevel (h.owner u hu) hknows fun w hw => h.calm w (.inl ⟨u, hu, hw⟩)
    · exact hgoto _ rfl (List.eq_nil_of_length_eq_zero (by omega)) nofun
  | setOwner =>
    have hnone : s.paused = [] := hknows
    have hstart : ∀ pc', pc'.added = 1 → CallKnows s.paused (some t) t pc' →
        (∀ i, pc' = .scan i → ∀ w ≠ t, Scanned i w → s.Calm w) →
        Good ({ s with owner := some t }.goto t pc') :=
      fun pc' h0 hk hscan => h.of_call (by rw [hlevel, h0]; rfl) (by simp [hnone]) hk hscan
    rw [goStep]
    split_ifs with htimer
    · exact hstart _ rfl ⟨hnone, rfl⟩ nofun
    · refine hstart _ rfl ⟨hnone, rfl⟩ fun i hi w hw hscanned => ?_
      cases hi
      exact calm_of_scanned_zero hscanned fun heq =>
        absurd (heq.trans (not_not.mp htimer).symm) hw
  | waitTimer =>
    rw [goStep]
    split_ifs with hrunning hexpired
    · exact hgoto _ rfl hknows.1 nofun
    · exact hgoto _ rfl hknows nofun
    · refine hgoto _ rfl hknows fun i hi w hw hscanned => ?_
      cases hi
      refine calm_of_scanned_zero hscanned ?_
      rintro rfl
      exact h.calm_timer (hclear _ rfl) hrunning
  | scan i =>
    have hwatched : ∀ w ≠ t, Scanned i w → s.Calm w := fun w hw hi =>
      h.calm w (.inr ⟨t, i, hcall, hw, hi⟩)
    rw [goStep]
    split
    · rename_i hnone
      refine h.succeed hlevel hknows.2 (by simp [hknows.1]) fun w hw => ?_
      cases w with
      | event j =>
        rcases Nat.lt_or_ge j i with hlt | hge
        · exact hwatched _ hw hlt
        · intro e he
          rw [List.getElem?_eq_none ((List.getElem?_eq_none_iff.mp hnone).trans hge)] at he
          cases he
      | timer => exact hwatched _ hw trivial
      | other k => trivial
    · rename_i e he
      split_ifs with hrunning hexpired
      · exact hgoto _ rfl hknows.1 nofun
      · refine hgoto _ rfl hknows fun j hj w hw hscanned => ?_
        cases hj
        refine calm_of_scanned_zero hscanned ?_
        rintro rfl
        exact hwatched _ hw trivial
      · refine hgoto _ rfl hknows fun j hj w hw hscanned => ?_
        cases hj
        cases w with
        | event j =>
          rcases Nat.lt_succ_iff_lt_or_eq.mp hscanned with hlt | rfl
          · exact hwatched _ hw hlt
          · exact h.calm_event he (hclear _ rfl) fun hstate => hrunning ⟨hw.symm, hstate⟩
        | timer => exact hwatched _ hw trivial
        | other k => trivial
  | giveUp =>
    refine h.of_call ?_ h.owner trivial nofun
    rw [hlevel]
    exact Int.add_sub_cancel _ _
  | clear => exact h.of_return (hlevel.trans (add_zero _)) (h.clearOwner hadded)
  | checkOff =>
    rw [goStep]
    split_ifs with hown
    · exact hreturn rfl
    · obtain ⟨hown, hpos⟩ := not_or.mp hown
      have hall := h.paused_eq hown hadded.ge
      have hlevel : s.level = s.paused.length + 0 := hlevel
      obtain ⟨u, hu⟩ := List.exists_mem_of_length_pos (l := s.paused) (by omega)
      exact hgoto _ rfl ⟨hall u hu ▸ hu, hall⟩ nofun
  | lower =>
    rw [goStep]
    refine h.lower (hlevel.trans (add_zero _)) hknows.1 ?_
    split_ifs
    · exact .inl rfl
    · exact .inr rfl
  | waitTimerOff =>
    rw [goStep]
    split_ifs with hpaused hexpired
    · exact hreturn rfl
    · exact h
    · exact hgoto _ rfl trivial nofun
  | scanOff i =>
    rw [goStep]
    split
    · exact hgoto _ rfl trivial nofun
    · split_ifs with hpaused hexpired
      · exact hreturn rfl
      · exact hgoto _ rfl trivial nofun
      · exact hgoto _ rfl trivial nofun
  | clearOff => exact h.of_return (hlevel.trans (add_zero _)) (h.clearOwner hadded)

/-- **A step** in which the threads are seen clearly.

**Proof sketch.** By cases on the step: the threads and the calls have a lemma each, and taking or
giving back the queue changes nothing that is looked at. -/
lemma Good.step (h : Good s) {l : ThreadLabel} (hclear : s.SeenClearly l) (hstep : s.step l = some s') :
    Good s' := by
  cases l with
  | event i connected =>
    rw [Threads.step] at hstep
    split_ifs at hstep
    obtain ⟨e, he, hmove⟩ := Option.bind_eq_some_iff.mp hstep
    obtain ⟨mutex, events, e', rfl, hspec⟩ := eventStep_spec hmove
    exact h.event he hspec mutex events
  | timer due =>
    rw [Threads.step] at hstep
    split_ifs at hstep
    obtain rfl := Option.some.inj hstep
    exact h.timer due
  | lockQueue k =>
    rw [lockQueue_eq hstep]
    exact h.queue _ _
  | unlockQueue events =>
    rw [Threads.step] at hstep
    split at hstep
    · obtain rfl := Option.some.inj hstep
      exact h.queue _ _
    · cases hstep
  | call t pause =>
    rw [Threads.step] at hstep
    unfold callStep at hstep
    split_ifs at hstep
    split at hstep
    · rename_i hnone
      obtain rfl := Option.some.inj hstep
      refine h.of_call (h.level.trans ?_) h.owner trivial nofun
      rw [added, hnone]
      rfl
    · rename_i hnone
      obtain rfl := Option.some.inj hstep
      refine h.of_call (h.level.trans ?_) h.owner trivial nofun
      rw [added, hnone]
      rfl
    · obtain rfl := Option.some.inj hstep
      exact h
    · cases hstep
  | go expired =>
    obtain ⟨⟨t, pc⟩, hcall, rfl⟩ := Option.map_eq_some_iff.mp hstep
    exact h.go hcall expired hclear

/-- **Exclusive pause**: in every run in which `pause_event_threads(true)` looks at no thread
between reading the level and setting its state, nobody but the caller runs a handler, a command or
a timer callback from the return of a successful call on until the pause is taken back.

**Proof sketch.** A thread that has been looked at and was not running will read the level before it
runs anything, and the level is raised until the pause is taken back. -/
theorem pause_exclusive {n : ℕ} {ls : List ThreadLabel}
    (hrun : Run (Under (Fun step) SeenClearly) (init n) ls s) : s.Exclusive := by
  have hgood : Good s :=
    hrun.preserves (fun _ _ _ hs hstep => hs.step hstep.2 hstep.1) (Good.init n)
  exact fun t ht w hw => (hgood.calm w (.inl ⟨t, ht, hw⟩)).not_executing

/-- So many events are queued, and the first event thread finds a level of `0`. -/
def findsNoPause (events : ℕ) : List ThreadLabel :=
  List.replicate 3 (.event 0 true) ++ [.lockQueue 0, .unlockQueue events] ++
    List.replicate 3 (.event 0 true)

/-- A thread other than the timer thread pauses so many event threads, without a wait. -/
def pauses (t : Tid) (n : ℕ) : List ThreadLabel := .call t true :: List.replicate (n + 6) (.go false)

/-- An event thread that runs a command pauses the other one, which has an event to handle, and the
timer thread. -/
theorem pause_exclusive_command :
    ∃ ls s, Run (Under (Fun step) SeenClearly) (init 2) ls s ∧
      s.paused = [.event 0] ∧ s.Executing (.event 0) ∧ s.Exclusive := by
  have hlabels : ∃ s ∈
      (findsNoPause 2 ++ List.replicate 3 (ThreadLabel.event 0 true) ++ pauses (.event 0) 2 ++
        List.replicate 8 (ThreadLabel.event 1 true) ++
        List.replicate 3 (ThreadLabel.timer true)).foldlM
        (fun s l => if SeenClearly s l then step s l else none) (init 2),
      s.paused = [.event 0] ∧ s.Executing (.event 0) := by decide +kernel
  obtain ⟨s, hrun, hpaused, hexec⟩ := Run.under_exists_of_foldlM hlabels
  exact ⟨_, s, hrun, hpaused, hexec, pause_exclusive hrun⟩

/-- **Handlers and callbacks run while the threads are paused**: another thread pauses them after an
event thread has found a level of `0`; and after the timer thread has.

**Proof sketch.** Both runs are evaluated: the level is read as zero, the other thread pauses, and
then the handlers or the callbacks are entered. -/
theorem not_pause_exclusive :
    (∃ ls s, Run (Fun step) (init 1) ls s ∧ s.paused = [.other 0] ∧ s.Executing (.event 0) ∧
      ¬ s.Exclusive) ∧
    (∃ ls s, Run (Fun step) (init 1) ls s ∧ s.paused = [.other 0] ∧ s.Executing .timer ∧
      ¬ s.Exclusive) := by
  have hbroken : ∀ {s : Threads} {w : Tid}, s.paused = [.other 0] → w ≠ .other 0 → s.Executing w →
      ¬ s.Exclusive := by
    intro s w hpaused hw hexec h
    exact h (.other 0) (by rw [hpaused]; exact List.mem_cons_self) w hw hexec
  have hevent : ∃ s ∈
      (findsNoPause 1 ++ pauses (.other 0) 1 ++
        List.replicate 3 (ThreadLabel.event 0 true)).foldlM step (init 1),
      s.paused = [.other 0] ∧ s.Executing (.event 0) := by decide +kernel
  have htimer : ∃ s ∈
      ([ThreadLabel.timer true] ++ pauses (.other 0) 1 ++
        List.replicate 2 (ThreadLabel.timer true)).foldlM step (init 1),
      s.paused = [.other 0] ∧ s.Executing .timer := by decide +kernel
  obtain ⟨s, hrun, hpaused, hexec⟩ := Run.exists_of_foldlM hevent
  obtain ⟨s', hrun', hpaused', hexec'⟩ := Run.exists_of_foldlM htimer
  exact ⟨⟨_, s, hrun, hpaused, hexec, hbroken hpaused (w := .event 0) nofun hexec⟩,
    ⟨_, s', hrun', hpaused', hexec', hbroken hpaused' (w := .timer) nofun hexec'⟩⟩

end Threads

end Meowbot
