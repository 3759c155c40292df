import Meowbot.SendThread

set_option relaxedAutoImplicit false
set_option autoImplicit false

/-!
# The flood limit of the send thread

The thread imitates the message timer that the server keeps for its client: each line adds two
seconds, and no line is sent while the timer is more than ten seconds ahead of the clock. A timer
behind the clock is set to it at the head of the loop, but not after a sleep. A sleep that ends
late therefore lets one line through that the timer does not count, and the number of lines in a
window of `T` seconds can be `T / 2 + 7`, one more than if the clock had been caught up with.

## Main definitions

* `Meowbot.ClockOk` — the readings of a clock that does not go back, with sleeps that last.
* `Meowbot.SendState.Timed` — the invariant of the timer.
* `Meowbot.SendState.window` — the lines sent in an interval of time.

## Main results

* `Meowbot.SendState.Timed.step` — each step keeps the invariant.
* `Meowbot.sendThread_floodLimit` — the bound on the lines in a window.
* `Meowbot.sendThread_sevenAtOnce` — seven lines at one reading of the clock.
-/

namespace Meowbot

open Runs

/-- The condition on a step that a reading of the clock is not before the last one, and not before
the end of the time that the thread asked to sleep for. -/
def ClockOk (s : SendState) : SendAction → Prop
  | .check now => s.now ≤ now
  | .resume now => s.now + (s.nextSend - s.now - 10) ≤ now
  | _ => True

instance (s : SendState) (a : SendAction) : Decidable (ClockOk s a) :=
  match a with
  | .check now => inferInstanceAs (Decidable (s.now ≤ now))
  | .resume now => inferInstanceAs (Decidable (s.now + (s.nextSend - s.now - 10) ≤ now))
  | .kill | .start | .wake | .add _ | .send => isTrue trivial

/-- The relation of a line to a later one: the timer has advanced, and was not behind the time of
the earlier line. -/
def Sent.Before (e f : Sent) : Prop := e.timer + 2 ≤ f.timer ∧ e.time ≤ f.time ∧ e.time ≤ f.timer

namespace SendState

/-- The invariant of the timer: how the timer stands to the clock and to the lines sent so far, at
each place of the thread. What is said of all lines sent carries the limits, the rest is there to
keep it. -/
structure Timed (s : SendState) : Prop where
  /-- No line has been sent before the thread starts. -/
  start : s.pc = .start → s.sent = []
  /-- The clock has never been behind. -/
  clock : 0 ≤ s.now ∧ s.prevNow ≤ s.now ∧ ∀ e ∈ s.sent, e.time ≤ s.now
  /-- The timer has advanced with each line. -/
  timer : ∀ e ∈ s.sent, e.timer + 2 ≤ s.nextSend
  /-- Behind the head of the loop, the timer is not behind the last line. -/
  caughtUp : s.pc = .sleeping ∨ s.pc = .sending → ∀ e ∈ s.sent, e.time ≤ s.nextSend
  /-- A thread sleeps as long as the timer is too far ahead. -/
  sleeping : s.pc = .sleeping → s.now + 10 ≤ s.nextSend
  /-- When a line is sent, the timer is at most ten seconds ahead. -/
  sending : s.pc = .sending → s.nextSend ≤ s.now + 10
  /-- The same, of all lines sent. -/
  limit : ∀ e ∈ s.sent, e.timer ≤ e.time + 10
  /-- The lines are in order. -/
  order : s.sent.Pairwise Sent.Before

/-- The invariant of the timer holds at the start. -/
lemma timed_init : SendState.init.Timed where
  start _ := rfl
  clock := ⟨le_rfl, le_rfl, by simp [SendState.init]⟩
  timer := by simp [SendState.init]
  caughtUp := by simp [SendState.init]
  sleeping := by simp [SendState.init]
  sending := by simp [SendState.init]
  limit := by simp [SendState.init]
  order := List.Pairwise.nil

/-- A change that leaves the times, the timer and the history alone keeps the invariant, if it
does not lead to a sleep, to a line or to the start.

**Proof sketch.** Every part of the invariant is about the times, the timer and the history only,
except at the places that are excluded. -/
lemma Timed.of_eq {s t : SendState} (hs : s.Timed) (hnow : t.now = s.now)
    (hprev : t.prevNow = s.prevNow) (hnext : t.nextSend = s.nextSend) (hsent : t.sent = s.sent)
    (hpc : t.pc = s.pc ∨ t.pc ≠ .start ∧ t.pc ≠ .sleeping ∧ t.pc ≠ .sending) : t.Timed where
  start h := by
    rw [hsent]
    exact hs.start (hpc.elim (fun he => he ▸ h) fun hne => absurd h hne.1)
  clock := by
    rw [hnow, hprev, hsent]
    exact hs.clock
  timer := by
    rw [hnext, hsent]
    exact hs.timer
  caughtUp h := by
    rw [hnext, hsent]
    refine hs.caughtUp (hpc.elim (fun he => he ▸ h) fun hne => ?_)
    exact absurd h (not_or.mpr hne.2)
  sleeping h := by
    rw [hnext, hnow]
    exact hs.sleeping (hpc.elim (fun he => he ▸ h) fun hne => absurd h hne.2.1)
  sending h := by
    rw [hnext, hnow]
    exact hs.sending (hpc.elim (fun he => he ▸ h) fun hne => absurd h hne.2.2)
  limit := by
    rw [hsent]
    exact hs.limit
  order := by
    rw [hsent]
    exact hs.order

/-- The head of the loop keeps the invariant: it sets a timer that is behind to the clock.

**Proof sketch.** The timer is set to the clock if it is behind. It is then no earlier than any line
that has been sent, and a sleep is entered only while the timer is ten seconds ahead. -/
lemma Timed.check {s : SendState} (hs : s.Timed) {now : ℤ}
    (hnow : s.now ≤ now) : (s.check now).Timed := by
  obtain ⟨h0, hprev, htime⟩ := hs.clock
  by_cases hq : s.sendQueue = []
  · rw [SendState.check, if_pos hq]
    exact hs.of_eq rfl rfl rfl rfl (.inr (by simp))
  · -- the timer after it has caught up with the clock
    have hnext : ∃ next, next = (if s.nextSend < now then now else s.nextSend) ∧ now ≤ next ∧
        s.nextSend ≤ next := by
      refine ⟨_, rfl, ?_, ?_⟩
      · split_ifs <;> omega
      · split_ifs <;> omega
    obtain ⟨next, hdef, hle, hge⟩ := hnext
    have hclock : ∀ e ∈ s.sent, e.time ≤ now := fun e he => le_trans (htime e he) hnow
    have htimer : ∀ e ∈ s.sent, e.timer + 2 ≤ next := fun e he => le_trans (hs.timer e he) hge
    have hcaught : ∀ e ∈ s.sent, e.time ≤ next := fun e he => le_trans (hclock e he) hle
    have hzero : 0 ≤ now := le_trans h0 hnow
    have hprev' : s.prevNow ≤ now := le_trans hprev hnow
    have hskew : ¬ now < s.prevNow := not_lt.mpr hprev'
    rw [SendState.check, if_neg hq]
    dsimp only
    rw [← hdef, if_neg hskew]
    split_ifs with hsleep
    · exact ⟨by simp, ⟨hzero, hprev', hclock⟩, htimer, fun _ => hcaught,
        fun _ => by dsimp only; omega, by simp, hs.limit, hs.order⟩
    · exact ⟨by simp, ⟨hzero, hprev', hclock⟩, htimer, fun _ => hcaught, by simp,
        fun _ => by dsimp only; omega, hs.limit, hs.order⟩

/-- The return from a sleep keeps the invariant: the timer is no longer too far ahead. -/
lemma Timed.resume {s : SendState} (hs : s.Timed) (hpc : s.pc = .sleeping) {now : ℤ}
    (hnow : s.now + (s.nextSend - s.now - 10) ≤ now) :
    ({ s with now, pc := .sending } : SendState).Timed := by
  obtain ⟨h0, hprev, htime⟩ := hs.clock
  have hahead := hs.sleeping hpc
  refine ⟨by simp, ⟨?_, ?_, fun e he => ?_⟩, hs.timer, fun _ => hs.caughtUp (.inl hpc), by simp,
    fun _ => ?_, hs.limit, hs.order⟩
  · dsimp only; omega
  · dsimp only; omega
  · exact le_trans (htime e he) (by dsimp only; omega)
  · dsimp only; omega

/-- The penalty is not negative. -/
lemma penalty_nonneg (line : Bytes) : 0 ≤ penalty line := Int.natCast_nonneg _

/-- Sending a line keeps the invariant.

**Proof sketch.** The line is sent at the time that the thread has read, and the timer moves on by
two seconds and the penalty of the line. The lines sent before are at earlier times, and their
timers at least two seconds earlier. -/
lemma Timed.sendFront {s : SendState} (hs : s.Timed) (hpc : s.pc = .sending) (d : SendqData)
    (rest : List SendqData) : (s.sendFront d rest).Timed := by
  obtain ⟨h0, hprev, htime⟩ := hs.clock
  have hlimit := hs.sending hpc
  have hcaught := hs.caughtUp (.inr hpc)
  have hpen := penalty_nonneg d.line
  have hpc' : (s.sendFront d rest).pc = .top ∨ (s.sendFront d rest).pc = .dead := by
    simp only [SendState.sendFront]
    split_ifs <;> simp
  have hmem : ∀ e ∈ (s.sendFront d rest).sent,
      e ∈ s.sent ∨ e = { data := d, time := s.now, timer := s.nextSend } := by
    intro e he
    simpa [SendState.sendFront] using he
  refine ⟨?_, ⟨h0, le_rfl, fun e he => ?_⟩, fun e he => ?_, ?_, ?_, ?_, fun e he => ?_, ?_⟩
  · rcases hpc' with h | h <;> simp [h]
  · rcases hmem e he with hold | rfl
    · exact htime e hold
    · exact le_rfl
  · change e.timer + 2 ≤ s.nextSend + 2 + penalty d.line
    rcases hmem e he with hold | rfl
    · have := hs.timer e hold
      omega
    · dsimp only
      omega
  · rcases hpc' with h | h <;> simp [h]
  · rcases hpc' with h | h <;> simp [h]
  · rcases hpc' with h | h <;> simp [h]
  · rcases hmem e he with hold | rfl
    · exact hs.limit e hold
    · exact hlimit
  · refine List.pairwise_append.mpr ⟨hs.order, List.pairwise_singleton _ _, fun e he f hf => ?_⟩
    obtain rfl := List.mem_singleton.mp hf
    exact ⟨hs.timer e he, htime e he, hcaught e he⟩

/-- **The invariant of the timer** is kept by every step at which the clock behaves.

**Proof sketch.** By cases on the step. Only the steps of the thread that look at the clock, sleep
or send do more than `Timed.of_eq` covers; each of them has a lemma above. -/
lemma Timed.step {s t : SendState} {a : SendAction} (hs : s.Timed) (h : sendStep s a = some t)
    (hclock : ClockOk s a) : t.Timed := by
  cases a with
  | add d =>
    simp only [sendStep] at h
    split_ifs at h
    obtain rfl := Option.some.inj h
    unfold addToSendQueue
    split_ifs
    · exact hs
    · refine hs.of_eq rfl rfl rfl rfl ?_
      cases hpc : s.pc <;> simp [SendPc.signal]
  | kill =>
    obtain rfl := Option.some.inj h
    refine hs.of_eq rfl rfl rfl rfl ?_
    cases hpc : s.pc <;> simp [SendPc.signal]
  | start =>
    simp only [sendStep] at h
    split_ifs at h with hpc
    obtain rfl := Option.some.inj h
    have hsent := hs.start hpc
    obtain ⟨h0, -, -⟩ := hs.clock
    refine ⟨by simp, ⟨h0, h0, ?_⟩, ?_, by simp, by simp, by simp, ?_, ?_⟩ <;> simp [hsent]
  | wake =>
    cases hpc : s.pc <;> simp only [sendStep, hpc, Option.some.injEq, reduceCtorEq] at h
    subst h
    refine hs.of_eq rfl rfl rfl rfl (.inr ?_)
    dsimp only
    split_ifs <;> simp
  | check now =>
    simp only [sendStep] at h
    split_ifs at h
    obtain rfl := Option.some.inj h
    exact hs.check hclock
  | resume now =>
    simp only [sendStep] at h
    split_ifs at h with hpc
    obtain rfl := Option.some.inj h
    exact hs.resume hpc hclock
  | send =>
    obtain ⟨hpc, d, rest, -, rfl⟩ := sendStep_send h
    exact hs.sendFront hpc d rest

/-- The lines sent at the readings of the clock from `a` to `a + T`. -/
def window (s : SendState) (a : ℤ) (T : ℕ) : List Sent :=
  s.sent.filter fun e => a ≤ e.time ∧ e.time ≤ a + T

end SendState

/-- Along lines that are in order, the timer advances by two seconds a line. -/
lemma exists_timer_ge (e : Sent) (es : List Sent) (h : (e :: es).Pairwise Sent.Before) :
    ∃ f ∈ e :: es, e.timer + 2 * es.length ≤ f.timer := by
  induction es generalizing e with
  | nil => exact ⟨e, List.mem_singleton_self e, by simp⟩
  | cons x es ih =>
    obtain ⟨hx, hrest⟩ := List.pairwise_cons.mp h
    obtain ⟨f, hf, hle⟩ := ih x hrest
    have := (hx x List.mem_cons_self).1
    refine ⟨f, List.mem_cons_of_mem _ hf, ?_⟩
    rw [List.length_cons]
    push_cast
    omega

/-- **The flood limit.** In every run with a clock that does not go back and sleeps that do not end
early: the timer is never more than ten seconds ahead of the clock when a line is sent, and in a
window of `T` seconds at most `T / 2 + 7` lines are sent, and at most `T / 2 + 6` if the first of
them was not sent with a timer behind the clock.

**Proof sketch.** The timer advances by two seconds a line and ends at most ten seconds ahead of
the end of the window. From the second line on it is not behind the time of the first line, since
it caught up with the clock at the head of the loop in between; if the first line was not sent
behind time, this holds from the first line on. -/
theorem sendThread_floodLimit {as : List SendAction} {s : SendState}
    (h : Run (Under (Fun sendStep) ClockOk) .init as s) :
    (∀ e ∈ s.sent, e.timer ≤ e.time + 10) ∧
    ∀ (a : ℤ) (T : ℕ), (s.window a T).length ≤ T / 2 + 7 ∧
      ∀ e, (s.window a T).head? = some e → e.time ≤ e.timer →
        (s.window a T).length ≤ T / 2 + 6 := by
  have hs : s.Timed :=
    h.preserves (fun _ _ _ hs hstep => hs.step hstep.1 hstep.2) SendState.timed_init
  refine ⟨hs.limit, fun a T => ?_⟩
  have horder : (s.window a T).Pairwise Sent.Before := hs.order.filter _
  have hbounds : ∀ f ∈ s.window a T, a ≤ f.time ∧ f.timer ≤ a + T + 10 := by
    intro f hf
    obtain ⟨hmem, hin⟩ := List.mem_filter.mp hf
    simp only [decide_eq_true_eq] at hin
    have := hs.limit f hmem
    exact ⟨hin.1, by omega⟩
  rcases hw : s.window a T with _ | ⟨e, es⟩
  · exact ⟨Nat.zero_le _, by simp⟩
  · rw [hw] at horder hbounds
    obtain ⟨he, -⟩ := hbounds e List.mem_cons_self
    constructor
    · rcases es with _ | ⟨x, es⟩
      · rw [List.length_singleton]
        omega
      · obtain ⟨hx, hrest⟩ := List.pairwise_cons.mp horder
        obtain ⟨f, hf, hle⟩ := exists_timer_ge x es hrest
        obtain ⟨-, hf'⟩ := hbounds f (List.mem_cons_of_mem _ hf)
        obtain ⟨-, -, hx'⟩ := hx x List.mem_cons_self
        simp only [List.length_cons]
        omega
    · intro e' he' hbehind
      obtain rfl := Option.some.inj he'
      obtain ⟨f, hf, hle⟩ := exists_timer_ge e es horder
      obtain ⟨-, hf'⟩ := hbounds f hf
      rw [List.length_cons]
      omega

/-- Thirteen lines are queued. Six are sent at the time 1000, the sleep of two seconds before the
seventh ends at the time 1100, and the rest is sent at once. -/
def oversleptRun : List SendAction :=
  [.start] ++ List.replicate 13 (.add ⟨bytes "A", 0⟩) ++ [.wake] ++
    (List.replicate 5 [.check 1000, .send]).flatten ++ [.check 1000, .resume 1000, .send] ++
    [.check 1000, .resume 1100, .send] ++
    (List.replicate 5 [.check 1100, .send]).flatten ++ [.check 1100, .resume 1100, .send]

/-- **Seven lines at once**, in a window of no seconds. -/
theorem sendThread_sevenAtOnce :
    ∃ as s, Run (Under (Fun sendStep) ClockOk) .init as s ∧ 0 / 2 + 6 < (s.window 1100 0).length := by
  have hfold : ((oversleptRun.foldlM
      (fun s a => if ClockOk s a then sendStep s a else none) SendState.init).map
        fun s => (s.window 1100 0).length) = some 7 := by
    decide +kernel
  obtain ⟨s, hs, hlen⟩ := Option.map_eq_some_iff.mp hfold
  exact ⟨oversleptRun, s, Run.under_of_foldlM hs, by omega⟩

/-- The flood limit for that run. -/
theorem sendThread_floodLimit_overslept :
    ∃ s, Run (Under (Fun sendStep) ClockOk) .init oversleptRun s ∧
      (s.window 1100 0).length ≤ 0 / 2 + 7 := by
  have hfold : (oversleptRun.foldlM
      (fun s a => if ClockOk s a then sendStep s a else none) SendState.init).isSome = true := by
    decide +kernel
  obtain ⟨s, hs⟩ := Option.isSome_iff_exists.mp hfold
  have hrun := Run.under_of_foldlM hs
  exact ⟨s, hrun, ((sendThread_floodLimit hrun).2 1100 0).1⟩

end Meowbot
