import Meowbot.PauseThreads

set_option relaxedAutoImplicit false
set_option autoImplicit false

/-!
# What a failed pause leaves (`ircbot::pause_event_threads`)

A call that waits too long returns `-1`. `pause_event_threads(true)` lowers the level before it
does, and clears the owner if the level is back at `0`. `pause_event_threads(false)` has lowered the
level and returns without raising it again.

## Main definitions

* `Meowbot.Threads.goReturn` — what a call returns.
* `Meowbot.Threads.Returns` — a whole call, among steps of the other threads.
* `Meowbot.Threads.Restored` — level, owner and lock are as before the call.

## Main results

* `Meowbot.Threads.Knows.go` — what a call knows of the level and of the owner from before it.
* `Meowbot.Threads.Knows.failed` — how a call fails.
* `Meowbot.Threads.failed_restored_iff` — when a failed call restores them.
-/

namespace Meowbot

open Runs

namespace Threads

/-! ## Calls -/

/-- What a call returns in its next step, if it returns: -1 for a call of another owner and after
too long a wait, 1 where the level shows that nothing is to be done, and 0 when all threads have
been seen at rest or let go. -/
def goReturn (s : Threads) (t : Tid) (expired : Bool) : PausePc → Option ℤ
  | .check => if s.OwnedByOther t then some (-1) else none
  | .nested => if s.level ≥ 2 then some 1 else none
  | .scan i => if s.eventThreads[i]? = none then some 0 else none
  | .clear => some (-1)
  | .checkOff =>
    if s.OwnedByOther t then some (-1) else if s.level ≤ 0 then some 1 else none
  | .waitTimerOff => if s.timerState = .paused ∧ expired then some (-1) else none
  | .scanOff i =>
    match s.eventThreads[i]? with
    | none => none
    | some e => if t ≠ .event i ∧ e.state = .paused ∧ expired then some (-1) else none
  | .clearOff => some 0
  | _ => none

/-- A step in which no call returns. -/
def Stays (s : Threads) : ThreadLabel → Prop
  | .go expired => ∀ c ∈ s.call, s.goReturn c.1 expired c.2 = none
  | _ => True

instance (s : Threads) : (l : ThreadLabel) → Decidable (s.Stays l)
  | .go expired =>
    inferInstanceAs (Decidable (∀ c ∈ s.call, s.goReturn c.1 expired c.2 = none))
  | .event _ _ => .isTrue trivial
  | .timer _ => .isTrue trivial
  | .lockQueue _ => .isTrue trivial
  | .unlockQueue _ => .isTrue trivial
  | .call _ _ => .isTrue trivial

/-- A call, its result and the state in which it has returned. A call that finds the lock taken
returns at once; any other one runs, with steps of other threads in between, until its own step
returns. -/
inductive Returns (t : Tid) (pause : Bool) (s₀ : Threads) : ℤ → Threads → Prop
  /-- `pthread_mutex_trylock` fails. -/
  | busy {s : Threads} (hbusy : s₀.call ≠ none) (hcall : s₀.step (.call t pause) = some s) :
      Returns t pause s₀ (-1) s
  /-- Other threads go on during the call. -/
  | done {s₁ s : Threads} {ls : List ThreadLabel} {pc : PausePc} {expired : Bool} {v : ℤ}
      (hfree : s₀.call = none) (hcall : s₀.step (.call t pause) = some s₁)
      (hrun : Run (Under (Fun step) Stays) s₁ ls s) (hpc : s.call = some (t, pc))
      (hreturn : s.goReturn t expired pc = some v) : Returns t pause s₀ v (s.goStep t expired pc)

/-- **The call has left nothing**: the level and the owner are as before it, and the caller does not
have the lock. -/
def Restored (s₀ : Threads) (t : Tid) (s : Threads) : Prop :=
  s.level = s₀.level ∧ s.owner = s₀.owner ∧ ¬ s.InCall t

variable {s₀ s s' : Threads} {t : Tid} {pause : Bool}

/-- A call returns in the steps in which it gives the lock back.

**Proof sketch.** By the place of the call: the lock is given back exactly in the steps that return,
whether with success or not. -/
lemma goStep_call (hcall : s.call ≠ none) (expired : Bool) (pc : PausePc) :
    (s.goStep t expired pc).call = none ↔ (s.goReturn t expired pc).isSome := by
  cases pc with
  | check | nested =>
    rw [goStep, goReturn]
    split_ifs <;> simp [giveBack, succeed, goto]
  | raise | setOwner | waitTimer | giveUp | lower => simp [goStep, goReturn, goto]
  | scan i =>
    rw [goStep, goReturn]
    rcases s.eventThreads[i]? with _ | e
    · simp [succeed]
    · simp [goto]
  | clear | clearOff => simp [goStep, goReturn, giveBack]
  | checkOff =>
    rw [goStep, goReturn]
    split_ifs <;> simp_all [giveBack, goto]
  | waitTimerOff =>
    rw [goStep, goReturn]
    split_ifs <;> simp_all [giveBack, goto]
  | scanOff i =>
    rw [goStep, goReturn]
    rcases s.eventThreads[i]? with _ | e
    · simp [goto]
    · dsimp only
      split_ifs <;> simp_all [giveBack, goto]

/-! ## What a call knows -/

/-- What a call knows of the level and of the owner from before it. While it has the lock nobody
else changes the two, so it knows what its own steps have made of them. -/
def Knows (s₀ : Threads) (t : Tid) (pause : Bool) (s : Threads) : PausePc → Prop
  | .check => pause = true ∧ s.level = s₀.level ∧ s.owner = s₀.owner
  | .raise => pause = true ∧ s.level = s₀.level
  | .nested => pause = true ∧ s.level = s₀.level + 1
  | .setOwner => pause = true ∧ s.level = s₀.level + 1 ∧ s₀.level ≤ 0
  | .waitTimer | .scan _ | .giveUp =>
    pause = true ∧ s.level = s₀.level + 1 ∧ s₀.level ≤ 0 ∧ s.owner = some t
  | .clear => pause = true ∧ s.level = s₀.level ∧ s₀.level ≤ 0 ∧ s.owner = some t
  | .checkOff => pause = false ∧ s.level = s₀.level ∧ s.owner = s₀.owner
  | .lower => pause = false ∧ s.level = s₀.level ∧ ¬ s₀.OwnedByOther t
  | .waitTimerOff | .scanOff _ | .clearOff =>
    pause = false ∧ s.level = s₀.level - 1 ∧ ¬ s₀.OwnedByOther t

/-- What is known depends on the level and on the owner only. -/
lemma Knows.of_eq {pc : PausePc} (h : Knows s₀ t pause s pc) (hlevel : s'.level = s.level)
    (howner : s'.owner = s.owner) : Knows s₀ t pause s' pc := by
  cases pc <;> simpa only [Knows, hlevel, howner] using h

/-- Whether another thread has paused the threads depends on the level and on the owner only. -/
lemma ownedByOther_congr (hlevel : s.level = s₀.level) (howner : s.owner = s₀.owner) :
    s.OwnedByOther t ↔ s₀.OwnedByOther t := by
  rw [OwnedByOther, OwnedByOther, hlevel, howner]

/-- **A call goes on** and knows what it has to know at its next place.

**Proof sketch.** By the place of the call, and the branches there. Up to the first wait, the level
is raised by one and the owner is as before; behind it the call is the owner. -/
lemma Knows.go {pc : PausePc} (h : Knows s₀ t pause s pc) (hcall : s.call = some (t, pc))
    {expired : Bool} (hstay : s.goReturn t expired pc = none) :
    ∃ pc', (s.goStep t expired pc).call = some (t, pc') ∧
      Knows s₀ t pause (s.goStep t expired pc) pc' := by
  cases pc with
  | check =>
    rw [goReturn] at hstay
    rw [goStep]
    split_ifs at hstay ⊢
    exact ⟨.raise, rfl, h.1, h.2.1⟩
  | raise => exact ⟨.nested, rfl, h.1, congrArg (· + 1) h.2⟩
  | nested =>
    obtain ⟨hpause, hlevel⟩ := h
    rw [goReturn] at hstay
    rw [goStep]
    split_ifs at hstay ⊢ with hnested
    exact ⟨.setOwner, rfl, hpause, hlevel, by omega⟩
  | setOwner =>
    obtain ⟨hpause, hlevel, hzero⟩ := h
    rw [goStep]
    split_ifs
    · exact ⟨.waitTimer, rfl, hpause, hlevel, hzero, rfl⟩
    · exact ⟨.scan 0, rfl, hpause, hlevel, hzero, rfl⟩
  | waitTimer =>
    rw [goStep]
    split_ifs
    · exact ⟨.giveUp, rfl, h⟩
    · exact ⟨.waitTimer, rfl, h⟩
    · exact ⟨.scan 0, rfl, h⟩
  | scan i =>
    rw [goReturn] at hstay
    rw [goStep]
    rcases he : s.eventThreads[i]? with _ | e
    · rw [if_pos he] at hstay
      cases hstay
    · dsimp only
      split_ifs
      · exact ⟨.giveUp, rfl, h⟩
      · exact ⟨.scan 0, rfl, h⟩
      · exact ⟨.scan (i + 1), rfl, h⟩
  | giveUp =>
    obtain ⟨hpause, hlevel, hzero, howner⟩ := h
    refine ⟨.clear, rfl, hpause, ?_, hzero, howner⟩
    show s.level - 1 = s₀.level
    omega
  | clear => cases hstay
  | checkOff =>
    rw [goReturn] at hstay
    rw [goStep]
    split_ifs at hstay with hown hzero
    rw [if_neg (not_or.mpr ⟨hown, hzero⟩)]
    exact ⟨.lower, rfl, h.1, h.2.1, fun h₀ => hown ((ownedByOther_congr h.2.1 h.2.2).mpr h₀)⟩
  | lower =>
    obtain ⟨hpause, hlevel, hown⟩ := h
    have hlower : s.level - 1 = s₀.level - 1 := by rw [hlevel]
    rw [goStep]
    split_ifs
    · exact ⟨.waitTimerOff, rfl, hpause, hlower, hown⟩
    · exact ⟨.scanOff 0, rfl, hpause, hlower, hown⟩
  | waitTimerOff =>
    rw [goReturn] at hstay
    rw [goStep]
    by_cases hpaused : s.timerState = .paused
    · have hexpired : ¬ expired := fun hexpired => by
        rw [if_pos ⟨hpaused, hexpired⟩] at hstay
        cases hstay
      rw [if_pos hpaused, if_neg hexpired]
      exact ⟨.waitTimerOff, hcall, h⟩
    · rw [if_neg hpaused]
      exact ⟨.scanOff 0, rfl, h⟩
  | scanOff i =>
    rw [goReturn] at hstay
    rw [goStep]
    rcases he : s.eventThreads[i]? with _ | e
    · exact ⟨.clearOff, rfl, h⟩
    · rw [he] at hstay
      dsimp only at hstay ⊢
      by_cases hpaused : t ≠ .event i ∧ e.state = .paused
      · have hexpired : ¬ expired := fun hexpired => by
          rw [if_pos ⟨hpaused.1, hpaused.2, hexpired⟩] at hstay
          cases hstay
        rw [if_pos hpaused, if_neg hexpired]
        exact ⟨.scanOff 0, rfl, h⟩
      · rw [if_neg hpaused]
        exact ⟨.scanOff (i + 1), rfl, h⟩
  | clearOff => cases hstay

/-- **A step** during a call leaves the call going on, and what it knows.

**Proof sketch.** By cases on the step. A step of another thread leaves the level and the owner
alone while the call has the lock, and a step of the call is `Knows.go`. -/
lemma Knows.step {pc : PausePc} (h : Knows s₀ t pause s pc) (hcall : s.call = some (t, pc))
    {l : ThreadLabel} (hstay : s.Stays l) (hstep : s.step l = some s') :
    ∃ pc', s'.call = some (t, pc') ∧ Knows s₀ t pause s' pc' := by
  cases l with
  | event i connected =>
    rw [Threads.step] at hstep
    split_ifs at hstep
    obtain ⟨e, he, hmove⟩ := Option.bind_eq_some_iff.mp hstep
    obtain ⟨mutex, events, e', rfl, -⟩ := eventStep_spec hmove
    exact ⟨pc, hcall, h.of_eq rfl rfl⟩
  | timer due =>
    rw [Threads.step] at hstep
    split_ifs at hstep
    obtain rfl := Option.some.inj hstep
    obtain ⟨timerPc, state, htimer, -⟩ := timerStep_spec s due
    rw [htimer]
    exact ⟨pc, hcall, h.of_eq rfl rfl⟩
  | lockQueue k =>
    rw [lockQueue_eq hstep]
    exact ⟨pc, hcall, h.of_eq rfl rfl⟩
  | unlockQueue events =>
    rw [Threads.step] at hstep
    split at hstep
    · obtain rfl := Option.some.inj hstep
      exact ⟨pc, hcall, h.of_eq rfl rfl⟩
    · cases hstep
  | call u pause' =>
    -- the lock is taken: `trylock` fails, and `lock` blocks
    rw [Threads.step] at hstep
    unfold callStep at hstep
    rw [hcall] at hstep
    split_ifs at hstep
    cases pause' with
    | true =>
      obtain rfl := Option.some.inj hstep
      exact ⟨pc, hcall, h⟩
    | false => cases hstep
  | go expired =>
    rw [Threads.step, hcall] at hstep
    obtain rfl := Option.some.inj hstep
    exact h.go hcall (hstay _ hcall)

/-- **What a call knows when it returns.**

**Proof sketch.** At its start a call knows the level and the owner before it. By induction on the
run, each step leaves it what it knows (`Knows.step`). -/
lemma Knows.of_run {ls : List ThreadLabel} {pc : PausePc} (hfree : s₀.call = none)
    (hcall : s₀.step (.call t pause) = some s) (hrun : Run (Under (Fun Threads.step) Stays) s ls s')
    (hpc : s'.call = some (t, pc)) : Knows s₀ t pause s' pc := by
  have hstart : ∃ pc, s.call = some (t, pc) ∧ Knows s₀ t pause s pc := by
    rw [Threads.step] at hcall
    unfold callStep at hcall
    rw [hfree] at hcall
    split_ifs at hcall
    cases pause with
    | true =>
      obtain rfl := Option.some.inj hcall
      exact ⟨.check, rfl, rfl, rfl, rfl⟩
    | false =>
      obtain rfl := Option.some.inj hcall
      exact ⟨.checkOff, rfl, rfl, rfl, rfl⟩
  obtain ⟨pc', hpc', hknows⟩ :=
    hrun.preserves (I := fun s => ∃ pc, s.call = some (t, pc) ∧ Knows s₀ t pause s pc)
      (fun s l s' hs hstep => by
        obtain ⟨pc, hpc, hknows⟩ := hs
        exact hknows.step hpc hstep.2 hstep.1) hstart
  rw [hpc] at hpc'
  obtain ⟨-, rfl⟩ := Prod.mk.inj (Option.some.inj hpc')
  exact hknows

/-! ## Failed calls -/

/-- A call that finds the lock taken returns at once. -/
lemma call_of_busy (hbusy : s₀.call ≠ none) (hcall : s₀.step (.call t pause) = some s) :
    Restored s₀ t s := by
  obtain ⟨c, hc⟩ := Option.ne_none_iff_exists'.mp hbusy
  rw [Threads.step] at hcall
  unfold callStep at hcall
  rw [hc] at hcall
  split_ifs at hcall with hguard
  cases pause with
  | true =>
    obtain rfl := Option.some.inj hcall
    exact ⟨rfl, rfl, hguard.2⟩
  | false => cases hcall

/-- **How a call fails**: another thread has paused the threads; or the call has waited too long for
them to pause, and leaves itself as the owner unless the level is `0`; or it has waited too long for
them to go on, and leaves the level lowered.

**Proof sketch.** By the place at which the call returns. Only three of them return an error: the
check of the owner, the end of a wait for the others to pause, and the end of a wait for them to go
on; what is known there says what is left behind. -/
lemma Knows.failed {pc : PausePc} (h : Knows s₀ t pause s pc) {expired : Bool} {v : ℤ}
    (hreturn : s.goReturn t expired pc = some v) (hv : v < 0) :
    let s' := s.goStep t expired pc
    (s₀.OwnedByOther t ∧ s'.level = s₀.level ∧ s'.owner = s₀.owner) ∨
    (pause = true ∧ s₀.level ≤ 0 ∧ s'.level = s₀.level ∧
      s'.owner = if s₀.level = 0 then none else some t) ∨
    (pause = false ∧ ¬ s₀.OwnedByOther t ∧ s'.level = s₀.level - 1) := by
  intro s'
  cases pc with
  | check =>
    obtain ⟨-, hlevel, howner⟩ := h
    rw [goReturn] at hreturn
    split_ifs at hreturn with hown
    have hs' : s' = { s with call := none } := if_pos hown
    rw [hs']
    exact .inl ⟨(ownedByOther_congr hlevel howner).mp hown, hlevel, howner⟩
  | clear =>
    obtain ⟨hpause, hlevel, hzero, howner⟩ := h
    refine .inr (.inl ⟨hpause, hzero, hlevel, ?_⟩)
    rw [← hlevel, ← howner]
    rfl
  | checkOff =>
    obtain ⟨-, hlevel, howner⟩ := h
    rw [goReturn] at hreturn
    split_ifs at hreturn with hown hzero
    · have hs' : s' = { s with call := none } := if_pos (.inl hown)
      rw [hs']
      exact .inl ⟨(ownedByOther_congr hlevel howner).mp hown, hlevel, howner⟩
    · obtain rfl := Option.some.inj hreturn
      omega
  | waitTimerOff =>
    obtain ⟨hpause, hlevel, hown⟩ := h
    rw [goReturn] at hreturn
    split_ifs at hreturn with hwait
    have hsame : s'.level = s.level := by
      show (s.goStep t expired .waitTimerOff).level = s.level
      rw [goStep, if_pos hwait.1, if_pos hwait.2]
      rfl
    exact .inr (.inr ⟨hpause, hown, hsame.trans hlevel⟩)
  | scanOff i =>
    obtain ⟨hpause, hlevel, hown⟩ := h
    rw [goReturn] at hreturn
    rcases he : s.eventThreads[i]? with _ | e
    · rw [he] at hreturn
      cases hreturn
    · rw [he] at hreturn
      dsimp only at hreturn
      split_ifs at hreturn with hwait
      have hsame : s'.level = s.level := by
        show (s.goStep t expired (.scanOff i)).level = s.level
        rw [goStep, he]
        dsimp only
        rw [if_pos ⟨hwait.1, hwait.2.1⟩, if_pos hwait.2.2]
        rfl
      exact .inr (.inr ⟨hpause, hown, hsame.trans hlevel⟩)
  | nested =>
    rw [goReturn] at hreturn
    split_ifs at hreturn
    obtain rfl := Option.some.inj hreturn
    omega
  | scan i =>
    rw [goReturn] at hreturn
    split_ifs at hreturn
    obtain rfl := Option.some.inj hreturn
    omega
  | clearOff =>
    obtain rfl := Option.some.inj hreturn
    omega
  | raise | setOwner | waitTimer | giveUp | lower => cases hreturn

/-- **A failed call restores** the level and the owner exactly when it fails because the lock is
taken, because another thread has paused the threads, or because it has waited too long for them to
pause, and the owner before it is the one that it leaves: none, if the level was `0`. A call that
has waited too long for them to go on leaves the level lowered.

**Proof sketch.** A call that has not got the lock changes nothing. Any other one fails in one of
three ways (`Knows.failed`), and the level and the owner that it leaves are compared with those
before it. -/
theorem failed_restored_iff {v : ℤ} (h : Returns t pause s₀ v s) (hv : v < 0) :
    Restored s₀ t s ↔
      s₀.call ≠ none ∨ s₀.OwnedByOther t ∨
        pause = true ∧ s₀.owner = if s₀.level = 0 then none else some t := by
  cases h with
  | busy hbusy hcall => exact iff_of_true (call_of_busy hbusy hcall) (.inl hbusy)
  | @done s₁ s' ls pc expired v hfree hcall hrun hpc hreturn =>
    have hgone : ¬ (s'.goStep t expired pc).InCall t := by
      have hnone := (goStep_call (s := s') (t := t) (by simp [hpc]) expired pc).mpr
        (by simp [hreturn])
      rintro ⟨c, hc, -⟩
      rw [hnone] at hc
      cases hc
    rcases (Knows.of_run hfree hcall hrun hpc).failed hreturn hv with
      ⟨hown, hlevel, howner⟩ | ⟨hpause, hzero, hlevel, howner⟩ | ⟨hpause, hown, hlevel⟩
    · -- another thread has paused the threads
      exact iff_of_true ⟨hlevel, howner, hgone⟩ (.inr (.inl hown))
    · -- it has waited too long for them to pause
      have hown : ¬ s₀.OwnedByOther t := fun h => by
        have := h.1
        omega
      constructor
      · rintro ⟨-, hsame, -⟩
        exact .inr (.inr ⟨hpause, hsame.symm.trans howner⟩)
      · rintro (hbusy | hother | ⟨-, hsame⟩)
        · exact absurd hfree hbusy
        · exact absurd hother hown
        · exact ⟨hlevel, howner.trans hsame.symm, hgone⟩
    · -- it has waited too long for them to go on
      refine iff_of_false (fun hrestored => ?_) ?_
      · have := hrestored.1
        omega
      · simp [hfree, hown, hpause]

/-- An event thread that does not come back from its handlers. -/
def oneRunning : Threads := { init 1 with eventThreads := [⟨.handling, .running⟩] }

/-- Another thread waits for it, and gives up. -/
theorem failed_restored_running :
    ∃ s, Returns (.other 0) true oneRunning (-1) s ∧ Restored oneRunning (.other 0) s := by
  have hlabels : ∃ s ∈ (List.replicate 5 (ThreadLabel.go false) ++
        List.replicate 2 (ThreadLabel.go true)).foldlM
          (fun s l => if Stays s l then step s l else none)
          { oneRunning with call := some (.other 0, .check) },
      s.call = some (.other 0, .clear) := by decide
  obtain ⟨s, hrun, hpc⟩ := Run.under_exists_of_foldlM hlabels
  have hreturn : s.goReturn (.other 0) true .clear = some (-1) := rfl
  have h : Returns (.other 0) true oneRunning (-1) _ := .done rfl rfl hrun hpc hreturn
  exact ⟨_, h, (failed_restored_iff h (by decide)).mpr (.inr (.inr ⟨rfl, rfl⟩))⟩

/-- Another thread has paused the timer thread. -/
def timerPaused : Threads :=
  { init 0 with
    level := 1
    owner := some (.other 0)
    timerPc := .polling
    timerState := .paused
    paused := [.other 0] }

/-- **A failed call that has lowered the level**: the thread waits too long for the timer thread to
go on.

**Proof sketch.** The run is evaluated: the thread pauses, the timer thread reports its pause, and
the call that ends the pause lowers the level and gives up in the wait. -/
theorem not_failed_restored :
    (∃ ls, Run (Fun step) (init 0) ls timerPaused) ∧
      ∃ s, Returns (.other 0) false timerPaused (-1) s ∧ s.level = 0 ∧
        ¬ Restored timerPaused (.other 0) s := by
  have hpauses : (.call (.other 0) true :: List.replicate 6 (ThreadLabel.go false) ++
      List.replicate 2 (ThreadLabel.timer false)).foldlM step (init 0) = some timerPaused := rfl
  have hlabels : ∃ s ∈ (List.replicate 2 (ThreadLabel.go false)).foldlM
        (fun s l => if Stays s l then step s l else none)
        { timerPaused with call := some (.other 0, .checkOff) },
      s.call = some (.other 0, .waitTimerOff) ∧ s.timerState = .paused ∧ s.level = 0 := by decide
  obtain ⟨s, hrun, hpc, htimer, hlevel⟩ := Run.under_exists_of_foldlM hlabels
  have hreturn : s.goReturn (.other 0) true .waitTimerOff = some (-1) := by
    rw [goReturn, if_pos ⟨htimer, rfl⟩]
  have hafter : (s.goStep (.other 0) true .waitTimerOff).level = 0 := by
    rw [goStep, if_pos htimer, if_pos rfl]
    exact hlevel
  refine ⟨⟨_, Run.of_foldlM hpauses⟩, _, .done rfl rfl hrun hpc hreturn, hafter, fun h => ?_⟩
  have hlost : (0 : ℤ) = 1 := hafter.symm.trans h.1
  omega

end Threads

end Meowbot
