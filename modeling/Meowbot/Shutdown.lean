import Meowbot.ConnControl

set_option relaxedAutoImplicit false
set_option autoImplicit false

/-!
# The end of the bot (`ircbot::wait`)

`disconnect_all` and `quit_all` end every connection and note the time. `wait` polls the list of
connections until it is empty. It has two limits for connections that do not end: after 8 seconds
they are killed, and after 32 seconds it was to give up. The limits are the branches of one
`if` ... `else if`, the smaller limit first.

## Main definitions

* `Meowbot.Ircbot` — the bot; `Ircbot.disconnectAll`, `Ircbot.quitAll`, `Ircbot.forceKillAll`.
* `Meowbot.Ircbot.waitRound`, `Meowbot.Ircbot.wait` — a round of the loop, and the loop.
* `Meowbot.Ircbot.ShutdownEnds` — the loop gives up in time.

## Main results

* `Meowbot.Ircbot.eq_zero_of_wait` — the loop never gives up.
* `Meowbot.Ircbot.shutdownEnds_iff` — it ends as it should exactly when no connection is left at a
  check after the limit.
-/

namespace Meowbot

/-! ## The source -/

/-- `ircbot`, as far as `wait` uses it. -/
structure Ircbot where
  ircConns : List IrcbotConn
  /-- `disconnect_all_ts`, zero if it is not set. -/
  disconnectAllTs : ℤ

/-- What happens in a round of the loop of `wait` besides the loop itself. -/
structure WaitRound where
  /-- What other threads make of the connections up to the check of the list. -/
  before : List IrcbotConn → List IrcbotConn
  /-- What they make of them during the `sleep`. -/
  during : List IrcbotConn → List IrcbotConn
  /-- The clock after the `sleep`. -/
  now : ℤ

/-- Where `wait` is after a round. -/
inductive WaitState where
  /-- It goes on with the next round. -/
  | running (b : Ircbot)
  /-- It has returned. -/
  | returned (r : ℤ)
  /-- It is blocked by a mutex. -/
  | blocked

namespace Ircbot

/-- A function is called for each connection. -/
def forEachConn (b : Ircbot) (f : IrcbotConn → Option (Bool × IrcbotConn)) : Option Ircbot :=
  (b.ircConns.mapM f).map fun rs => { b with ircConns := rs.map Prod.snd }

/-- `ircbot::disconnect_all` -/
def disconnectAll (b : Ircbot) (now : ℤ) : Option Ircbot :=
  (b.forEachConn IrcbotConn.disconnect).map fun b => { b with disconnectAllTs := now }

/-- `ircbot::quit_all` -/
def quitAll (b : Ircbot) (quitmsg : Bytes) (now : ℤ) : Option Ircbot :=
  (b.forEachConn fun c => c.quit quitmsg now).map fun b => { b with disconnectAllTs := now }

/-- `ircbot::force_kill_all` -/
def forceKillAll (b : Ircbot) (now : ℤ) : Option Ircbot :=
  (b.forEachConn fun c => c.forceKill now).map fun b =>
    if b.disconnectAllTs = 0 then { b with disconnectAllTs := now } else b

/-- The connections at the check of a round. -/
def connsAt (b : Ircbot) (r : WaitRound) : List IrcbotConn := r.before b.ircConns

/-- A round of the loop of `ircbot::wait`. The branch for more than 32 seconds comes behind the one
for more than 8, so it is never taken; and the wait is blocked for good if a connection that is to
be killed has its mutex taken. -/
def waitRound (b : Ircbot) (r : WaitRound) : WaitState :=
  if 0 < (b.connsAt r).length then
    let b : Ircbot := { b with ircConns := r.during (b.connsAt r) }
    if b.disconnectAllTs ≠ 0 then
      if r.now - b.disconnectAllTs > 8 then
        match b.forceKillAll r.now with
        | none => .blocked
        | some b => .running b
      else if r.now - b.disconnectAllTs > 32 then .returned (-1)
      else .running b
    else .running b
  else .returned 0

/-- `ircbot::wait` -/
def wait (b : Ircbot) : List WaitRound → WaitState
  | [] => .running b
  | r :: rs =>
    match b.waitRound r with
    | .running b => b.wait rs
    | s => s

/-! ## What it should do -/

/-- **The end of the bot**, noted at the time `t`: a check that finds no connection makes the loop
return `0`, a check more than 32 seconds after `t` makes it return `-1`, and no other does. -/
def ShutdownEnds (t : ℤ) (b : Ircbot) : List WaitRound → Prop
  | [] => True
  | r :: rs =>
    if b.connsAt r = [] then b.waitRound r = .returned 0
    else if r.now - t > 32 then b.waitRound r = .returned (-1)
    else (∀ x, b.waitRound r ≠ .returned x) ∧
      ∀ b', b.waitRound r = .running b' → b'.ShutdownEnds t rs

/-- No check that finds connections is made later than 32 seconds after the time `t`. -/
def EndsInTime (t : ℤ) (b : Ircbot) : List WaitRound → Prop
  | [] => True
  | r :: rs => b.connsAt r ≠ [] → r.now - t ≤ 32 ∧
      ∀ b', b.waitRound r = .running b' → b'.EndsInTime t rs

/-! ## What it does -/

/-- **What a round does**: the loop returns `0` if no connection is left, and otherwise it does not
return. -/
lemma waitRound_cases (b : Ircbot) (r : WaitRound) :
    b.connsAt r = [] ∧ b.waitRound r = .returned 0 ∨
      b.connsAt r ≠ [] ∧ ∀ x, b.waitRound r ≠ .returned x := by
  by_cases hconns : b.connsAt r = []
  · left
    refine ⟨hconns, ?_⟩
    rw [waitRound, hconns]
    rfl
  · right
    refine ⟨hconns, fun x => ?_⟩
    rw [waitRound, if_pos (List.length_pos_iff.mpr hconns)]
    dsimp only
    split_ifs with hset hkill hgive
    · split <;> simp
    · omega
    · simp
    · simp

/-- **The loop never gives up**: if `wait` returns, then with `0`.

**Proof sketch.** By induction on the rounds: a round returns `0`, or is blocked, or goes on. -/
lemma eq_zero_of_wait {b : Ircbot} {rs : List WaitRound} {x : ℤ} (h : b.wait rs = .returned x) :
    x = 0 := by
  induction rs generalizing b with
  | nil => cases h
  | cons r rs ih =>
    rw [wait] at h
    obtain ⟨-, hround⟩ | ⟨-, hround⟩ := b.waitRound_cases r
    · rw [hround] at h
      cases h
      rfl
    · cases hnext : b.waitRound r with
      | running b' =>
        rw [hnext] at h
        exact ih h
      | returned y => exact absurd hnext (hround y)
      | blocked =>
        rw [hnext] at h
        cases h

/-- A check of connections that stay, after the limit. -/
lemma not_shutdownEnds_of_late {t now : ℤ} {b : Ircbot} (hconns : b.ircConns ≠ [])
    (hlate : t + 32 < now) : ¬ b.ShutdownEnds t [⟨id, id, now⟩] := by
  intro h
  rw [ShutdownEnds, if_neg (show b.connsAt ⟨id, id, now⟩ ≠ [] from hconns),
    if_pos (by dsimp only; omega)] at h
  obtain ⟨hnone, -⟩ | ⟨-, hround⟩ := b.waitRound_cases ⟨id, id, now⟩
  · exact hconns hnone
  · exact hround _ h

/-- **Giving up**: the loop of `wait` ends as it should exactly when no check is made later than 32
seconds after `disconnect_all` or `quit_all` that finds a connection: such a check does not end it.

**Proof sketch.** Induction over the rounds. A round never returns `-1`, because a time above the
larger limit is above the smaller one too. -/
theorem shutdownEnds_iff (t : ℤ) (b : Ircbot) (rs : List WaitRound) :
    b.ShutdownEnds t rs ↔ b.EndsInTime t rs := by
  induction rs generalizing b with
  | nil => exact Iff.rfl
  | cons r rs ih =>
    rw [ShutdownEnds, EndsInTime]
    obtain ⟨hconns, hround⟩ | ⟨hconns, hround⟩ := b.waitRound_cases r
    · rw [if_pos hconns]
      exact iff_of_true hround fun h => absurd hconns h
    rw [if_neg hconns]
    by_cases hlate : r.now - t > 32
    · rw [if_pos hlate]
      refine iff_of_false (hround _) fun h => ?_
      have hle := (h hconns).1
      omega
    · rw [if_neg hlate]
      constructor
      · rintro ⟨-, hnext⟩ -
        exact ⟨by omega, fun b' hb' => (ih b').mp (hnext b' hb')⟩
      · intro h
        exact ⟨hround, fun b' hb' => (ih b').mpr ((h hconns).2 b' hb')⟩

/-- **A connection that does not end**: 33 seconds after `disconnect_all` the loop goes on. -/
theorem not_shutdownEnds :
    ∃ b, (⟨[connectedConn], 0⟩ : Ircbot).disconnectAll 100 = some b ∧ b.disconnectAllTs = 100 ∧
      ¬ b.ShutdownEnds 100 [⟨id, id, 133⟩] :=
  ⟨_, rfl, rfl, not_shutdownEnds_of_late (List.cons_ne_nil _ _) (by omega)⟩

end Ircbot

end Meowbot
