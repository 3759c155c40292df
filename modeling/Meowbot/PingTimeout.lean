import Meowbot.ListOps

set_option relaxedAutoImplicit false
set_option autoImplicit false

/-!
# Ping timeouts (`irc::main_loop`)

When a read times out, the main loop first looks at the time of the last PONG and leaves if it is
more than six minutes ago, and then at the time of the last PING and sends one if that is more than
five minutes ago. Neither is looked at while lines arrive, so the first read that times out after a
busy time may find a PONG missing for which no PING has been sent.

## Main definitions

* `Meowbot.MainLoop` — the state of the loop; `Meowbot.MainLoop.iterate` — one iteration.
* `Meowbot.LoopLabel` — an iteration, or something that another thread does in between.
* `Meowbot.Unanswered` — since some step of a kind no PONG has arrived.

## Main results

* `Meowbot.MainLoop.pingTimeout_justified_iff` — when a PING has been sent before the loop leaves.
-/

namespace Meowbot

open Runs

/-! ## One iteration -/

/-- The results of `readline`: an error, an empty line, a timeout or a line, with the time at which
it is handled. -/
inductive LineRead where
  | sockError
  | empty
  | timedOut (now : ℤ)
  | line (now : ℤ) (line : Bytes)

/-- `irc`, with the time of the last PING. -/
structure MainLoop where
  irc : Irc
  lastPing : ℤ

/-- The reasons to leave the loop. -/
inductive LoopEnd where
  | quitTimer | sockError | pingTimeout | handler
  deriving DecidableEq

/-- What an iteration leads to. -/
inductive LoopOutcome where
  | next (s : MainLoop)
  /-- The loop is left, with a result and the object after `disconnect`. -/
  | ended (why : LoopEnd) (result : ℤ) (c : Irc)

/-- `IRC_PRIORITY_NORMAL`. -/
def ircPriorityNormal : ℤ := 0

/-- The line `PING :PING%u`, for a time printed as an `unsigned int`. -/
def pingLine (now : ℤ) : Bytes := bytes "PING :PING" ++ bytes (toString (now % 2 ^ 32).toNat)

namespace MainLoop

/-- The loop when it is entered. -/
def start (c : Irc) (now : ℤ) : MainLoop := { irc := c.enterLoop now, lastPing := now }

/-- A read that has timed out, if the last PONG is recent enough. -/
def ping (s : MainLoop) (now : ℤ) : MainLoop :=
  if now - s.lastPing > 60 * 5 then
    { irc := (s.irc.quote (pingLine now) ircPriorityNormal true).2, lastPing := now }
  else s

/-- Report that nothing happens. -/
def idle (s : MainLoop) : MainLoop :=
  if s.irc.status = .connected then { s with irc := s.irc.sendEvent .idle } else s

/-- One iteration of `irc::main_loop`: the time at which `quit_on_timer` is checked, and what has
been read. -/
def iterate (s : MainLoop) (checked : ℤ) (r : LineRead) : Except Fault LoopOutcome :=
  if s.irc.quitOnTimer ≠ 0 ∧ s.irc.quitOnTimer + 5 > checked then
    .ok (.ended .quitTimer 0 s.irc.disconnect)
  else match r with
    | .sockError =>
      .ok (.ended .sockError (if s.irc.quitOnTimer = 0 then -1 else 0) s.irc.disconnect)
    | .empty => .ok (.next s)
    | .timedOut now =>
      if now - s.irc.lastPong > 60 * 6 then .ok (.ended .pingTimeout (-1) s.irc.disconnect)
      else .ok (.next (s.ping now).idle)
    | .line now line => do
      let h ← s.irc.receiveLine now line
      match h.flow with
      | .next => pure (.next { s with irc := h.irc })
      | .leave result => pure (.ended .handler result h.irc.disconnect)

end MainLoop

/-! ## Runs of the loop -/

/-- A step of the loop, with the state before it. -/
inductive LoopLabel where
  /-- An iteration that does not leave the loop. -/
  | read (s : MainLoop) (checked : ℤ) (r : LineRead)
  /-- Other threads use the object, for example to quit, and do not touch the time of the last PONG.
  -/
  | threads (c : Irc)

/-- The step relation of the loop. Lines are read while the object is not disconnected. -/
inductive LoopStep : MainLoop → LoopLabel → MainLoop → Prop
  | read {s s' : MainLoop} {checked : ℤ} {r : LineRead} (hstatus : s.irc.status ≠ .disconnected)
      (h : s.iterate checked r = .ok (.next s')) : LoopStep s (.read s checked r) s'
  | threads (s : MainLoop) {c : Irc} (h : c.lastPong = s.irc.lastPong) :
      LoopStep s (.threads c) { s with irc := c }

namespace LoopLabel

/-- A PONG arrives. -/
def IsPong : LoopLabel → Prop
  | .read s _ (.line now line) =>
    ∃ m, s.irc.message (.line now line) = some m ∧ m.cmd = bytes "PONG"
  | _ => False

/-- A PING is handed to the send path. -/
def SendsPing : LoopLabel → Prop
  | .read s checked (.timedOut now) => ∃ s', s.iterate checked (.timedOut now) = .ok (.next s') ∧
      s'.irc.outgoing = s.irc.outgoing ++
        [(Irc.wireLine (s.irc.quoteSource (pingLine now) true), ircPriorityNormal)]
  | _ => False

/-- A read times out more than five minutes after the last PING. -/
def Overdue : LoopLabel → Prop
  | .read s _ (.timedOut now) => now - s.lastPing > 60 * 5
  | _ => False

end LoopLabel

/-- Among some steps there is one of a kind after which no PONG has arrived. -/
def Unanswered (P : LoopLabel → Prop) (as : List LoopLabel) : Prop :=
  ∃ pre a post, as = pre ++ a :: post ∧ P a ∧ ∀ b ∈ post, ¬ b.IsPong

namespace MainLoop

/-! ## When a PING is sent -/

/-- An iteration that gets past the quit timer with a line whose processing faults. -/
lemma iterate_line_error {s : MainLoop} {checked now : ℤ} {line : Bytes} {e : Fault}
    (hquit : ¬ (s.irc.quitOnTimer ≠ 0 ∧ s.irc.quitOnTimer + 5 > checked))
    (hr : s.irc.receiveLine now line = .error e) :
    s.iterate checked (.line now line) = .error e := by
  unfold iterate
  simp only [if_neg hquit, hr]
  rfl

/-- An iteration that gets past the quit timer with a line after which the loop goes on. -/
lemma iterate_line_next {s : MainLoop} {checked now : ℤ} {line : Bytes} {h : Handled}
    (hquit : ¬ (s.irc.quitOnTimer ≠ 0 ∧ s.irc.quitOnTimer + 5 > checked))
    (hr : s.irc.receiveLine now line = .ok h) (hflow : h.flow = .next) :
    s.iterate checked (.line now line) = .ok (.next { s with irc := h.irc }) := by
  unfold iterate
  simp only [if_neg hquit, hr, bind, Except.bind, hflow]
  rfl

/-- An iteration that gets past the quit timer with a line whose handler leaves the loop. -/
lemma iterate_line_leave {s : MainLoop} {checked now result : ℤ} {line : Bytes} {h : Handled}
    (hquit : ¬ (s.irc.quitOnTimer ≠ 0 ∧ s.irc.quitOnTimer + 5 > checked))
    (hr : s.irc.receiveLine now line = .ok h) (hflow : h.flow = .leave result) :
    s.iterate checked (.line now line) = .ok (.ended .handler result h.irc.disconnect) := by
  unfold iterate
  simp only [if_neg hquit, hr, bind, Except.bind, hflow]
  rfl

/-- A PING that is due is handed to the send path. -/
lemma outgoing_ping {s : MainLoop} (hs : s.irc.status ≠ .disconnected) (now : ℤ) :
    (s.ping now).idle.irc.outgoing =
      if now - s.lastPing > 60 * 5 then s.irc.outgoing ++
        [(Irc.wireLine (s.irc.quoteSource (pingLine now) true), ircPriorityNormal)]
      else s.irc.outgoing := by
  have hidle : ∀ s : MainLoop, s.idle.irc.outgoing = s.irc.outgoing := by
    intro s
    unfold idle
    split_ifs <;> rfl
  rw [hidle, ping]
  split_ifs
  · rw [Irc.quote_snd hs]
  · rfl

/-- What an iteration does with a timeout after which the loop goes on. -/
lemma next_of_timedOut {s s' : MainLoop} {checked now : ℤ}
    (h : s.iterate checked (.timedOut now) = .ok (.next s')) : s' = (s.ping now).idle := by
  rw [iterate] at h
  split_ifs at h
  · cases Except.ok.inj h
  · cases Except.ok.inj h
  · exact (LoopOutcome.next.inj (Except.ok.inj h)).symm

/-- **A PING is sent exactly when it is overdue** at a timeout after which the loop goes on.

**Proof sketch.** A PING is queued at a timeout exactly if a minute has passed since the last one,
and no line that is received queues one. -/
lemma sendsPing_iff_overdue {s s' : MainLoop} {a : LoopLabel} (h : LoopStep s a s') :
    a.SendsPing ↔ a.Overdue := by
  cases h with
  | threads _ => exact Iff.rfl
  | @read _ checked r hstatus hnext =>
    cases r with
    | timedOut now =>
      obtain rfl := next_of_timedOut hnext
      have hout := s.outgoing_ping hstatus now
      simp only [LoopLabel.SendsPing, LoopLabel.Overdue]
      constructor
      · rintro ⟨s', hs', hsent⟩
        obtain rfl := next_of_timedOut hs'
        by_contra hnot
        rw [if_neg hnot] at hout
        rw [hout] at hsent
        exact absurd (congrArg List.length hsent) (by simp)
      · intro hdue
        rw [if_pos hdue] at hout
        exact ⟨_, hnext, hout⟩
    | _ => exact Iff.rfl

/-- A property of steps may be replaced by one that is equivalent for the steps of a run. -/
lemma unanswered_congr {P Q : LoopLabel → Prop} {s s' : MainLoop} {as : List LoopLabel}
    (hPQ : ∀ s a s', LoopStep s a s' → (P a ↔ Q a)) (h : Run LoopStep s as s') :
    Unanswered P as ↔ Unanswered Q as := by
  have hall : ∀ a ∈ as, P a ↔ Q a := by
    induction h with
    | nil => exact fun a ha => absurd ha List.not_mem_nil
    | snoc _ hlast ih =>
      intro a ha
      rcases List.mem_append.mp ha with ha | ha
      · exact ih a ha
      · rw [List.mem_singleton.mp ha]
        exact hPQ _ _ _ hlast
  constructor
  · rintro ⟨pre, a, post, rfl, ha, hpost⟩
    exact ⟨pre, a, post, rfl, (hall a (by simp)).mp ha, hpost⟩
  · rintro ⟨pre, a, post, rfl, ha, hpost⟩
    exact ⟨pre, a, post, rfl, (hall a (by simp)).mpr ha, hpost⟩

/-- The loop is left for a ping timeout only at a read that times out, more than six minutes after
the last PONG.

**Proof sketch.** By what the read has given. Only a timeout asks for the time since the last PONG,
and leaves the loop if that is more than six minutes. -/
lemma timedOut_of_pingTimeout {s : MainLoop} {checked result : ℤ} {r : LineRead} {c : Irc}
    (h : s.iterate checked r = .ok (.ended .pingTimeout result c)) :
    ∃ now, r = .timedOut now ∧ now - s.irc.lastPong > 60 * 6 := by
  by_cases hquit : s.irc.quitOnTimer ≠ 0 ∧ s.irc.quitOnTimer + 5 > checked
  · unfold iterate at h
    rw [if_pos hquit] at h
    cases Except.ok.inj h
  · cases r with
    | sockError =>
      rw [iterate, if_neg hquit] at h
      cases Except.ok.inj h
    | empty =>
      rw [iterate, if_neg hquit] at h
      cases Except.ok.inj h
    | timedOut now =>
      rw [iterate, if_neg hquit] at h
      split_ifs at h with hlate
      · exact ⟨now, rfl, hlate⟩
      · cases Except.ok.inj h
    | line now line =>
      rcases hr : s.irc.receiveLine now line with e | handled
      · rw [iterate_line_error hquit hr] at h
        cases h
      · rcases hflow : handled.flow with _ | result'
        · rw [iterate_line_next hquit hr hflow] at h
          cases Except.ok.inj h
        · rw [iterate_line_leave hquit hr hflow] at h
          cases Except.ok.inj h

/-- **When a ping timeout is justified**: when the loop leaves, more than six minutes after the last
PONG, a PING has been sent since that PONG (or since the start) exactly if since then some read has
timed out more than five minutes after the last PING (or the start).

**Proof sketch.** A PING is only sent at a read that times out, and then exactly if the last one is
more than five minutes ago; so the steps that send one are those at which it is overdue. -/
theorem pingTimeout_justified_iff {c c' : Irc} {t₀ checked result : ℤ} {as : List LoopLabel}
    {s : MainLoop} {r : LineRead} (hrun : Run LoopStep (start c t₀) as s)
    (hend : s.iterate checked r = .ok (.ended .pingTimeout result c')) :
    (∃ now, r = .timedOut now ∧ now - s.irc.lastPong > 60 * 6) ∧
      (Unanswered LoopLabel.SendsPing as ↔ Unanswered LoopLabel.Overdue as) :=
  ⟨timedOut_of_pingTimeout hend, unanswered_congr (fun _ _ _ h => sendsPing_iff_overdue h) hrun⟩

/-- The object of a bot that has logged in. -/
def quietStart : MainLoop := start (Irc.fresh (bytes "bot")) 0

/-- A read that times out after 301 seconds, at which a PING is sent. -/
def pingSent : List LoopLabel := [.read quietStart 301 (.timedOut 301)]

/-- A ping timeout after a PING that has not been answered. -/
theorem pingTimeout_justified_sent : Unanswered LoopLabel.SendsPing pingSent := by
  have hrun : Run LoopStep quietStart pingSent (quietStart.ping 301).idle :=
    .snoc (.nil _) (.read (by decide) rfl)
  have hend : (quietStart.ping 301).idle.iterate 362 (.timedOut 362) =
      .ok (.ended .pingTimeout _ _) := rfl
  refine (pingTimeout_justified_iff hrun hend).2.mpr ?_
  have hdue : (301 : ℤ) - 0 > 60 * 5 := by decide
  exact ⟨[], _, [], rfl, hdue, by simp⟩

/-- A busy connection, on which a line arrives after 361 seconds. -/
def busy : List LoopLabel := [.read quietStart 361 (.line 361 (bytes ":foo!u@h PRIVMSG #c :hi"))]

/-- **A ping timeout without a PING**: lines keep arriving for more than six minutes, and the first
read that times out then ends the connection although no PING has been sent. -/
theorem not_pingTimeout_justified :
    ∃ s c', Run LoopStep quietStart busy s ∧
      s.iterate 362 (.timedOut 362) = .ok (.ended .pingTimeout (-1) c') ∧
      ¬ Unanswered LoopLabel.SendsPing busy := by
  refine ⟨_, _, .snoc (.nil _) (.read (by decide) rfl), rfl, ?_⟩
  rintro ⟨pre, a, post, hsplit, ha, -⟩
  have hmem : a ∈ busy := by
    rw [hsplit]
    simp
  rw [List.mem_singleton.mp hmem] at ha
  exact ha

end MainLoop

end Meowbot
