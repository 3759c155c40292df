import Meowbot.ConnControl
import Meowbot.PingTimeout

set_option relaxedAutoImplicit false
set_option autoImplicit false

/-!
# Leaving after a QUIT (`irc::main_loop`)

`quit` sends a `QUIT` and notes the time in `quit_on_timer`. The server then closes the connection;
if it does not do so for five seconds, the main loop was to leave by itself. It checks the time
before it looks at what has been read, and the comparison is the other way around: the loop leaves
as long as the five seconds are not over, and does not when they are.

## Main definitions

* `Meowbot.Irc.EndsLoop`, `Meowbot.MainLoop.ReadEnds` — what has been read ends the loop.
* `Meowbot.MainLoop.LeavesInTime` — an iteration leaves as it should after a quit.
* `Meowbot.QuitStep`, `Meowbot.MainLoop.EachRead` — the runs after a quit, and what holds of each of
  their iterations.

## Main results

* `Meowbot.handle_quitOnTimer` — no handler changes the time of the quit.
* `Meowbot.MainLoop.iterate_ended_iff` — when an iteration leaves the loop.
* `Meowbot.MainLoop.leavesInTime_iff` — when the iterations of a run leave as they should.
-/

namespace Meowbot

/-! ## The time of the quit in the methods -/

namespace Irc

@[simp] lemma quitOnTimer_quote (c : Irc) (line : Bytes) (priority : ℤ) (convertEnc : Bool) :
    (c.quote line priority convertEnc).2.quitOnTimer = c.quitOnTimer := by
  by_cases hc : c.status = .disconnected
  · rw [quote, if_pos hc]
  · rw [quote_snd hc]

@[simp] lemma quitOnTimer_quoteLine (c : Irc) (line : Bytes) :
    (c.quoteLine line).quitOnTimer = c.quitOnTimer := quitOnTimer_quote c line _ _

@[simp] lemma quitOnTimer_sendEvent (c : Irc) (e : IrcEvent) :
    (c.sendEvent e).quitOnTimer = c.quitOnTimer := rfl

@[simp] lemma quitOnTimer_refreshChanuserlist (c : Irc) (chan : Bytes) :
    (c.refreshChanuserlist chan).quitOnTimer = c.quitOnTimer := by
  unfold refreshChanuserlist
  split_ifs <;> simp

@[simp] lemma quitOnTimer_addToChanlist (c : Irc) (chan : Bytes) :
    (c.addToChanlist chan).quitOnTimer = c.quitOnTimer := by
  unfold addToChanlist
  split_ifs <;> rfl

@[simp] lemma quitOnTimer_delFromChanlist (c : Irc) (chan : Bytes) :
    (c.delFromChanlist chan).quitOnTimer = c.quitOnTimer := by
  unfold delFromChanlist
  split_ifs <;> rfl

@[simp] lemma quitOnTimer_addToChanuserlist (c : Irc) (chan nick ident : Bytes) :
    (c.addToChanuserlist chan nick ident).quitOnTimer = c.quitOnTimer := by
  unfold addToChanuserlist
  split_ifs <;> rfl

@[simp] lemma quitOnTimer_delFromChanuserlist (c : Irc) (chan nick : Bytes) :
    (c.delFromChanuserlist chan nick).quitOnTimer = c.quitOnTimer := by
  simp only [delFromChanuserlist]
  split_ifs
  · rfl
  · rfl
  · exact quitOnTimer_refreshChanuserlist c chan

/-- A line that is converted and reported. -/
lemma quitOnTimer_convertLine (c : Irc) (line : Bytes) :
    (c.convertLine line).2.quitOnTimer = c.quitOnTimer ∧ (c.convertLine line).2.nick = c.nick := by
  unfold convertLine
  cases c.convS2m <;> exact ⟨rfl, rfl⟩

end Irc

/-! ## The time of the quit in the handlers -/

lemma quitOnTimer_onMessage (c : Irc) (m : Message) (msgtype : IrcMsgtype) :
    (onMessage c m msgtype).quitOnTimer = c.quitOnTimer := by
  unfold onMessage
  split_ifs <;> rfl

lemma quitOnTimer_onJoin (c : Irc) (m : Message) :
    (onJoin c m).quitOnTimer = c.quitOnTimer := by
  simp only [onJoin]
  split_ifs <;> simp

lemma quitOnTimer_onPart (c : Irc) (m : Message) :
    (onPart c m).quitOnTimer = c.quitOnTimer := by
  simp only [onPart]
  split_ifs <;> simp

lemma quitOnTimer_onKick (c : Irc) (m : Message) :
    (onKick c m).quitOnTimer = c.quitOnTimer := by
  unfold onKick
  split_ifs
  · rfl
  · dsimp only
    cases (c.getChanuserlist (m.arg 0)).find? (m.arg 1) with
    | none => simp
    | some user =>
      dsimp only
      split_ifs <;> simp

/-- Renaming a user in some channels. -/
lemma quitOnTimer_foldl_renameIn (nick newnick ident : Bytes) (chans : List Bytes) (c : Irc) :
    (chans.foldl (fun c chan => renameIn c nick newnick ident chan) c).quitOnTimer =
      c.quitOnTimer := by
  induction chans generalizing c with
  | nil => rfl
  | cons chan chans ih =>
    rw [List.foldl_cons, ih]
    simp only [renameIn]
    split_ifs <;> simp

lemma quitOnTimer_onNick (c : Irc) (m : Message) :
    (onNick c m).quitOnTimer = c.quitOnTimer := by
  simp only [onNick]
  split_ifs
  · rfl
  · rw [Irc.quitOnTimer_sendEvent, quitOnTimer_foldl_renameIn]
  · rw [Irc.quitOnTimer_sendEvent, quitOnTimer_foldl_renameIn]

lemma quitOnTimer_onWhoReply (c : Irc) (m : Message) :
    (onWhoReply c m).quitOnTimer = c.quitOnTimer := by
  simp only [onWhoReply]
  split_ifs
  · rfl
  · rfl
  · exact Irc.quitOnTimer_addToChanuserlist _ _ _ _
  · exact Irc.quitOnTimer_addToChanuserlist _ _ _ _
  · rfl

@[simp] lemma quitOnTimer_addName (c : Irc) (chan arg : Bytes) :
    (addName c chan arg).quitOnTimer = c.quitOnTimer := by
  unfold addName
  split_ifs <;> simp

/-- The names of a reply. -/
lemma quitOnTimer_namesLoop (chan : Bytes) (c : Irc) (arg s : Bytes) :
    (namesLoop chan c arg s).1.quitOnTimer = c.quitOnTimer := by
  induction s generalizing c arg with
  | nil => exact quitOnTimer_addName c chan arg
  | cons p ps ih =>
    simp only [namesLoop]
    split_ifs
    · simp
    · rw [ih, quitOnTimer_addName]
    · exact ih c _

lemma quitOnTimer_onNamesReply (c : Irc) (m : Message) :
    (onNamesReply c m).flow = .next ∧ (onNamesReply c m).irc.quitOnTimer = c.quitOnTimer := by
  simp only [onNamesReply]
  split_ifs
  · exact ⟨rfl, rfl⟩
  · exact ⟨rfl, rfl⟩
  · exact ⟨rfl, quitOnTimer_namesLoop _ _ _ _⟩
  · exact ⟨rfl, quitOnTimer_namesLoop _ _ _ _⟩
  · exact ⟨rfl, quitOnTimer_namesLoop _ _ _ _⟩
  · exact ⟨rfl, rfl⟩

/-- One letter of a mode string.

**Proof sketch.** By cases as in the source: a sign, a status of a user, or another letter with or
without a parameter. A letter with a parameter changes the table of the channel only, for which
`withParam_ok` is used. -/
lemma quitOnTimer_modeLetter {m : Message} {chan : Bytes} {v v' : ModeVars} {mode : Byte}
    (h : modeLetter m chan v mode = .ok (some v')) : v'.irc.quitOnTimer = v.irc.quitOnTimer := by
  have hwith : ∀ apply : Bytes → Irc, (∀ x, (apply x).quitOnTimer = v.irc.quitOnTimer) →
      v.withParam m chan mode apply = .ok (some v') →
      v'.irc.quitOnTimer = v.irc.quitOnTimer := by
    intro apply happly h
    obtain ⟨param, -, ⟨-, hnone⟩ | ⟨-, hsome⟩⟩ := ModeVars.withParam_ok h
    · cases hnone
    · obtain rfl := Option.some.inj hsome
      exact happly param
  rw [modeLetter] at h
  by_cases hsign : mode = '+' ∨ mode = '-'
  · rw [if_pos hsign] at h
    obtain rfl := Option.some.inj (Except.ok.inj h)
    rfl
  · rw [if_neg hsign] at h
    rcases hmode : modePrefix mode with _ | newmode <;> rw [hmode] at h
    · by_cases htakes : modeTakesParam v.sign mode
      · rw [if_pos htakes] at h
        exact hwith _ (fun _ => rfl) h
      · rw [if_neg htakes] at h
        obtain rfl := Option.some.inj (Except.ok.inj h)
        rfl
    · refine hwith (fun nick => v.irc.setUserMode chan nick v.sign newmode) (fun _ => rfl) h

lemma quitOnTimer_onMode {c : Irc} {m : Message} {h : Handled} (hh : onMode c m = .ok h) :
    h.flow = .next ∧ h.irc.quitOnTimer = c.quitOnTimer :=
  onMode_keeps (P := fun c' => c'.quitOnTimer = c.quitOnTimer)
    (fun _ _ _ hletter hv => (quitOnTimer_modeLetter hletter).trans hv) hh rfl

/-- A token of 005. -/
lemma quitOnTimer_isupportToken (c : Irc) (token : Bytes) :
    (isupportToken c token).quitOnTimer = c.quitOnTimer := by
  unfold isupportToken
  split_ifs
  · exact Irc.quitOnTimer_quoteLine _ _
  · exact Irc.quitOnTimer_quoteLine _ _
  · split <;> rfl

lemma quitOnTimer_onIsupport {c : Irc} {m : Message} {h : Handled} (hh : onIsupport c m = .ok h) :
    h.flow = .next ∧ h.irc.quitOnTimer = c.quitOnTimer :=
  onIsupport_keeps (P := fun c' => c'.quitOnTimer = c.quitOnTimer)
    (fun c' token hc' => (quitOnTimer_isupportToken c' token).trans hc') hh rfl

/-- **No handler changes the time of the quit**.

**Proof sketch.** One case for each command. The handlers that go through lists or may fail have
lemmas of their own; the others queue lines, send events, or set other fields. -/
lemma handle_quitOnTimer {c : Irc} {now : ℤ} {m : Message} {cmd : Command} {h : Handled}
    (hh : handle c now m cmd = .ok h) : h.irc.quitOnTimer = c.quitOnTimer := by
  cases cmd
  case mode => exact (quitOnTimer_onMode hh).2
  case isupport => exact (quitOnTimer_onIsupport hh).2
  all_goals obtain rfl := Except.ok.inj hh
  case ping => exact Irc.quitOnTimer_quote _ _ _ _
  case privmsg => exact quitOnTimer_onMessage c m _
  case notice => exact quitOnTimer_onMessage c m _
  case join => exact quitOnTimer_onJoin c m
  case part => exact quitOnTimer_onPart c m
  case kick => exact quitOnTimer_onKick c m
  case nick => exact quitOnTimer_onNick c m
  case quit =>
    unfold onQuit
    split_ifs <;> rfl
  case whoReply => exact quitOnTimer_onWhoReply c m
  case endOfWho =>
    change (onEndOfWho c m).quitOnTimer = c.quitOnTimer
    simp only [onEndOfWho]
    split_ifs <;> simp
  case namesReply => exact (quitOnTimer_onNamesReply c m).2
  case endOfNames =>
    change (onEndOfNames c m).quitOnTimer = c.quitOnTimer
    unfold onEndOfNames
    split_ifs <;> rfl
  case error => rfl
  case invite =>
    change (onInvite c m).quitOnTimer = c.quitOnTimer
    unfold onInvite
    split_ifs <;> rfl
  case pong => rfl
  case nickInUse =>
    change (onNickInUse c).quitOnTimer = c.quitOnTimer
    unfold onNickInUse
    split_ifs
    · exact Irc.quitOnTimer_quoteLine _ _
    · rfl
  case endOfMotd =>
    change (onEndOfMotd c).quitOnTimer = c.quitOnTimer
    unfold onEndOfMotd
    split_ifs <;> rfl
  case other => rfl

/-! ## When the loop is left -/

namespace Irc

/-- The message is an `ERROR`, or the `QUIT` of the bot itself. -/
def EndsLoop (c : Irc) (m : Message) : Prop :=
  Command.ofBytes m.cmd = .error ∨ Command.ofBytes m.cmd = .quit ∧ m.origin.nick = c.nick

end Irc

/-- The handlers that leave the loop. -/
lemma flow_handle {c : Irc} {now : ℤ} {m : Message} {cmd : Command} {h : Handled}
    (hh : handle c now m cmd = .ok h) :
    h.flow ≠ .next ↔ cmd = .error ∨ cmd = .quit ∧ m.origin.nick = c.nick := by
  cases cmd
  case mode => simp [(quitOnTimer_onMode hh).1]
  case isupport => simp [(quitOnTimer_onIsupport hh).1]
  all_goals obtain rfl := Except.ok.inj hh
  case namesReply => simp [(quitOnTimer_onNamesReply c m).1]
  case quit =>
    by_cases hnick : m.origin.nick = c.nick
    · simp [onQuit, hnick]
    · simp [onQuit, hnick, Handled.goOn]
  case error => simp [onError]
  all_goals simp [Handled.goOn]

namespace Irc

/-- **A received line** does not change the time of the quit, and leaves the loop exactly for the
messages that end it. -/
lemma receiveLine_ok {c : Irc} {now : ℤ} {line : Bytes} {h : Handled}
    (hh : c.receiveLine now line = .ok h) : h.irc.quitOnTimer = c.quitOnTimer ∧
      (h.flow ≠ .next ↔ ∃ m, c.message (.line now line) = some m ∧ c.EndsLoop m) := by
  obtain ⟨htimer, hnick⟩ := c.quitOnTimer_convertLine line
  simp only [receiveLine, processLine] at hh
  rw [message]
  rcases hm : Message.ofLine (c.convertLine line).1 with _ | m
  · rw [hm] at hh
    obtain rfl := Except.ok.inj hh
    simp [Handled.goOn, htimer]
  · rw [hm] at hh
    refine ⟨(handle_quitOnTimer hh).trans htimer, (flow_handle hh).trans ?_⟩
    change _ ∨ _ ∧ m.origin.nick = (c.convertLine line).2.nick ↔ _
    simp [hnick, EndsLoop]

/-- A message that ends the loop is handled without a fault. -/
lemma exists_receiveLine {c : Irc} {now : ℤ} {line : Bytes} {m : Message}
    (hm : c.message (.line now line) = some m) (hends : c.EndsLoop m) :
    ∃ h, c.receiveLine now line = .ok h := by
  rw [message] at hm
  simp only [receiveLine, processLine, hm]
  rcases hends with hcmd | ⟨hcmd, -⟩
  · exact ⟨_, by rw [hcmd, handle]⟩
  · exact ⟨_, by rw [hcmd, handle]⟩

end Irc

namespace MainLoop

/-- What has been read ends the loop, whatever the time of a quit is. -/
def ReadEnds (s : MainLoop) : LineRead → Prop
  | .sockError => True
  | .empty => False
  | .timedOut now => now - s.irc.lastPong > 60 * 6
  | .line now line => ∃ m, s.irc.message (.line now line) = some m ∧ s.irc.EndsLoop m

/-- The check of the quit timer, which comes first, leaves the loop. -/
lemma iterate_of_timer {s : MainLoop} {checked : ℤ}
    (h : s.irc.quitOnTimer ≠ 0 ∧ s.irc.quitOnTimer + 5 > checked) (r : LineRead) :
    s.iterate checked r = .ok (.ended .quitTimer 0 s.irc.disconnect) :=
  if_pos h

/-- **An iteration that gets past the quit timer** is left for another reason exactly when what has
been read ends the loop, and the time of the quit is as before if it goes on.

**Proof sketch.** By cases on what has been read. The branches in front of the handlers are read off
the loop; for a line, `Irc.receiveLine_ok` says that the handlers keep the time, and when they
leave. -/
lemma iterate_of_not_timer {s : MainLoop} {checked : ℤ} {o : LoopOutcome} {r : LineRead}
    (h : ¬ (s.irc.quitOnTimer ≠ 0 ∧ s.irc.quitOnTimer + 5 > checked))
    (ho : s.iterate checked r = .ok o) :
    match o with
    | .next s' => ¬ s.ReadEnds r ∧ s'.irc.quitOnTimer = s.irc.quitOnTimer
    | .ended why _ _ => s.ReadEnds r ∧ why ≠ .quitTimer := by
  cases r with
  | sockError =>
    rw [iterate, if_neg h] at ho
    obtain rfl := Except.ok.inj ho
    exact ⟨trivial, by decide⟩
  | empty =>
    rw [iterate, if_neg h] at ho
    obtain rfl := Except.ok.inj ho
    exact ⟨id, rfl⟩
  | timedOut now =>
    rw [iterate, if_neg h] at ho
    by_cases hlate : now - s.irc.lastPong > 60 * 6
    · rw [if_pos hlate] at ho
      obtain rfl := Except.ok.inj ho
      exact ⟨hlate, by decide⟩
    · rw [if_neg hlate] at ho
      obtain rfl := Except.ok.inj ho
      refine ⟨hlate, ?_⟩
      have hidle : ∀ s : MainLoop, s.idle.irc.quitOnTimer = s.irc.quitOnTimer := by
        intro s
        unfold idle
        split_ifs <;> rfl
      rw [hidle, ping]
      split_ifs
      · exact Irc.quitOnTimer_quote _ _ _ _
      · rfl
  | line now line =>
    rcases hr : s.irc.receiveLine now line with e | handled
    · rw [iterate_line_error h hr] at ho
      cases ho
    · obtain ⟨htimer, hleaves⟩ := Irc.receiveLine_ok hr
      rcases hflow : handled.flow with _ | result
      · rw [iterate_line_next h hr hflow] at ho
        obtain rfl := Except.ok.inj ho
        exact ⟨fun hends => hleaves.mpr hends hflow, htimer⟩
      · rw [iterate_line_leave h hr hflow] at ho
        obtain rfl := Except.ok.inj ho
        exact ⟨hleaves.mp (by simp [hflow]), by decide⟩

/-- An iteration has an outcome if what has been read ends the loop. -/
lemma exists_iterate {s : MainLoop} {r : LineRead} (h : s.ReadEnds r) (checked : ℤ) :
    ∃ o, s.iterate checked r = .ok o := by
  by_cases htimer : s.irc.quitOnTimer ≠ 0 ∧ s.irc.quitOnTimer + 5 > checked
  · exact ⟨_, iterate_of_timer htimer r⟩
  · cases r with
    | sockError => exact ⟨_, by rw [iterate, if_neg htimer]⟩
    | empty => exact h.elim
    | timedOut now =>
      have hlate : now - s.irc.lastPong > 60 * 6 := h
      exact ⟨_, by rw [iterate, if_neg htimer, if_pos hlate]⟩
    | line now line =>
      obtain ⟨m, hm, hends⟩ := h
      obtain ⟨handled, hr⟩ := Irc.exists_receiveLine hm hends
      rcases hflow : handled.flow with _ | result
      · exact ⟨_, iterate_line_next htimer hr hflow⟩
      · exact ⟨_, iterate_line_leave htimer hr hflow⟩

/-- **When an iteration leaves the loop**: as long as the five seconds after a quit are not over, or
because of what has been read. -/
lemma iterate_ended_iff (s : MainLoop) (checked : ℤ) (r : LineRead) :
    (∃ why result c, s.iterate checked r = .ok (.ended why result c)) ↔
      (s.irc.quitOnTimer ≠ 0 ∧ s.irc.quitOnTimer + 5 > checked) ∨ s.ReadEnds r := by
  by_cases htimer : s.irc.quitOnTimer ≠ 0 ∧ s.irc.quitOnTimer + 5 > checked
  · exact iff_of_true ⟨_, _, _, iterate_of_timer htimer r⟩ (.inl htimer)
  · rw [or_iff_right htimer]
    constructor
    · rintro ⟨why, result, c, h⟩
      exact (iterate_of_not_timer htimer h).1
    · intro hends
      obtain ⟨o, ho⟩ := exists_iterate hends checked
      cases o with
      | next s' => exact absurd hends (iterate_of_not_timer htimer ho).1
      | ended why result c => exact ⟨why, result, c, ho⟩

/-- When an iteration leaves the loop because of the quit timer. -/
lemma iterate_quitTimer_iff (s : MainLoop) (checked : ℤ) (r : LineRead) :
    (∃ result c, s.iterate checked r = .ok (.ended .quitTimer result c)) ↔
      s.irc.quitOnTimer ≠ 0 ∧ s.irc.quitOnTimer + 5 > checked := by
  constructor
  · rintro ⟨result, c, h⟩
    by_contra htimer
    exact (iterate_of_not_timer htimer h).2 rfl
  · exact fun htimer => ⟨_, _, iterate_of_timer htimer r⟩

/-- The time of the quit after an iteration that goes on. -/
lemma quitOnTimer_of_next {s s' : MainLoop} {checked : ℤ} {r : LineRead}
    (h : s.iterate checked r = .ok (.next s')) : s'.irc.quitOnTimer = s.irc.quitOnTimer := by
  by_cases htimer : s.irc.quitOnTimer ≠ 0 ∧ s.irc.quitOnTimer + 5 > checked
  · rw [iterate_of_timer htimer] at h
    cases Except.ok.inj h
  · exact (iterate_of_not_timer htimer h).2

end MainLoop

/-! ## Runs after a quit -/

/-- A step after a quit: an iteration, with the time at which the quit timer is checked and what has
been read, or something other threads do to the object. -/
inductive QuitStep where
  | read (checked : ℤ) (r : LineRead)
  | threads (c : Irc)

namespace MainLoop

/-- The object after a call of `irc::quit` by another thread. -/
def quit (s : MainLoop) (quitmsg : Bytes) (now : ℤ) : MainLoop :=
  { s with irc := (s.irc.quit quitmsg now).2 }

/-- Something holds of every iteration of a run, up to the one that leaves the loop. The other
threads do not quit once more. -/
def EachRead (P : MainLoop → ℤ → LineRead → Prop) : MainLoop → List QuitStep → Prop
  | _, [] => True
  | s, .read checked r :: steps =>
    P s checked r ∧ ∀ s', s.iterate checked r = .ok (.next s') → EachRead P s' steps
  | s, .threads c :: steps =>
    c.quitOnTimer = s.irc.quitOnTimer → EachRead P { s with irc := c } steps

/-- After a quit at a time, an iteration leaves the loop because of the quit timer only if five
seconds are over, and it leaves the loop if more than five seconds are over. -/
def LeavesInTime (t : ℤ) (s : MainLoop) (checked : ℤ) (r : LineRead) : Prop :=
  (∀ result c, s.iterate checked r = .ok (.ended .quitTimer result c) → t + 5 ≤ checked) ∧
    (t + 5 < checked → ∃ why result c, s.iterate checked r = .ok (.ended why result c))

/-- After a quit at a time, five seconds are over at an iteration, and if more than five seconds are
over then what has been read ends the loop. A quit at the time 0 is none for the code. -/
def GraceOver (t : ℤ) (s : MainLoop) (checked : ℤ) (r : LineRead) : Prop :=
  (t ≠ 0 → t + 5 ≤ checked) ∧ (t + 5 < checked → s.ReadEnds r)

/-- One iteration after a quit. -/
lemma leavesInTime_iff_of_quitOnTimer {t : ℤ} {s : MainLoop} (hs : s.irc.quitOnTimer = t)
    (checked : ℤ) (r : LineRead) : s.LeavesInTime t checked r ↔ s.GraceOver t checked r := by
  have hended := s.iterate_ended_iff checked r
  have hquit := s.iterate_quitTimer_iff checked r
  rw [hs] at hended hquit
  rw [LeavesInTime, GraceOver, hended]
  refine and_congr ⟨fun h ht => ?_, fun h result c hend => ?_⟩
    ⟨fun h hover => (h hover).resolve_left fun hnot => ?_, fun h hover => .inr (h hover)⟩
  · by_contra hearly
    obtain ⟨result, c, hend⟩ := hquit.mpr ⟨ht, not_le.mp hearly⟩
    exact hearly (h result c hend)
  · exact h (hquit.mp ⟨result, c, hend⟩).1
  · exact absurd hnot.2 (not_lt.mpr hover.le)

/-- What is the same for every iteration after a quit is the same for the runs after it. -/
lemma eachRead_congr {P Q : MainLoop → ℤ → LineRead → Prop} {t : ℤ}
    (hPQ : ∀ s, s.irc.quitOnTimer = t → ∀ checked r, P s checked r ↔ Q s checked r)
    {s : MainLoop} (hs : s.irc.quitOnTimer = t) (steps : List QuitStep) :
    EachRead P s steps ↔ EachRead Q s steps := by
  induction steps generalizing s with
  | nil => exact Iff.rfl
  | cons step steps ih =>
    cases step with
    | read checked r =>
      exact and_congr (hPQ s hs checked r)
        (forall₂_congr fun s' hnext => ih ((quitOnTimer_of_next hnext).trans hs))
    | threads c => exact forall_congr' fun hc => ih (hc.trans hs)

/-- A quit notes its time. -/
lemma quitOnTimer_quit {s : MainLoop} (hs : s.irc.status ≠ .disconnected) (quitmsg : Bytes)
    (now : ℤ) : (s.quit quitmsg now).irc.quitOnTimer = now := by
  rw [quit, Irc.quit, if_neg hs]
  exact Irc.quitOnTimer_quote _ _ _ _

/-- **Leaving after a quit**: in a run after a quit at a time `t`, every iteration leaves as it
should exactly when the quit timer is never checked before `t + 5`, and what has been read ends the
loop whenever it is checked after `t + 5`.

**Proof sketch.** No iteration and no handler changes the time of the quit, so it is `t` at every
iteration of the run; there the loop is left as long as `t + 5` is later than the time of the check,
and otherwise only because of what has been read. -/
theorem leavesInTime_iff {s : MainLoop} (hs : s.irc.status ≠ .disconnected) (quitmsg : Bytes)
    (t : ℤ) (steps : List QuitStep) :
    EachRead (LeavesInTime t) (s.quit quitmsg t) steps ↔
      EachRead (GraceOver t) (s.quit quitmsg t) steps :=
  eachRead_congr (fun _ h => leavesInTime_iff_of_quitOnTimer h)
    (quitOnTimer_quit hs quitmsg t) steps

/-- A run in which a read times out just when the five seconds are over, and the server closes the
connection a second later. -/
theorem leavesInTime_iff_closed :
    EachRead (LeavesInTime 100) (quietStart.quit (bytes "bye") 100)
      [.read 105 (.timedOut 105), .read 106 .sockError] := by
  refine (leavesInTime_iff (by decide) (bytes "bye") 100 _).mpr ⟨⟨fun _ => by decide, ?_⟩, ?_⟩
  · exact fun hover => absurd hover (by decide)
  · exact fun s' _ => ⟨⟨fun _ => by decide, fun _ => trivial⟩, fun _ _ => trivial⟩

/-- **The comparison is the other way around**: at the time of the quit the loop leaves at once,
also if the server's answer has been read, and six seconds later it does not. -/
theorem not_leavesInTime :
    (quietStart.quit (bytes "bye") 100).iterate 100 (.line 100 (bytes "ERROR :Closing Link")) =
        .ok (.ended .quitTimer 0 (quietStart.quit (bytes "bye") 100).irc.disconnect) ∧
      ¬ EachRead (LeavesInTime 100) (quietStart.quit (bytes "bye") 100)
        [.read 100 (.line 100 (bytes "ERROR :Closing Link"))] ∧
      (quietStart.quit (bytes "bye") 100).iterate 106 .empty =
        .ok (.next (quietStart.quit (bytes "bye") 100)) ∧
      ¬ EachRead (LeavesInTime 100) (quietStart.quit (bytes "bye") 100) [.read 106 .empty] := by
  refine ⟨rfl, fun h => ?_, rfl, fun h => ?_⟩
  · exact absurd (h.1.1 _ _ rfl) (by decide)
  · obtain ⟨why, result, c, hend⟩ := h.1.2 (by decide)
    cases Except.ok.inj hend

end MainLoop

end Meowbot
