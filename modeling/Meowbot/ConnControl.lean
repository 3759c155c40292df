import Meowbot.ListOps

set_option relaxedAutoImplicit false
set_option autoImplicit false

/-!
# Control of a connection (`ircbot_conn::quit`, `disconnect`, `reconnect`, `force_kill`)

Four functions of `ircbot_conn` end or restart a connection. Each is refused when the object is
being destructed, and otherwise does its work with `connfxn_mutex` locked. A function that finds the
mutex locked does not return. Three of the functions unlock the mutex on every way out. The fourth
one, `reconnect`, returns in front of the line that unlocks it.

## Main definitions

* `Meowbot.IrcbotConn` — the object; `IrcbotConn.quit`, `IrcbotConn.disconnect`,
  `IrcbotConn.reconnect`, `IrcbotConn.forceKill` — the functions, with `none` if they do not return.
* `Meowbot.ConnCall` — a call of one of them; `IrcbotConn.perform`.
* `Meowbot.FreeAfterEach` — every call of a sequence returns and leaves the mutex free.

## Main results

* `Meowbot.IrcbotConn.perform_of_free` — what a call does to a free mutex.
* `Meowbot.IrcbotConn.perform_of_locked` — a leaked lock blocks every call that is not refused.
* `Meowbot.freeAfterEach_iff` — the lock is never leaked exactly when every `reconnect` is refused.
-/

namespace Meowbot

/-- `irc::quit` at a time. -/
def Irc.quit (c : Irc) (quitmsg : Bytes) (now : ℤ) : ℤ × Irc :=
  if c.status = .disconnected then (-1, c)
  else
    let c : Irc := { c with quitOnTimer := now }
    (0, (c.quote (if quitmsg = [] then bytes "QUIT" else bytes "QUIT :" ++ quitmsg) ircPriorityMax
      true).2)

/-- `ircbot_conn`, as far as the four functions use it: its base object, the thread it runs in, the
flags that the thread looks at, and the mutex that they take. What is done to threads is recorded in
the last field. -/
structure IrcbotConn where
  /-- The base object. -/
  irc : Irc
  mainThreadTid : UInt64
  isDestructing : Bool
  disconnectOn : Bool
  reconnectOn : Bool
  /-- `connfxn_mutex` is locked. -/
  connfxnMutex : Bool
  /-- The threads detached and cancelled so far. -/
  cancelled : List UInt64

namespace IrcbotConn

/-- `(pthread_t)-1` -/
def noThread : UInt64 := -1

/-- `pthread_mutex_lock` on `connfxn_mutex`, which does not return if it is locked already. -/
def lockConnfxn (c : IrcbotConn) : Option IrcbotConn :=
  if c.connfxnMutex then none else some { c with connfxnMutex := true }

/-- `pthread_mutex_unlock` on `connfxn_mutex`. -/
def unlockConnfxn (c : IrcbotConn) : IrcbotConn := { c with connfxnMutex := false }

/-- `ircbot_conn::quit`. The result of the base class becomes `true` if it is an error. -/
def quit (c : IrcbotConn) (quitmsg : Bytes) (now : ℤ) : Option (Bool × IrcbotConn) :=
  if c.isDestructing then some (false, c)
  else do
    let c ← c.lockConnfxn
    let r := c.irc.quit quitmsg now
    let c : IrcbotConn := { c with reconnectOn := false, disconnectOn := true, irc := r.2 }
    some (r.1 ≠ 0, c.unlockConnfxn)

/-- `ircbot_conn::disconnect`. The result of the base class is `0`. -/
def disconnect (c : IrcbotConn) : Option (Bool × IrcbotConn) :=
  if c.isDestructing then some (false, c)
  else do
    let c ← c.lockConnfxn
    let c : IrcbotConn :=
      { c with reconnectOn := false, disconnectOn := true, irc := c.irc.disconnect }
    some (false, c.unlockConnfxn)

/-- `ircbot_conn::reconnect`, which returns with the mutex locked. -/
def reconnect (c : IrcbotConn) (quitmsg : Bytes) (now : ℤ) : Option (Bool × IrcbotConn) :=
  if c.isDestructing || c.disconnectOn then some (false, c)
  else do
    let c ← c.lockConnfxn
    let r := c.irc.quit (if quitmsg = [] then bytes "Reconnecting" else quitmsg) now
    some (r.1 ≠ 0, { c with reconnectOn := true, irc := r.2 })

/-- `ircbot_conn::force_kill`. A connection that is still up is told to quit, the flags are set so
that the thread ends, and the thread is cancelled if there is one. A thread id is compared as an
`int`, so only its lower half counts. -/
def forceKill (c : IrcbotConn) (now : ℤ) : Option (Bool × IrcbotConn) :=
  if c.isDestructing then some (false, c)
  else do
    let c ← c.lockConnfxn
    let irc :=
      if c.irc.status = .connected ∧ c.reconnectOn = false ∧ c.disconnectOn = false then
        (c.irc.quit (bytes "Forced quit") now).2
      else c.irc
    let tid := c.mainThreadTid
    let c : IrcbotConn :=
      { c with irc, reconnectOn := false, disconnectOn := true, mainThreadTid := noThread }
    if tid.toUInt32 ≠ noThread.toUInt32 then
      some (true, { c.unlockConnfxn with cancelled := c.cancelled ++ [tid] })
    else some (false, c.unlockConnfxn)

end IrcbotConn

/-- A call of one of the functions, with the time. -/
inductive ConnCall where
  | quit (quitmsg : Bytes) (now : ℤ)
  | disconnect
  | reconnect (quitmsg : Bytes) (now : ℤ)
  | forceKill (now : ℤ)

namespace IrcbotConn

/-- A call. -/
def perform (c : IrcbotConn) : ConnCall → Option (Bool × IrcbotConn)
  | .quit quitmsg now => c.quit quitmsg now
  | .disconnect => c.disconnect
  | .reconnect quitmsg now => c.reconnect quitmsg now
  | .forceKill now => c.forceKill now

/-- The function returns at once. -/
def Refuses (c : IrcbotConn) : ConnCall → Prop
  | .reconnect _ _ => c.isDestructing = true ∨ c.disconnectOn = true
  | .quit _ _ | .disconnect | .forceKill _ => c.isDestructing = true

/-- A refused call does nothing. -/
lemma perform_of_refuses {c : IrcbotConn} {call : ConnCall} (h : c.Refuses call) :
    c.perform call = some (false, c) := by
  cases call with
  | quit quitmsg now => exact if_pos h
  | disconnect => exact if_pos h
  | reconnect quitmsg now => exact if_pos (by simpa [Refuses] using h)
  | forceKill now => exact if_pos h

/-- **What a call does to a free mutex**: it returns, and the mutex is free then except when the
call is a `reconnect` that is not refused.

**Proof sketch.** By cases on the call. One that is refused does nothing; of the others, which take
the mutex, only `reconnect` returns without giving it back. -/
lemma perform_of_free {c : IrcbotConn} (hfree : c.connfxnMutex = false) (call : ConnCall) :
    ∃ r c', c.perform call = some (r, c') ∧ (c'.connfxnMutex = false ↔
      ∀ quitmsg now, call = .reconnect quitmsg now →
        c.isDestructing = true ∨ c.disconnectOn = true) := by
  by_cases href : c.Refuses call
  · refine ⟨false, c, perform_of_refuses href, iff_of_true hfree ?_⟩
    rintro quitmsg now rfl
    exact href
  · have hlock : c.lockConnfxn = some { c with connfxnMutex := true } := by
      simp [lockConnfxn, hfree]
    cases call with
    | quit quitmsg now =>
      have hnot : ¬ c.isDestructing = true := href
      exact ⟨_, _, by rw [perform, quit, if_neg hnot, hlock]; rfl, by simp [unlockConnfxn]⟩
    | disconnect =>
      have hnot : ¬ c.isDestructing = true := href
      exact ⟨_, _, by rw [perform, disconnect, if_neg hnot, hlock]; rfl, by simp [unlockConnfxn]⟩
    | reconnect quitmsg now =>
      have hnot : ¬ (c.isDestructing || c.disconnectOn) = true := by
        simpa only [Refuses, Bool.or_eq_true] using href
      refine ⟨_, _, by rw [perform, reconnect, if_neg hnot, hlock]; rfl, ?_⟩
      exact iff_of_false (by simp) fun h => href (h quitmsg now rfl)
    | forceKill now =>
      have hnot : ¬ c.isDestructing = true := href
      rw [perform, forceKill, if_neg hnot, hlock]
      by_cases htid : c.mainThreadTid.toUInt32 ≠ noThread.toUInt32
      · exact ⟨_, _, if_pos htid, by simp [unlockConnfxn]⟩
      · exact ⟨_, _, if_neg htid, by simp [unlockConnfxn]⟩

/-- **A leaked lock** blocks every call that is not refused.

**Proof sketch.** By cases on the call: one that is not refused comes to `pthread_mutex_lock` first,
and the mutex is taken. -/
lemma perform_of_locked {c : IrcbotConn} (hlocked : c.connfxnMutex = true) {call : ConnCall}
    (h : ¬ c.Refuses call) : c.perform call = none := by
  have hlock : c.lockConnfxn = none := if_pos hlocked
  cases call with
  | quit quitmsg now =>
    have hnot : ¬ c.isDestructing = true := h
    rw [perform, quit, if_neg hnot, hlock]
    rfl
  | disconnect =>
    have hnot : ¬ c.isDestructing = true := h
    rw [perform, disconnect, if_neg hnot, hlock]
    rfl
  | reconnect quitmsg now =>
    have hnot : ¬ (c.isDestructing || c.disconnectOn) = true := by
      simpa only [Refuses, Bool.or_eq_true] using h
    rw [perform, reconnect, if_neg hnot, hlock]
    rfl
  | forceKill now =>
    have hnot : ¬ c.isDestructing = true := h
    rw [perform, forceKill, if_neg hnot, hlock]
    rfl

end IrcbotConn

/-- A call in a sequence, with the object as the other threads have left it. -/
structure ConnStep where
  conn : IrcbotConn
  call : ConnCall

/-- Every call of a sequence returns and leaves the mutex free, where the mutex is locked or not at
first and no one else uses it. -/
def FreeAfterEach : Bool → List ConnStep → Prop
  | _, [] => True
  | locked, s :: steps =>
    ∃ r c, ({ s.conn with connfxnMutex := locked } : IrcbotConn).perform s.call = some (r, c) ∧
      c.connfxnMutex = false ∧ FreeAfterEach c.connfxnMutex steps

/-- **The lock is never leaked** exactly when every `reconnect` of the sequence is refused: then
every call returns with the mutex free.

**Proof sketch.** A call that finds the mutex free leaves it free unless it is a `reconnect` that
does its work; so the first such call is the first one after which the mutex is not free. -/
theorem freeAfterEach_iff (steps : List ConnStep) :
    FreeAfterEach false steps ↔ ∀ s ∈ steps, ∀ quitmsg now, s.call = .reconnect quitmsg now →
      s.conn.isDestructing = true ∨ s.conn.disconnectOn = true := by
  induction steps with
  | nil => simp [FreeAfterEach]
  | cons s steps ih =>
    obtain ⟨r, c, hperform, hmutex⟩ :=
      IrcbotConn.perform_of_free (c := { s.conn with connfxnMutex := false }) rfl s.call
    rw [List.forall_mem_cons, ← ih, ← hmutex, FreeAfterEach]
    constructor
    · rintro ⟨r', c', hperform', hfree, hrest⟩
      obtain ⟨rfl, rfl⟩ := Prod.mk.inj (Option.some.inj (hperform.symm.trans hperform'))
      exact ⟨hfree, by rwa [hfree] at hrest⟩
    · rintro ⟨hfree, hrest⟩
      exact ⟨r, c, hperform, hfree, by rwa [hfree]⟩

/-- A connection on which the bot is logged in. -/
def connectedConn : IrcbotConn :=
  { irc := { Irc.started (bytes "bot") with status := .connected }, mainThreadTid := 1,
    isDestructing := false, disconnectOn := false, reconnectOn := false, connfxnMutex := false,
    cancelled := [] }

/-- **A reconnect and a disconnect**: the first returns with the mutex locked, so the second does
not return. -/
theorem not_freeAfterEach :
    (∃ r c, connectedConn.perform (.reconnect [] 0) = some (r, c) ∧ c.connfxnMutex = true ∧
      c.perform .disconnect = none) ∧
    ¬ FreeAfterEach false
      [⟨connectedConn, .reconnect [] 0⟩, ⟨connectedConn, .disconnect⟩] := by
  refine ⟨⟨_, _, rfl, rfl, rfl⟩, ?_⟩
  rintro ⟨r, c, hperform, hfree, -⟩
  obtain ⟨-, rfl⟩ := Prod.mk.inj (Option.some.inj hperform)
  cases hfree

end Meowbot
