import Mathlib.Algebra.Order.Ring.Int
import Meowbot.CmdTable
import Meowbot.IrcUtils
import Meowbot.Lib.Runs

set_option relaxedAutoImplicit false
set_option autoImplicit false

/-!
# The handlers of an event (`ircbot.cpp`, `ircevent.h`)

Any number of event threads hand their events to the handlers that modules have registered, while
other threads register handlers and commands and take them away. `call_event_handlers` walks over
the list with the read lock held, also while it is in a handler; whoever changes the list wants the
write lock. Commands are looked up under a lock of their own, which is given back before the command
runs. When all is done, the handlers are told so, and the event is freed. The branch of
`event_cb_real` for `BOTEVENT_LOGGEDIN`, which joins the channels of the configuration, calls no
handler and is left out.

Every stretch between two operations on the lock of the list, or on the handlers, is a step; a
change of the list is one step, which waits until nobody reads. The handlers and the commands may
return anything. `std::sort` puts handlers of one priority in any order.

## Main definitions

* `Meowbot.Dispatcher`, `Meowbot.Dispatcher.step` — the lists with the threads, and their steps.
* `Meowbot.Sweep`, `Meowbot.Dispatched` — what `call_event_handlers` and `event_cb_real` do when
  they are not interrupted.
* `Meowbot.live` — the handlers that are registered, by the history.

## Main results

* `Meowbot.Dispatcher.inside_live` — a thread is in handlers only that are registered.
* `Meowbot.Dispatcher.run_dispatched` — every event goes through `event_cb_real` as if its thread
  were alone, and each list is the one registered then.
-/

namespace Meowbot

open Runs

/-! ## Events and handlers -/

/-- `event_id`. An event with `privmsgSend` is sent only with `ENABLE_PRIVMSG_SEND_EVENT`, which is
not defined. -/
inductive BotEventId where
  | idle | connected | loggedin | disconnected | join | part | kick | quit | nick | privmsg | mode
  | invite | srvincoming | command | evhandlerDone | privmsgSend
  deriving DecidableEq

/-- An event: its address, and what is looked at. -/
structure BotEvent where
  addr : ℕ
  eventId : BotEventId
  msgtype : IrcMsgtype
  msg : Bytes
  deriving DecidableEq

/-- `delete_ircevent` frees the event: it is none of those that are static. -/
def BotEvent.isDeleted (e : BotEvent) : Bool :=
  !(e.eventId == .idle || e.eventId == .connected || e.eventId == .loggedin ||
    e.eventId == .disconnected || e.eventId == .evhandlerDone)

/-- `event_handler`, its pointers as addresses. -/
structure EventHandler where
  handler : ℕ
  priority : ℤ
  userdata : ℕ
  deriving DecidableEq

/-- `HANDLER_FINISHED` -/
def handlerFinished : ℤ := 0

/-- `HANDLER_GO_ON` -/
def handlerGoOn : ℤ := 1

/-- The three calls of `call_event_handlers` in `event_cb_real`: for the event, for its command, for
`BOTEVENT_EVHANDLER_DONE`. -/
inductive HandlerCall where
  | event
  | command (fxn : CmdHandler)
  | done
  deriving DecidableEq

/-- What can be seen of a thread: the event it takes, the list that is there when it has the lock,
the handlers and the command that it calls with what they return, and the end of the event. -/
inductive Seen where
  | took (e : BotEvent)
  /-- The read lock has been taken, and the list is this one. -/
  | locked (call : HandlerCall) (list : List EventHandler)
  | called (eh : EventHandler)
  | returned (ret : ℤ)
  | ran (fxn : CmdHandler)
  | deleted (e : BotEvent)
  deriving DecidableEq

/-- The history: what a thread has done, and the changes of the list. -/
inductive DispatchEntry where
  | thread (i : ℕ) (o : Seen)
  | registered (eh : EventHandler)
  | unregistered (handler : ℕ)
  deriving DecidableEq

/-! ## States and steps -/

/-- Where an event thread is in `event_cb_real`. The three calls of `call_event_handlers` share
their places, which say in which of the calls they are; the index is that of the handler that is
looked at next. -/
inductive DispatchPc where
  /-- Not in `event_cb_real`. -/
  | idle
  /-- About to lock the list. -/
  | locking (e : BotEvent) (call : HandlerCall)
  /-- In the loop of `call_event_handlers`. -/
  | looking (e : BotEvent) (call : HandlerCall) (it : ℕ)
  /-- In a handler. -/
  | inside (e : BotEvent) (call : HandlerCall) (it : ℕ) (eh : EventHandler)
  /-- About to unlock the list and to return. -/
  | unlocking (e : BotEvent) (call : HandlerCall) (ret : ℤ)
  /-- Behind the first call. -/
  | switching (e : BotEvent)
  /-- In the handler of a command. -/
  | commanding (e : BotEvent) (fxn : CmdHandler)
  /-- Behind the last call. -/
  | freeing (e : BotEvent)
  deriving DecidableEq

/-- The thread has the read lock. -/
def DispatchPc.reads : DispatchPc → Bool
  | .looking .. | .inside .. | .unlocking .. => true
  | _ => false

/-- The lists and the threads. The lock of the list is a read-write lock, of which only the number
of readers is kept: the list is written in one step, which needs that there are none. -/
structure Dispatcher where
  /-- `event_handlers` -/
  handlers : List EventHandler
  /-- The readers of `event_handler_list_lock`. -/
  readers : ℕ
  /-- `cmd_handlers` -/
  cmdHandlers : CmdHandlers
  threads : List DispatchPc
  log : List DispatchEntry

/-- A step of an event thread. What a handler or a command returns is not up to the dispatcher, so
it is part of the label. -/
inductive DispatchThreadLabel where
  /-- It takes an event. -/
  | take (e : BotEvent)
  /-- It goes on. -/
  | go
  /-- The handler or the command that it is in returns. -/
  | ret (value : ℤ)
  deriving DecidableEq

/-- A step. The result of `std::sort` is part of the label. -/
inductive DispatchLabel where
  | thread (i : ℕ) (l : DispatchThreadLabel)
  | registerEventHandler (eh : EventHandler) (sorted : List EventHandler)
  | unregisterEventHandler (handler : ℕ) (sorted : List EventHandler)
  | registerCmd (name : Bytes) (h : CmdHandler)
  | unregisterCmd (name : Bytes)
  deriving DecidableEq

/-- A possible result of `std::sort` with `event_handler_priority_compator`. -/
def SortResult (list sorted : List EventHandler) : Prop :=
  sorted.Perm list ∧ sorted.Pairwise fun a b => b.priority ≤ a.priority

instance (list sorted : List EventHandler) : Decidable (SortResult list sorted) :=
  inferInstanceAs (Decidable (_ ∧ _))

section

variable (reCommand : Bytes → Option Bytes)

/-- The command in a message that is not CTCP: its handler, when there is one. -/
def findCommand (cmdHandlers : CmdHandlers) (e : BotEvent) : Option CmdHandler :=
  if e.eventId = .privmsg ∧ e.msgtype ≠ .ctcp ∧ e.msgtype ≠ .ctcpreply then
    (reCommand e.msg).bind (getCmdHandler cmdHandlers)
  else none

/-- Behind a call of `call_event_handlers`: where the thread is, and what it does before that. An
event that a handler has finished goes to the last call at once; a command without a function is
passed over. -/
def afterCall (e : BotEvent) (call : HandlerCall) (ret : ℤ) : DispatchPc × List Seen :=
  match call with
  | .event => (if ret = handlerFinished then .locking e .done else .switching e, [])
  | .command fxn =>
    if ret = handlerFinished then (.locking e .done, [])
    else if fxn.handler = 0 then (.locking e .done, [])
    else (.commanding e fxn, [.ran fxn])
  | .done => (.freeing e, [])

/-- A step of a thread: where it is then, the readers, and what can be seen. Handlers that are
`NULL` are passed over, and one that finishes the event ends the loop; the list is the one of the
state at each round, as in the source. -/
def Dispatcher.threadStep (s : Dispatcher) : DispatchPc → DispatchThreadLabel →
    Option (DispatchPc × ℕ × List Seen)
  | .idle, .take e => some (.locking e .event, s.readers, [.took e])
  | .locking e call, .go => some (.looking e call 0, s.readers + 1, [.locked call s.handlers])
  | .looking e call it, .go =>
    match s.handlers[it]? with
    | none => some (.unlocking e call handlerGoOn, s.readers, [])
    | some eh =>
      if eh.handler = 0 then some (.looking e call (it + 1), s.readers, [])
      else some (.inside e call it eh, s.readers, [.called eh])
  | .inside e call it _, .ret value =>
    some (if value = handlerFinished then .unlocking e call handlerFinished
      else .looking e call (it + 1), s.readers, [.returned value])
  | .unlocking e call ret, .go =>
    some ((afterCall e call ret).1, s.readers - 1, (afterCall e call ret).2)
  | .switching e, .go =>
    match findCommand reCommand s.cmdHandlers e with
    | none => some (.locking e .done, s.readers, [])
    | some fxn => some (.locking e (.command fxn), s.readers, [])
  | .commanding e _, .ret _ => some (.locking e .done, s.readers, [])
  | .freeing e, .go => some (.idle, s.readers, if e.isDeleted then [.deleted e] else [])
  | _, _ => none

/-- The step function. Registering puts a handler at the end and sorts the list, unless its address
is there already; unregistering takes out the first one with the address. How `sort` orders handlers
of one priority is left open, so the sorted list is part of the label. -/
def Dispatcher.step (s : Dispatcher) : DispatchLabel → Option Dispatcher
  | .thread i l => do
    let pc ← s.threads[i]?
    let (pc', readers, seen) ← s.threadStep reCommand pc l
    return { s with readers, threads := s.threads.set i pc', log := s.log ++ seen.map (.thread i) }
  | .registerEventHandler eh sorted =>
    if s.readers ≠ 0 then none
    else if s.handlers.any fun eh' => eh'.handler == eh.handler then some s
    else if SortResult (s.handlers ++ [eh]) sorted then
      some { s with handlers := sorted, log := s.log ++ [.registered eh] }
    else none
  | .unregisterEventHandler handler sorted =>
    if s.readers ≠ 0 then none
    else if s.handlers.any fun eh => eh.handler == handler then
      if SortResult (s.handlers.eraseP fun eh => eh.handler == handler) sorted then
        some { s with handlers := sorted, log := s.log ++ [.unregistered handler] }
      else none
    else some s
  | .registerCmd name h => some { s with cmdHandlers := (registerCmd s.cmdHandlers name h).2 }
  | .unregisterCmd name => some { s with cmdHandlers := (unregisterCmd s.cmdHandlers name).2 }

end

/-- So many threads, and nothing registered. -/
def Dispatcher.start (n : ℕ) : Dispatcher where
  handlers := []
  readers := 0
  cmdHandlers := .empty
  threads := List.replicate n .idle
  log := []

/-! ## What one thread does when it is alone -/

/-- **A call of `call_event_handlers`** with a list: the handlers from the front to the first one
that finishes the event. -/
inductive Sweep : List EventHandler → List Seen → ℤ → Prop
  | nil : Sweep [] [] handlerGoOn
  | null {eh : EventHandler} {list : List EventHandler} {os : List Seen} {ret : ℤ}
      (hnull : eh.handler = 0) (h : Sweep list os ret) : Sweep (eh :: list) os ret
  | finished {eh : EventHandler} {list : List EventHandler} (hnull : eh.handler ≠ 0) :
      Sweep (eh :: list) [.called eh, .returned handlerFinished] handlerFinished
  | goOn {eh : EventHandler} {list : List EventHandler} {os : List Seen} {value ret : ℤ}
      (hnull : eh.handler ≠ 0) (hvalue : value ≠ handlerFinished) (h : Sweep list os ret) :
      Sweep (eh :: list) (.called eh :: .returned value :: os) ret

/-- A list of handlers is by descending priority, and no handler is in it twice. -/
structure Prioritized (list : List EventHandler) : Prop where
  sorted : list.Pairwise fun a b => b.priority ≤ a.priority
  nodup : (list.map (·.handler)).Nodup

/-- A call of `call_event_handlers` with some list, that is in order. -/
inductive Called (call : HandlerCall) : List Seen → ℤ → Prop
  | intro {list : List EventHandler} {os : List Seen} {ret : ℤ} (hlist : Prioritized list)
      (h : Sweep list os ret) : Called call (.locked call list :: os) ret

/-- What `event_cb_real` does with the command of an event that no handler has finished: nothing if
there is none, and otherwise a second call of the handlers, and the command if none of them finishes
the event and it has a function. -/
inductive CommandDone (e : BotEvent) : List Seen → Prop
  | none : CommandDone e []
  | finished {fxn : CmdHandler} {os : List Seen} (he : e.eventId = .privmsg)
      (h : Called (.command fxn) os handlerFinished) : CommandDone e os
  | null {fxn : CmdHandler} {os : List Seen} (he : e.eventId = .privmsg) (hnull : fxn.handler = 0)
      (h : Called (.command fxn) os handlerGoOn) : CommandDone e os
  | ran {fxn : CmdHandler} {os : List Seen} (he : e.eventId = .privmsg) (hnull : fxn.handler ≠ 0)
      (h : Called (.command fxn) os handlerGoOn) : CommandDone e (os ++ [.ran fxn])

/-- What `event_cb_real` does before its last call of the handlers. -/
inductive Front (e : BotEvent) : List Seen → Prop
  | finished {os : List Seen} (h : Called .event os handlerFinished) : Front e (.took e :: os)
  | goOn {os os' : List Seen} (h : Called .event os handlerGoOn) (h' : CommandDone e os') :
      Front e (.took e :: os ++ os')

/-- **A run of `event_cb_real`**: the handlers, then the command if none of them has finished the
event, then the handlers once more for the end, and the event is freed. -/
inductive Dispatched : List Seen → Prop
  | intro {e : BotEvent} {os os' : List Seen} {ret : ℤ} (h : Front e os) (h' : Called .done os' ret) :
      Dispatched (os ++ os' ++ if e.isDeleted then [.deleted e] else [])

/-- The handlers that are registered, by the history. -/
def live : List DispatchEntry → List EventHandler :=
  List.foldl (fun list entry => match entry with
    | .thread _ _ => list
    | .registered eh => eh :: list
    | .unregistered handler => list.filter fun eh => eh.handler ≠ handler) []

/-- An entry of one thread. -/
def DispatchEntry.own (i : ℕ) : DispatchEntry → Option Seen
  | .thread j o => if j = i then some o else none
  | _ => none

/-- What can be seen of one thread. -/
def own (i : ℕ) (log : List DispatchEntry) : List Seen := log.filterMap (DispatchEntry.own i)

/-! ## One call of the handlers -/

/-- A call returns one of the two results. -/
lemma Sweep.ret {list : List EventHandler} {os : List Seen} {ret : ℤ} (h : Sweep list os ret) :
    ret = handlerFinished ∨ ret = handlerGoOn := by
  induction h with
  | nil => exact .inr rfl
  | null _ _ ih => exact ih
  | finished _ => exact .inl rfl
  | goOn _ _ _ ih => exact ih

/-- A list that no handler finishes, and what follows. -/
lemma Sweep.append {list list' : List EventHandler} {os os' : List Seen} {ret : ℤ}
    (h : Sweep list os handlerGoOn) (h' : Sweep list' os' ret) :
    Sweep (list ++ list') (os ++ os') ret := by
  generalize hr : handlerGoOn = r at h
  induction h with
  | nil => exact h'
  | null hnull _ ih => exact .null hnull (ih hr)
  | finished _ => exact absurd hr (by decide)
  | goOn hnull hvalue _ ih => exact .goOn hnull hvalue (ih hr)

/-- One more handler, that does not finish the event. -/
lemma Sweep.snoc {list : List EventHandler} {os os' : List Seen} {it : ℕ} {eh : EventHandler}
    (h : Sweep (list.take it) os handlerGoOn) (hit : list[it]? = some eh)
    (h' : Sweep [eh] os' handlerGoOn) : Sweep (list.take (it + 1)) (os ++ os') handlerGoOn := by
  rw [List.take_add_one, hit]
  exact h.append h'

/-- A handler that finishes the event. -/
lemma Sweep.finish {list : List EventHandler} {os : List Seen} {it : ℕ} {eh : EventHandler}
    (h : Sweep (list.take it) os handlerGoOn) (hit : list[it]? = some eh) (hnull : eh.handler ≠ 0) :
    Sweep list (os ++ [.called eh, .returned handlerFinished]) handlerFinished := by
  obtain ⟨hlt, hget⟩ := List.getElem?_eq_some_iff.mp hit
  have hsplit : list = list.take it ++ eh :: list.drop (it + 1) := by
    rw [← hget, ← List.drop_eq_getElem_cons hlt, List.take_append_drop]
  rw [hsplit]
  exact h.append (.finished hnull)

/-! ## A thread among others -/

/-- What a thread has done with its event when it is about to call the handlers. -/
def Before (e : BotEvent) (os : List Seen) : HandlerCall → Prop
  | .event => os = [.took e]
  | .command _ => e.eventId = .privmsg ∧ ∃ os₁, os = .took e :: os₁ ∧ Called .event os₁ handlerGoOn
  | .done => Front e os

/-- **What a thread has done** with its event, while the list is this one. In front of the index all
handlers of the list have been called and have let the event go on, which is what the loop knows
between two rounds. -/
def Partial (handlers : List EventHandler) (os : List Seen) : DispatchPc → Prop
  | .idle => os = []
  | .locking e call => Before e os call
  | .looking e call it => ∃ os₁ os₂, os = os₁ ++ .locked call handlers :: os₂ ∧ Before e os₁ call ∧
      Sweep (handlers.take it) os₂ handlerGoOn
  | .inside e call it eh => ∃ os₁ os₂, os = os₁ ++ .locked call handlers :: (os₂ ++ [.called eh]) ∧
      Before e os₁ call ∧ Sweep (handlers.take it) os₂ handlerGoOn ∧ handlers[it]? = some eh ∧
      eh.handler ≠ 0
  | .unlocking e call ret => ∃ os₁ os₂, os = os₁ ++ os₂ ∧ Before e os₁ call ∧ Called call os₂ ret
  | .switching e => ∃ os₁, os = .took e :: os₁ ∧ Called .event os₁ handlerGoOn
  | .commanding e _ => Front e os
  | .freeing e => ∃ os₁ os₂ ret, os = os₁ ++ os₂ ∧ Front e os₁ ∧ Called .done os₂ ret

/-- A thread that does not read does not depend on the list. -/
lemma Partial.of_not_reads {handlers handlers' : List EventHandler} {os : List Seen}
    {pc : DispatchPc} (hpc : pc.reads = false) (h : Partial handlers os pc) :
    Partial handlers' os pc := by
  cases pc with
  | looking e call it => cases hpc
  | inside e call it eh => cases hpc
  | unlocking e call ret => cases hpc
  | idle => exact h
  | locking e call => exact h
  | switching e => exact h
  | commanding e fxn => exact h
  | freeing e => exact h

/-- Behind a call of the handlers.

**Proof sketch.** By cases on the call. If a handler has finished the event, it is over, or the
command has been found; if all have gone on, the calls for the command follow those for the event,
and behind them the thread is done. -/
lemma partial_afterCall {handlers : List EventHandler} {e : BotEvent} {call : HandlerCall} {ret : ℤ}
    {os₁ os₂ : List Seen} (hbefore : Before e os₁ call) (hcall : Called call os₂ ret) :
    Partial handlers (os₁ ++ os₂ ++ (afterCall e call ret).2) (afterCall e call ret).1 := by
  have hret : ret = handlerFinished ∨ ret = handlerGoOn := by
    obtain ⟨-, hsweep⟩ := hcall
    exact hsweep.ret
  cases call with
  | event =>
    obtain rfl := hbefore
    rw [show (afterCall e .event ret).2 = [] from rfl, List.append_nil]
    obtain rfl | rfl := hret
    · exact Front.finished hcall
    · exact ⟨os₂, rfl, hcall⟩
  | command fxn =>
    obtain ⟨he, os₁, rfl, hevent⟩ := hbefore
    obtain rfl | rfl := hret
    · rw [afterCall, if_pos rfl, List.append_nil]
      exact Front.goOn hevent (.finished he hcall)
    · by_cases hnull : fxn.handler = 0
      · rw [afterCall, if_neg (by decide), if_pos hnull, List.append_nil]
        exact Front.goOn hevent (.null he hnull hcall)
      · rw [afterCall, if_neg (by decide), if_neg hnull, List.append_assoc]
        exact Front.goOn hevent (.ran he hnull hcall)
  | done => exact ⟨os₁, os₂, ret, List.append_nil _, hbefore, hcall⟩

variable {reCommand : Bytes → Option Bytes}

/-- **A step of a thread** continues what it does with its event, or ends it.

**Proof sketch.** By cases on where the thread is. A handler that is looked at is the next one of
the list that was there when the lock was taken, and the list is still the same, as the lock is
held. -/
lemma partial_threadStep {s : Dispatcher} {pc pc' : DispatchPc} {l : DispatchThreadLabel} {readers : ℕ}
    {os seen : List Seen} (hstep : s.threadStep reCommand pc l = some (pc', readers, seen))
    (hlist : Prioritized s.handlers) (h : Partial s.handlers os pc) :
    Partial s.handlers (os ++ seen) pc' ∨ (pc' = .idle ∧ Dispatched (os ++ seen)) := by
  rw [Dispatcher.threadStep.eq_def] at hstep
  split at hstep
  · -- An event is taken.
    obtain ⟨rfl, -, rfl⟩ : _ ∧ _ ∧ _ := by simpa using hstep
    obtain rfl := h
    exact .inl rfl
  · -- The lock is taken.
    obtain ⟨rfl, -, rfl⟩ : _ ∧ _ ∧ _ := by simpa using hstep
    exact .inl ⟨os, [], rfl, h, by rw [List.take_zero]; exact .nil⟩
  · -- The next handler is looked at: there is none, it is NULL, or it is called.
    rename_i e call it
    obtain ⟨os₁, os₂, rfl, hbefore, hsweep⟩ := h
    split at hstep
    · rename_i hit
      obtain ⟨rfl, -, rfl⟩ : _ ∧ _ ∧ _ := by simpa using hstep
      rw [List.take_of_length_le (List.getElem?_eq_none_iff.mp hit)] at hsweep
      exact .inl ⟨os₁, _, by simp, hbefore, .intro hlist hsweep⟩
    · rename_i eh hit
      split_ifs at hstep with hnull
      · obtain ⟨rfl, -, rfl⟩ : _ ∧ _ ∧ _ := by simpa using hstep
        exact .inl ⟨os₁, os₂ ++ [], by simp, hbefore, hsweep.snoc hit (.null hnull .nil)⟩
      · obtain ⟨rfl, -, rfl⟩ : _ ∧ _ ∧ _ := by simpa using hstep
        exact .inl ⟨os₁, os₂, by simp, hbefore, hsweep, hit, hnull⟩
  · -- A handler returns.
    rename_i e call it eh value
    obtain ⟨os₁, os₂, rfl, hbefore, hsweep, hit, hnull⟩ := h
    obtain ⟨rfl, -, rfl⟩ : _ ∧ _ ∧ _ := by simpa using hstep
    split_ifs with hvalue
    · subst hvalue
      exact .inl ⟨os₁, _, by simp, hbefore, .intro hlist (hsweep.finish hit hnull)⟩
    · exact .inl ⟨os₁, _, by simp, hbefore, hsweep.snoc hit (.goOn hnull hvalue .nil)⟩
  · -- The lock is given back.
    obtain ⟨os₁, os₂, rfl, hbefore, hcall⟩ := h
    obtain ⟨rfl, -, rfl⟩ : _ ∧ _ ∧ _ := by simpa using hstep
    exact .inl (partial_afterCall hbefore hcall)
  · -- The command is looked up.
    rename_i e
    obtain ⟨os₁, rfl, hevent⟩ := h
    split at hstep
    · obtain ⟨rfl, -, rfl⟩ : _ ∧ _ ∧ _ := by simpa using hstep
      exact .inl (Front.goOn hevent .none)
    · rename_i fxn hfind
      have he : e.eventId = .privmsg := by
        rw [findCommand] at hfind
        split_ifs at hfind with hmsg
        exact hmsg.1
      obtain ⟨rfl, -, rfl⟩ : _ ∧ _ ∧ _ := by simpa using hstep
      exact .inl ⟨he, os₁, List.append_nil _, hevent⟩
  · -- The command returns.
    obtain ⟨rfl, -, rfl⟩ : _ ∧ _ ∧ _ := by simpa using hstep
    rw [List.append_nil]
    exact .inl h
  · -- The event is freed.
    obtain ⟨os₁, os₂, ret, rfl, hfront, hdone⟩ := h
    obtain ⟨rfl, -, rfl⟩ : _ ∧ _ ∧ _ := by simpa using hstep
    exact .inr ⟨rfl, .intro hfront hdone⟩
  · cases hstep

/-- The lock is taken and given back with the steps into the loop and out of it.

**Proof sketch.** By cases on where the thread is: the step into the loop adds one to the readers,
the step out of it takes one away. -/
lemma readers_threadStep {s : Dispatcher} {pc pc' : DispatchPc} {l : DispatchThreadLabel} {readers : ℕ}
    {seen : List Seen} (hstep : s.threadStep reCommand pc l = some (pc', readers, seen))
    (hreads : pc.reads = true → 0 < s.readers) :
    readers + pc.reads.toNat = s.readers + pc'.reads.toNat := by
  have hafter (e : BotEvent) (call : HandlerCall) (ret : ℤ) :
      (afterCall e call ret).1.reads = false := by
    cases call with
    | event =>
      rw [afterCall]
      split_ifs <;> rfl
    | command fxn =>
      rw [afterCall]
      split_ifs <;> rfl
    | done => rfl
  rw [Dispatcher.threadStep.eq_def] at hstep
  split at hstep
  · obtain ⟨rfl, rfl, -⟩ : _ ∧ _ ∧ _ := by simpa using hstep
    rfl
  · obtain ⟨rfl, rfl, -⟩ : _ ∧ _ ∧ _ := by simpa using hstep
    rfl
  · split at hstep
    · obtain ⟨rfl, rfl, -⟩ : _ ∧ _ ∧ _ := by simpa using hstep
      rfl
    · split_ifs at hstep <;> obtain ⟨rfl, rfl, -⟩ : _ ∧ _ ∧ _ := by simpa using hstep
      all_goals rfl
  · obtain ⟨rfl, rfl, -⟩ : _ ∧ _ ∧ _ := by simpa using hstep
    split_ifs <;> rfl
  · obtain ⟨rfl, rfl, -⟩ : _ ∧ _ ∧ _ := by simpa using hstep
    rw [hafter]
    exact Nat.sub_add_cancel (hreads rfl)
  · split at hstep <;> obtain ⟨rfl, rfl, -⟩ : _ ∧ _ ∧ _ := by simpa using hstep
    all_goals rfl
  · obtain ⟨rfl, rfl, -⟩ : _ ∧ _ ∧ _ := by simpa using hstep
    rfl
  · obtain ⟨rfl, rfl, -⟩ : _ ∧ _ ∧ _ := by simpa using hstep
    rfl
  · cases hstep

/-- The list that a thread sees is the one that there is.

**Proof sketch.** By cases on where the thread is: only the step that takes the lock records a list,
and it is the one of the state. -/
lemma locked_threadStep {s : Dispatcher} {pc pc' : DispatchPc} {l : DispatchThreadLabel} {readers : ℕ}
    {seen : List Seen} (hstep : s.threadStep reCommand pc l = some (pc', readers, seen)) {k : ℕ}
    {call : HandlerCall} {list : List EventHandler} (hk : seen[k]? = some (.locked call list)) :
    k = 0 ∧ list = s.handlers := by
  have hafter (e : BotEvent) (call' : HandlerCall) (ret : ℤ) :
      (afterCall e call' ret).2[k]? ≠ some (.locked call list) := by
    cases call' with
    | command fxn =>
      rw [afterCall]
      split_ifs <;> cases k <;> simp
    | _ => simp [afterCall]
  rw [Dispatcher.threadStep.eq_def] at hstep
  split at hstep
  · obtain ⟨-, -, rfl⟩ : _ ∧ _ ∧ _ := by simpa using hstep
    cases k <;> simp at hk
  · obtain ⟨-, -, rfl⟩ : _ ∧ _ ∧ _ := by simpa using hstep
    cases k with
    | zero =>
      obtain ⟨-, rfl⟩ := Seen.locked.inj (Option.some.inj hk)
      exact ⟨rfl, rfl⟩
    | succ k => simp at hk
  · split at hstep
    · obtain ⟨-, -, rfl⟩ : _ ∧ _ ∧ _ := by simpa using hstep
      simp at hk
    · split_ifs at hstep <;> obtain ⟨-, -, rfl⟩ : _ ∧ _ ∧ _ := by simpa using hstep
      · simp at hk
      · cases k <;> simp at hk
  · obtain ⟨-, -, rfl⟩ : _ ∧ _ ∧ _ := by simpa using hstep
    cases k <;> simp at hk
  · obtain ⟨-, -, rfl⟩ : _ ∧ _ ∧ _ := by simpa using hstep
    exact absurd hk (hafter _ _ _)
  · split at hstep <;> obtain ⟨-, -, rfl⟩ : _ ∧ _ ∧ _ := by simpa using hstep
    all_goals simp at hk
  · obtain ⟨-, -, rfl⟩ : _ ∧ _ ∧ _ := by simpa using hstep
    simp at hk
  · obtain ⟨-, -, rfl⟩ : _ ∧ _ ∧ _ := by simpa using hstep
    split_ifs at hk <;> cases k <;> simp at hk
  · cases hstep

/-! ## The history -/

/-- What threads do changes no list. -/
lemma live_append_thread (log : List DispatchEntry) (i : ℕ) (seen : List Seen) :
    live (log ++ seen.map (.thread i)) = live log := by
  rw [live, List.foldl_append, ← live]
  induction seen with
  | nil => rfl
  | cons o seen ih => exact ih

/-- A handler is registered. -/
lemma live_registered (log : List DispatchEntry) (eh : EventHandler) :
    live (log ++ [.registered eh]) = eh :: live log := by
  rw [live, List.foldl_append, ← live]
  rfl

/-- A handler is unregistered. -/
lemma live_unregistered (log : List DispatchEntry) (handler : ℕ) :
    live (log ++ [.unregistered handler]) =
      (live log).filter fun eh => eh.handler ≠ handler := by
  rw [live, List.foldl_append, ← live]
  rfl

/-- What one thread has done. -/
lemma own_append_self (i : ℕ) (log : List DispatchEntry) (seen : List Seen) :
    own i (log ++ seen.map (.thread i)) = own i log ++ seen := by
  rw [own, List.filterMap_append, ← own, List.filterMap_map]
  have hself : DispatchEntry.own i ∘ DispatchEntry.thread i = some := funext fun o => if_pos rfl
  rw [hself, List.filterMap_some]

/-- What another thread has done. -/
lemma own_append_of_ne {i j : ℕ} (h : j ≠ i) (log : List DispatchEntry) (seen : List Seen) :
    own i (log ++ seen.map (.thread j)) = own i log := by
  rw [own, List.filterMap_append, ← own, List.filterMap_map]
  have hnone : seen.filterMap (DispatchEntry.own i ∘ DispatchEntry.thread j) = [] :=
    List.filterMap_eq_nil_iff.mpr fun o _ => if_neg h
  rw [hnone, List.append_nil]

/-! ## Runs -/

/-- **The invariant.** The readers are the threads between lock and unlock; the list is sorted, and
holds the handlers that are registered by now, as it did whenever a thread had locked it; and each
thread has dispatched some events and is at its place with the next one. -/
structure Dispatcher.Holds (s : Dispatcher) : Prop where
  readers : s.readers = s.threads.countP DispatchPc.reads
  list : Prioritized s.handlers
  live : ∀ eh, eh ∈ s.handlers ↔ eh ∈ live s.log
  threads : ∀ i pc, s.threads[i]? = some pc → ∃ ds os, own i s.log = List.flatten ds ++ os ∧
    (∀ d ∈ ds, Dispatched d) ∧ Partial s.handlers os pc
  locked : ∀ (k i : ℕ) (call : HandlerCall) (list : List EventHandler),
    s.log[k]? = some (.thread i (.locked call list)) →
    ∀ eh, eh ∈ list ↔ eh ∈ Meowbot.live (s.log.take k)

/-- A list with one more handler. -/
lemma Prioritized.register {list sorted : List EventHandler} {eh : EventHandler}
    (h : Prioritized list) (hnew : ∀ eh' ∈ list, eh'.handler ≠ eh.handler)
    (hsort : SortResult (list ++ [eh]) sorted) : Prioritized sorted := by
  refine ⟨hsort.2, (hsort.1.map _).nodup_iff.mpr ?_⟩
  rw [List.map_append, List.nodup_append]
  refine ⟨h.nodup, by simp, ?_⟩
  intro a ha b hb hab
  obtain ⟨eh', heh', rfl⟩ := List.mem_map.mp ha
  rw [List.map_singleton, List.mem_singleton] at hb
  exact hnew eh' heh' (hab.trans hb)

/-- A list with one handler less. -/
lemma Prioritized.unregister {list sorted : List EventHandler} {handler : ℕ} (h : Prioritized list)
    (hsort : SortResult (list.eraseP fun eh => eh.handler == handler) sorted) :
    Prioritized sorted :=
  ⟨hsort.2, (hsort.1.map _).nodup_iff.mpr (h.nodup.sublist (List.eraseP_sublist.map _))⟩

/-- The handlers that are left are those with another address.

**Proof sketch.** By induction on the list. Addresses are distinct, so where the first entry has the
address none of the others has it. -/
lemma mem_eraseP_handler {list : List EventHandler} (h : (list.map (·.handler)).Nodup)
    (handler : ℕ) (eh : EventHandler) :
    eh ∈ list.eraseP (fun eh => eh.handler == handler) ↔ eh ∈ list ∧ eh.handler ≠ handler := by
  induction list with
  | nil => simp
  | cons eh' list ih =>
    rw [List.map_cons, List.nodup_cons] at h
    by_cases heh' : eh'.handler = handler
    · rw [List.eraseP_cons_of_pos (by simpa using heh'), List.mem_cons]
      constructor
      · intro hmem
        refine ⟨.inr hmem, ?_⟩
        rintro hhandler
        exact h.1 (List.mem_map.mpr ⟨eh, hmem, hhandler.trans heh'.symm⟩)
      · rintro ⟨rfl | hmem, hne⟩
        · exact absurd heh' hne
        · exact hmem
    · rw [List.eraseP_cons_of_neg (by simpa using heh'), List.mem_cons, List.mem_cons, ih h.2]
      constructor
      · rintro (rfl | ⟨hmem, hne⟩)
        · exact ⟨.inl rfl, heh'⟩
        · exact ⟨.inr hmem, hne⟩
      · rintro ⟨rfl | hmem, hne⟩
        · exact .inl rfl
        · exact .inr ⟨hmem, hne⟩

/-- Nothing has happened yet. -/
lemma Dispatcher.holds_start (n : ℕ) : (Dispatcher.start n).Holds where
  readers := by
    rw [start, List.countP_eq_zero.mpr]
    intro pc hpc
    rw [List.eq_of_mem_replicate hpc]
    decide
  list := ⟨.nil, .nil⟩
  live := fun eh => Iff.rfl
  threads := fun i pc hpc => by
    obtain rfl := List.eq_of_mem_replicate (List.mem_of_getElem? hpc)
    exact ⟨[], [], rfl, by simp, rfl⟩
  locked := fun k i call list hk => by cases hk

/-- **A step of a thread.**

**Proof sketch.** Field by field. The thread goes on with its event, or has dispatched it
(`partial_threadStep`); the readers are counted by `readers_threadStep`, and the other threads have
done nothing. -/
lemma Dispatcher.Holds.thread {s : Dispatcher} {i readers : ℕ} {pc pc' : DispatchPc}
    {l : DispatchThreadLabel} {seen : List Seen} (h : s.Holds) (hi : s.threads[i]? = some pc)
    (hstep : s.threadStep reCommand pc l = some (pc', readers, seen)) :
    Holds { s with readers, threads := s.threads.set i pc'
                   log := s.log ++ seen.map (.thread i) } where
  readers := by
    obtain ⟨hlt, hget⟩ := List.getElem?_eq_some_iff.mp hi
    have hreads : pc.reads = true → 0 < s.readers := by
      intro hpc
      rw [h.readers, List.countP_pos_iff]
      exact ⟨pc, List.mem_of_getElem? hi, hpc⟩
    have hcount := readers_threadStep hstep hreads
    have hset := @List.countP_set _ DispatchPc.reads s.threads i pc' hlt
    rw [hget] at hset
    rw [h.readers] at hcount hreads
    show readers = (s.threads.set i pc').countP DispatchPc.reads
    rw [hset]
    cases hpc : pc.reads <;> cases hpc' : pc'.reads <;> simp only [hpc, hpc', Bool.toNat_true,
      Bool.toNat_false, forall_const] at hcount hreads <;> simp <;> omega
  list := h.list
  live := fun eh => by rw [live_append_thread]; exact h.live eh
  threads := fun j pc₂ hj => by
    by_cases hji : j = i
    · subst hji
      obtain ⟨hlt, -⟩ := List.getElem?_eq_some_iff.mp hi
      rw [List.getElem?_set_self hlt] at hj
      obtain rfl := Option.some.inj hj
      obtain ⟨ds, os, hown, hds, hpartial⟩ := h.threads j pc hi
      rw [own_append_self, hown, List.append_assoc]
      obtain hpartial | ⟨rfl, hdone⟩ := partial_threadStep hstep h.list hpartial
      · exact ⟨ds, _, rfl, hds, hpartial⟩
      · refine ⟨ds ++ [os ++ seen], [], by simp, ?_, rfl⟩
        intro d hd
        obtain hd | hd := List.mem_append.mp hd
        · exact hds d hd
        · rw [List.mem_singleton.mp hd]
          exact hdone
    · rw [List.getElem?_set_ne (Ne.symm hji)] at hj
      rw [own_append_of_ne (Ne.symm hji)]
      exact h.threads j pc₂ hj
  locked := fun k j call list hk => by
    by_cases hlt : k < s.log.length
    · rw [List.getElem?_append_left hlt] at hk
      rw [List.take_append_of_le_length hlt.le]
      exact h.locked k j call list hk
    · rw [List.getElem?_append_right (by omega), List.getElem?_map] at hk
      obtain ⟨o, ho, hentry⟩ := Option.map_eq_some_iff.mp hk
      obtain ⟨-, rfl⟩ := DispatchEntry.thread.inj hentry
      obtain ⟨hzero, rfl⟩ := locked_threadStep hstep ho
      rw [List.take_append_of_le_length (by omega), List.take_of_length_le (by omega)]
      exact h.live

/-- **A change of the list**, when nobody reads.

**Proof sketch.** Nobody is in the loop over the handlers, so no thread relies on the list; what the
threads have done is the same. -/
lemma Dispatcher.Holds.change {s : Dispatcher} {sorted : List EventHandler} {entry : DispatchEntry}
    (h : s.Holds) (hreaders : s.readers = 0) (hlist : Prioritized sorted)
    (hentry : ∀ i o, entry ≠ .thread i o)
    (hlive : ∀ eh, eh ∈ sorted ↔ eh ∈ Meowbot.live (s.log ++ [entry])) :
    Holds { s with handlers := sorted, log := s.log ++ [entry] } where
  readers := h.readers
  list := hlist
  live := hlive
  threads := fun i pc hi => by
    have hown : own i (s.log ++ [entry]) = own i s.log := by
      rw [own, List.filterMap_append, ← own]
      cases entry with
      | thread j o => exact absurd rfl (hentry j o)
      | _ => exact List.append_nil _
    have hpc : pc.reads = false := by
      rw [h.readers, List.countP_eq_zero] at hreaders
      exact Bool.eq_false_iff.mpr (hreaders pc (List.mem_of_getElem? hi))
    obtain ⟨ds, os, hos, hds, hpartial⟩ := h.threads i pc hi
    exact ⟨ds, os, hown.trans hos, hds, hpartial.of_not_reads hpc⟩
  locked := fun k i call list hk => by
    by_cases hlt : k < s.log.length
    · rw [List.getElem?_append_left hlt] at hk
      rw [List.take_append_of_le_length hlt.le]
      exact h.locked k i call list hk
    · rw [List.getElem?_append_right (by omega)] at hk
      have hmem := List.mem_of_getElem? hk
      exact absurd (List.mem_singleton.mp hmem).symm (hentry i _)

/-- **Every step** keeps the invariant.

**Proof sketch.** By cases on the step. A registered handler is new and the list is sorted again;
unregistering takes out the one with the address, and what is refused changes nothing. -/
lemma Dispatcher.Holds.step {s s' : Dispatcher} {l : DispatchLabel} (h : s.Holds)
    (hstep : s.step reCommand l = some s') : s'.Holds := by
  cases l with
  | thread i l =>
    obtain ⟨pc, hi, hstep⟩ := Option.bind_eq_some_iff.mp hstep
    obtain ⟨⟨pc', readers, seen⟩, hthread, hs'⟩ := Option.bind_eq_some_iff.mp hstep
    obtain rfl := Option.some.inj hs'
    exact h.thread hi hthread
  | registerEventHandler eh sorted =>
    rw [Dispatcher.step] at hstep
    split_ifs at hstep with hreaders hfound hsort
    · obtain rfl := Option.some.inj hstep
      exact h
    · obtain rfl := Option.some.inj hstep
      have hnew : ∀ eh' ∈ s.handlers, eh'.handler ≠ eh.handler := by simpa using hfound
      apply h.change (not_not.mp hreaders) (h.list.register hnew hsort) fun _ _ hentry => by cases hentry
      intro eh'
      rw [hsort.1.mem_iff, live_registered, List.mem_append, List.mem_singleton, List.mem_cons,
        h.live eh', or_comm]
  | unregisterEventHandler handler sorted =>
    rw [Dispatcher.step] at hstep
    split_ifs at hstep with hreaders hfound hsort
    · obtain rfl := Option.some.inj hstep
      apply h.change (not_not.mp hreaders) (h.list.unregister hsort) fun _ _ hentry => by cases hentry
      intro eh'
      rw [hsort.1.mem_iff, mem_eraseP_handler h.list.nodup, live_unregistered, List.mem_filter,
        decide_eq_true_eq, h.live eh']
    · obtain rfl := Option.some.inj hstep
      exact h
  | registerCmd name fxn =>
    obtain rfl := Option.some.inj hstep
    exact ⟨h.readers, h.list, h.live, h.threads, h.locked⟩
  | unregisterCmd name =>
    obtain rfl := Option.some.inj hstep
    exact ⟨h.readers, h.list, h.live, h.threads, h.locked⟩

/-- The invariant holds in every run. -/
lemma Dispatcher.holds_run {n : ℕ} {ls : List DispatchLabel} {s : Dispatcher}
    (h : Run (Fun (Dispatcher.step reCommand)) (.start n) ls s) : s.Holds :=
  h.preserves (fun _ _ _ hs hstep => hs.step hstep) (Dispatcher.holds_start n)

/-! ## Results -/

/-- **No handler is entered or left running that is not registered**: whatever the threads do and
however handlers come and go, a thread is in a handler only while the handler is registered. So when
`unregister_event_handler` has returned, no thread is in the handler. -/
theorem Dispatcher.inside_live {n : ℕ} {ls : List DispatchLabel} {s : Dispatcher}
    (h : Run (Fun (Dispatcher.step reCommand)) (.start n) ls s) {i it : ℕ} {e : BotEvent}
    {call : HandlerCall} {eh : EventHandler} (hi : s.threads[i]? = some (.inside e call it eh)) :
    eh ∈ live s.log := by
  have hs := Dispatcher.holds_run h
  obtain ⟨-, -, -, -, -, -, -, -, -, hit, -⟩ := hs.threads i _ hi
  rw [← hs.live eh]
  exact List.mem_of_getElem? hit

/-- Two handlers are registered. One thread has a JOIN finished by the first one, which is then
unregistered; another thread is in the second one with the next JOIN, while the first thread walks
over the list for the end of its event. -/
def twoJoins : List DispatchLabel :=
  [.registerEventHandler ⟨7, 0, 0⟩ [⟨7, 0, 0⟩],
    .registerEventHandler ⟨8, 5, 0⟩ [⟨8, 5, 0⟩, ⟨7, 0, 0⟩],
    .thread 0 (.take ⟨1, .join, .none, []⟩), .thread 0 .go, .thread 0 .go, .thread 0 (.ret 0),
    .thread 0 .go, .unregisterEventHandler 8 [⟨7, 0, 0⟩], .thread 1 (.take ⟨2, .join, .none, []⟩),
    .thread 1 .go, .thread 0 .go, .thread 1 .go]

/-- The handler that a thread is in has stayed when the other one went. -/
theorem Dispatcher.inside_live_join :
    ∃ s, Run (Fun (Dispatcher.step fun _ => none)) (.start 2) twoJoins s ∧
      s.threads[1]? = some (.inside ⟨2, .join, .none, []⟩ .event 0 ⟨7, 0, 0⟩) ∧
      (⟨7, 0, 0⟩ : EventHandler) ∈ live s.log := by
  obtain ⟨s, hrun, hi⟩ := @Run.exists_of_foldlM _ _ (Dispatcher.step fun _ => none)
    (fun s => s.threads[1]? = some (.inside ⟨2, .join, .none, []⟩ .event 0 ⟨7, 0, 0⟩)) (.start 2)
    twoJoins (by decide)
  exact ⟨s, hrun, hi, Dispatcher.inside_live hrun hi⟩

/-- **Every event goes through `event_cb_real`** as if its thread were alone: a thread that is idle
has done nothing but whole runs of it, and every list that it has walked over is the list of the
handlers that were registered when it took the lock. -/
theorem Dispatcher.run_dispatched {n : ℕ} {ls : List DispatchLabel} {s : Dispatcher}
    (h : Run (Fun (Dispatcher.step reCommand)) (.start n) ls s) :
    (∀ i, s.threads[i]? = some .idle → ∃ ds, own i s.log = List.flatten ds ∧
      ∀ d ∈ ds, Dispatched d) ∧
    ∀ (k i : ℕ) (call : HandlerCall) (list : List EventHandler),
      s.log[k]? = some (.thread i (.locked call list)) →
      ∀ eh, eh ∈ list ↔ eh ∈ live (s.log.take k) := by
  have hs := Dispatcher.holds_run h
  refine ⟨fun i hi => ?_, hs.locked⟩
  obtain ⟨ds, os, hown, hds, rfl⟩ := hs.threads i _ hi
  rw [List.append_nil] at hown
  exact ⟨ds, hown, hds⟩

/-- Both threads come to the end of their events. -/
theorem Dispatcher.run_dispatched_join :
    ∃ s, Run (Fun (Dispatcher.step fun _ => none)) (.start 2)
      (twoJoins ++ [.thread 0 .go, .thread 0 (.ret 1), .thread 1 (.ret 1), .thread 0 .go,
        .thread 0 .go, .thread 0 .go, .thread 1 .go, .thread 1 .go, .thread 1 .go, .thread 1 .go,
        .thread 1 .go, .thread 1 (.ret 0), .thread 1 .go, .thread 1 .go]) s ∧
      s.threads = [.idle, .idle] ∧
      (∃ ds, own 0 s.log = List.flatten ds ∧ ∀ d ∈ ds, Dispatched d) ∧
      ∃ ds, own 1 s.log = List.flatten ds ∧ ∀ d ∈ ds, Dispatched d := by
  obtain ⟨s, hrun, hi⟩ := @Run.exists_of_foldlM _ _ (Dispatcher.step fun _ => none)
    (fun s => s.threads = [.idle, .idle]) (.start 2)
    (twoJoins ++ [.thread 0 .go, .thread 0 (.ret 1), .thread 1 (.ret 1), .thread 0 .go,
      .thread 0 .go, .thread 0 .go, .thread 1 .go, .thread 1 .go, .thread 1 .go, .thread 1 .go,
      .thread 1 .go, .thread 1 (.ret 0), .thread 1 .go, .thread 1 .go]) (by decide)
  obtain ⟨hidle, -⟩ := Dispatcher.run_dispatched hrun
  exact ⟨s, hrun, hi, hidle 0 (by rw [hi]; rfl), hidle 1 (by rw [hi]; rfl)⟩

end Meowbot
