import Meowbot.LuaTimers
import Mathlib.Logic.Function.Basic

set_option relaxedAutoImplicit false
set_option autoImplicit false

/-!
# Event handlers of Lua modules (`modules/mod_lua.cpp`)

An event has a list of handlers, and a Lua module may have one handler for an event. The entry of a
handler knows the main thread of the module. When a handler is registered, the entries are compared
with the thread that makes the call, which is the main thread only at the top level of a script: the
callbacks of a module run in coroutines, `init` among them. So a module that registers a second
handler in a callback gets a second entry, of which `unregister_event_handler` removes the first.

## Main definitions

* `Meowbot.LuaThread` — a Lua thread; `Meowbot.LuaEvents` — the modules and `g_eventhdlmap`.
* `Meowbot.LuaEvents.registerEventHandler`, `Meowbot.LuaEvents.unregisterEventHandler` — the calls.
* `Meowbot.LuaEvents.Handles` — what a step should do with the entries of a module.

## Main results

* `Meowbot.LuaEvents.Sound.step_iff` — which steps do it.
* `Meowbot.LuaEvents.handlers_unique` — a module has at most one entry for an event as long as a
  module that has one does not register another from a coroutine.
-/

namespace Meowbot

open Runs

/-! ## Events -/

/-- The members of `IRCEVENT` and `BOTEVENT` that have a name in Lua. -/
inductive EventId where
  | privmsg | join | part | kick | nick | quit | mode | invite | srvincoming | idle | connected
  | loggedin | disconnected | command | evhandlerDone | privmsgSend
  deriving DecidableEq

/-- The names in `evname2id`, in order. -/
def evnames : List (Bytes × EventId) :=
  [(bytes "privmsg", .privmsg), (bytes "join", .join), (bytes "part", .part),
    (bytes "kick", .kick), (bytes "nick", .nick), (bytes "quit", .quit), (bytes "mode", .mode),
    (bytes "invite", .invite), (bytes "srvincoming", .srvincoming), (bytes "idle", .idle),
    (bytes "connect", .connected), (bytes "login", .loggedin),
    (bytes "disconnect", .disconnected), (bytes "botcommand", .command),
    (bytes "evhandler_done", .evhandlerDone), (bytes "privmsg_send", .privmsgSend)]

/-- `evname2id`. There is no result where the source has -1. -/
def evname2id (evname : Bytes) : Option EventId :=
  (evnames.find? fun e => cstr evname = e.1).map Prod.snd

/-! ## Modules and handlers -/

/-- A `lua_State`, at its address: the main thread of a module or one of its coroutines.
`mainthread` is `l_G->mainthread`. -/
structure LuaThread where
  addr : LuaState
  mainthread : LuaState
  deriving DecidableEq

/-- `luaref`. `fxn` is the function behind the reference. -/
structure Luaref where
  L : LuaState
  fxn : ℕ
  deriving DecidableEq

/-- The main threads of the loaded modules, and `g_eventhdlmap`, in which an event without a list
counts as one with the empty list. -/
structure LuaEvents where
  luamods : List LuaState
  eventhdlmap : EventId → List Luaref

/-- An operation on the event handlers. A handler is registered from a thread, which need not be the
main thread of its state; the entries hold main threads. -/
inductive LuaEventOp where
  /-- A module gets its main thread. -/
  | load (L : LuaState)
  /-- `meowbot.register_event_handler` in a thread. -/
  | registerEventHandler (L : LuaThread) (evname : Bytes) (fxn : ℕ)
  /-- `meowbot.unregister_event_handler` in a thread. -/
  | unregisterEventHandler (L : LuaThread) (evname : Bytes)
  /-- The destructor of the module with a main thread. -/
  | unload (L : LuaState)

namespace LuaEvents

/-- No module. -/
def init : LuaEvents := { luamods := [], eventhdlmap := fun _ => [] }

/-- The list of an event is changed. -/
def setCblist (s : LuaEvents) (evid : EventId) (cblist : List Luaref) : LuaEvents :=
  { s with eventhdlmap := Function.update s.eventhdlmap evid cblist }

/-- `lua_meowbot_register_event_handler`. The search for an entry compares with the thread of the
caller, while the entry that is added has the main thread. -/
def registerEventHandler (s : LuaEvents) (L : LuaThread) (evname : Bytes) (fxn : ℕ) :
    Bool × LuaEvents :=
  match evname2id evname with
  | none => (false, s)
  | some evid =>
    let cblist := s.eventhdlmap evid
    -- the caller, where the entries have main threads
    if cblist.any fun it => it.L = L.addr then (false, s)
    else (true, s.setCblist evid (cblist ++ [{ L := L.mainthread, fxn }]))

/-- `lua_meowbot_unregister_event_handler`. Here the search is for the main thread, and the first
entry with it is erased. -/
def unregisterEventHandler (s : LuaEvents) (L : LuaThread) (evname : Bytes) : Bool × LuaEvents :=
  match evname2id evname with
  | none => (false, s)
  | some evid =>
    let cblist := s.eventhdlmap evid
    if cblist = [] then (false, s)
    else
      let Lm := L.mainthread
      if cblist.any fun it => it.L = Lm then
        (true, s.setCblist evid (cblist.eraseP fun it => it.L = Lm))
      else (false, s)

/-- What the destructor of a module does with the event handlers. -/
def unload (s : LuaEvents) (L : LuaState) : LuaEvents where
  luamods := s.luamods.filter fun m => m ≠ L
  eventhdlmap := fun evid => (s.eventhdlmap evid).filter fun it => it.L ≠ L

/-- The thread is one of a loaded module. Threads that exist have different addresses, so that it is
at the address of a main thread only if it is that main thread. -/
def Live (s : LuaEvents) (L : LuaThread) : Prop :=
  L.mainthread ∈ s.luamods ∧ (L.addr ∈ s.luamods → L.addr = L.mainthread)

instance (s : LuaEvents) (L : LuaThread) : Decidable (s.Live L) :=
  inferInstanceAs (Decidable (_ ∧ _))

/-- A step. -/
def step (s : LuaEvents) : LuaEventOp → Option LuaEvents
  | .load L => if L ∈ s.luamods then none else some { s with luamods := L :: s.luamods }
  | .registerEventHandler L evname fxn =>
    if s.Live L then some (s.registerEventHandler L evname fxn).2 else none
  | .unregisterEventHandler L evname =>
    if s.Live L then some (s.unregisterEventHandler L evname).2 else none
  | .unload L => if L ∈ s.luamods then some (s.unload L) else none

/-! ## What should hold -/

/-- The entries of a module for an event. -/
def entries (s : LuaEvents) (evid : EventId) (m : LuaState) : List Luaref :=
  (s.eventhdlmap evid).filter fun it => it.L = m

/-- **At most one entry** for an event and a module. -/
def Unique (s : LuaEvents) : Prop := ∀ evid m, (s.entries evid m).length ≤ 1

/-- **What a step should do** with the entries of the module that makes a call: a handler that is
registered is the only one afterwards, or it is rejected and the entries are the same; no entry is
left of a handler that is unregistered. -/
def Handles (s : LuaEvents) : LuaEventOp → Prop
  | .registerEventHandler L evname fxn => ∀ evid, evname2id evname = some evid →
    let r := s.registerEventHandler L evname fxn
    r.2.entries evid L.mainthread =
      if r.1 then [{ L := L.mainthread, fxn }] else s.entries evid L.mainthread
  | .unregisterEventHandler L evname => ∀ evid, evname2id evname = some evid →
    (s.unregisterEventHandler L evname).2.entries evid L.mainthread = []
  | _ => True

/-- **The condition**: a module that has an entry for an event does not register another handler for
it from a coroutine. -/
def RegistersOnce (s : LuaEvents) : LuaEventOp → Prop
  | .registerEventHandler L evname _ => ∀ evid, evname2id evname = some evid →
    L.addr = L.mainthread ∨ s.entries evid L.mainthread = []
  | _ => True

/-- The invariant: entries belong to loaded modules, and no module has two for an event. -/
structure Sound (s : LuaEvents) : Prop where
  owned : ∀ evid, ∀ it ∈ s.eventhdlmap evid, it.L ∈ s.luamods
  unique : s.Unique

/-! ## Entries -/

/-- The elements with a property after the first of them has been erased. -/
lemma filter_eraseP {α : Type} (p : α → Bool) (l : List α) :
    (l.eraseP p).filter p = (l.filter p).tail := by
  induction l with
  | nil => rfl
  | cons x xs ih =>
    by_cases hx : p x
    · simp [hx]
    · simp [hx, ih]

/-- Other elements are not erased. -/
lemma filter_eraseP_of_disjoint {α : Type} {p q : α → Bool} (hpq : ∀ x, p x → ¬ q x)
    (l : List α) : (l.eraseP p).filter q = l.filter q := by
  induction l with
  | nil => rfl
  | cons x xs ih =>
    by_cases hx : p x
    · simp [hx, hpq x hx]
    · simp [hx, List.filter_cons, ih]

/-- A module has no entry. -/
lemma entries_eq_nil_iff {s : LuaEvents} {evid : EventId} {m : LuaState} :
    s.entries evid m = [] ↔ ∀ it ∈ s.eventhdlmap evid, it.L ≠ m := by
  simp [entries, List.filter_eq_nil_iff]

/-- The entries after the list of an event has been changed. -/
lemma entries_setCblist (s : LuaEvents) (evid evid' : EventId) (cblist : List Luaref)
    (m : LuaState) : (s.setCblist evid cblist).entries evid' m =
      if evid' = evid then cblist.filter fun it => it.L = m else s.entries evid' m := by
  by_cases h : evid' = evid
  · subst h
    simp [entries, setCblist]
  · simp [entries, setCblist, h]

/-- The entries after a module has been unloaded. -/
lemma entries_unload (s : LuaEvents) (L : LuaState) (evid : EventId) (m : LuaState) :
    (s.unload L).entries evid m = if m = L then [] else s.entries evid m := by
  rw [entries, unload, List.filter_filter]
  split_ifs with h
  · subst h
    simp
  · refine List.filter_congr fun it _ => ?_
    by_cases hit : it.L = m
    · simp [hit, h]
    · simp [hit]

/-! ## Calls -/

/-- **A registration**: the name is unknown, or there is an entry at the address of the caller, or
there is one more entry. -/
lemma registerEventHandler_cases (s : LuaEvents) (L : LuaThread) (evname : Bytes) (fxn : ℕ) :
    evname2id evname = none ∧ s.registerEventHandler L evname fxn = (false, s) ∨
      ∃ evid, evname2id evname = some evid ∧
        (s.entries evid L.addr ≠ [] ∧ s.registerEventHandler L evname fxn = (false, s) ∨
          s.entries evid L.addr = [] ∧ s.registerEventHandler L evname fxn =
            (true, s.setCblist evid (s.eventhdlmap evid ++ [{ L := L.mainthread, fxn }]))) := by
  rw [registerEventHandler]
  cases evname2id evname with
  | none => exact .inl ⟨rfl, rfl⟩
  | some evid =>
    refine .inr ⟨evid, rfl, ?_⟩
    have hany : (s.eventhdlmap evid).any (fun it => it.L = L.addr) ↔
        s.entries evid L.addr ≠ [] := by
      simp [entries_eq_nil_iff]
    by_cases h : s.entries evid L.addr = []
    · exact .inr ⟨h, if_neg (mt hany.mp (not_not.mpr h))⟩
    · exact .inl ⟨h, if_pos (hany.mpr h)⟩

/-- **An unregistration**: the name is unknown, or there is nothing to remove, or the first entry is
removed.

**Proof sketch.** The entries of a module are those of the list with its main thread; the loop finds
the first of these if there is one. -/
lemma unregisterEventHandler_cases (s : LuaEvents) (L : LuaThread) (evname : Bytes) :
    evname2id evname = none ∧ s.unregisterEventHandler L evname = (false, s) ∨
      ∃ evid, evname2id evname = some evid ∧
        (s.entries evid L.mainthread = [] ∧ s.unregisterEventHandler L evname = (false, s) ∨
          s.unregisterEventHandler L evname =
            (true, s.setCblist evid
              ((s.eventhdlmap evid).eraseP fun it => it.L = L.mainthread))) := by
  rw [unregisterEventHandler]
  cases evname2id evname with
  | none => exact .inl ⟨rfl, rfl⟩
  | some evid =>
    refine .inr ⟨evid, rfl, ?_⟩
    have hany : (s.eventhdlmap evid).any (fun it => it.L = L.mainthread) ↔
        s.entries evid L.mainthread ≠ [] := by
      simp [entries_eq_nil_iff]
    by_cases hempty : s.eventhdlmap evid = []
    · exact .inl ⟨by rw [entries, hempty, List.filter_nil], if_pos hempty⟩
    · dsimp only
      rw [if_neg hempty]
      by_cases h : s.entries evid L.mainthread = []
      · exact .inl ⟨h, if_neg (mt hany.mp (not_not.mpr h))⟩
      · exact .inr (if_pos (hany.mpr h))

/-- The entries after one more has been added. -/
lemma entries_push (s : LuaEvents) (evid evid' : EventId) (it : Luaref) (m : LuaState) :
    (s.setCblist evid (s.eventhdlmap evid ++ [it])).entries evid' m =
      s.entries evid' m ++ if evid' = evid ∧ it.L = m then [it] else [] := by
  rw [entries_setCblist]
  by_cases hevid : evid' = evid
  · subst hevid
    by_cases hm : it.L = m
    · simp [entries, List.filter_append, hm]
    · simp [entries, List.filter_append, hm]
  · simp [hevid]

/-- The entries after the first one of a module has been removed. -/
lemma entries_erase (s : LuaEvents) (evid evid' : EventId) (m m' : LuaState) :
    (s.setCblist evid ((s.eventhdlmap evid).eraseP fun it => it.L = m)).entries evid' m' =
      if evid' = evid ∧ m' = m then (s.entries evid m).tail else s.entries evid' m' := by
  rw [entries_setCblist]
  by_cases hevid : evid' = evid
  · subst hevid
    by_cases hm : m' = m
    · subst hm
      rw [if_pos rfl, if_pos ⟨rfl, rfl⟩]
      exact filter_eraseP _ _
    · rw [if_pos rfl, if_neg fun h => hm h.2]
      refine filter_eraseP_of_disjoint (fun it hit hit' => hm ?_) _
      exact (of_decide_eq_true hit').symm.trans (of_decide_eq_true hit)
  · simp [hevid]

/-! ## Steps -/

/-- The entries belong to loaded modules after the list of an event has been changed to one whose
entries do. -/
lemma owned_setCblist {s : LuaEvents} (h : ∀ evid, ∀ it ∈ s.eventhdlmap evid, it.L ∈ s.luamods)
    {evid : EventId} {cblist : List Luaref} (hlist : ∀ it ∈ cblist, it.L ∈ s.luamods) :
    ∀ evid', ∀ it ∈ (s.setCblist evid cblist).eventhdlmap evid', it.L ∈ s.luamods := by
  intro evid' it hit
  simp only [setCblist, Function.update_apply] at hit
  split_ifs at hit
  · exact hlist it hit
  · exact h evid' it hit

/-- Every entry belongs to a loaded module after a step.

**Proof sketch.** By cases on the step. A registration adds an entry of a module that is loaded, all
other steps remove entries; the unloading of a module removes all of its entries with it. -/
lemma Sound.owned_step {s s' : LuaEvents} (h : s.Sound) {op : LuaEventOp}
    (hstep : s.step op = some s') : ∀ evid, ∀ it ∈ s'.eventhdlmap evid, it.L ∈ s'.luamods := by
  cases op with
  | load L =>
    simp only [step, Option.ite_none_left_eq_some, Option.some.injEq] at hstep
    obtain ⟨-, rfl⟩ := hstep
    exact fun evid it hit => List.mem_cons_of_mem _ (h.owned evid it hit)
  | registerEventHandler L evname fxn =>
    simp only [step, Option.ite_none_right_eq_some, Option.some.injEq] at hstep
    obtain ⟨hlive, rfl⟩ := hstep
    rcases s.registerEventHandler_cases L evname fxn with
      ⟨-, hr⟩ | ⟨evid, -, ⟨-, hr⟩ | ⟨-, hr⟩⟩
    · rw [hr]
      exact h.owned
    · rw [hr]
      exact h.owned
    · rw [hr]
      refine owned_setCblist h.owned fun it hit => ?_
      rcases List.mem_append.mp hit with hold | hnew
      · exact h.owned evid it hold
      · rw [List.mem_singleton.mp hnew]
        exact hlive.1
  | unregisterEventHandler L evname =>
    simp only [step, Option.ite_none_right_eq_some, Option.some.injEq] at hstep
    obtain ⟨-, rfl⟩ := hstep
    rcases s.unregisterEventHandler_cases L evname with ⟨-, hr⟩ | ⟨evid, -, ⟨-, hr⟩ | hr⟩
    · rw [hr]
      exact h.owned
    · rw [hr]
      exact h.owned
    · rw [hr]
      exact owned_setCblist h.owned fun it hit => h.owned evid it (List.mem_of_mem_eraseP hit)
  | unload L =>
    simp only [step, Option.ite_none_right_eq_some, Option.some.injEq] at hstep
    obtain ⟨-, rfl⟩ := hstep
    intro evid it hit
    obtain ⟨hit, hne⟩ := List.mem_filter.mp hit
    exact List.mem_filter.mpr ⟨h.owned evid it hit, hne⟩

/-- A thread at the address of an entry is a main thread. -/
lemma Sound.addr_eq_mainthread {s : LuaEvents} (h : s.Sound) {L : LuaThread} (hlive : s.Live L)
    {evid : EventId} (hne : s.entries evid L.addr ≠ []) : L.addr = L.mainthread := by
  obtain ⟨it, hit⟩ := List.exists_mem_of_ne_nil _ hne
  obtain ⟨hit, haddr⟩ := List.mem_filter.mp hit
  exact hlive.2 (of_decide_eq_true haddr ▸ h.owned evid it hit)

/-- **A registration** does what it should exactly under the condition.

**Proof sketch.** By the cases of a registration: the name is unknown, or there is an entry already
that is replaced, or a new one is added. Only in the last case, and only from a coroutine of a
module that has an entry, are there two afterwards. -/
lemma Sound.registerEventHandler_iff {s : LuaEvents} (h : s.Sound) {L : LuaThread}
    (hlive : s.Live L) (evname : Bytes) (fxn : ℕ) :
    s.RegistersOnce (.registerEventHandler L evname fxn) ↔
      s.Handles (.registerEventHandler L evname fxn) ∧
        (s.registerEventHandler L evname fxn).2.Unique := by
  rw [RegistersOnce, Handles]
  rcases s.registerEventHandler_cases L evname fxn with
    ⟨hevid, hr⟩ | ⟨evid, hevid, ⟨hentry, hr⟩ | ⟨hentry, hr⟩⟩
  · simp [hevid, hr, h.unique]
  · simp [hevid, hr, h.unique, h.addr_eq_mainthread hlive hentry]
  · simp only [hevid, hr, Option.some.injEq, forall_eq', if_true, entries_push, and_self]
    constructor
    · intro hcond
      have hfree : s.entries evid L.mainthread = [] := by
        rcases hcond with haddr | hfree
        · rw [← haddr]
          exact hentry
        · exact hfree
      refine ⟨by rw [hfree, List.nil_append], fun evid' m => ?_⟩
      rw [entries_push]
      split_ifs with hnew
      · obtain ⟨rfl, rfl⟩ := hnew
        rw [hfree]
        exact le_rfl
      · rw [List.append_nil]
        exact h.unique evid' m
    · rintro ⟨hnew, -⟩
      exact .inr (List.append_left_eq_self.mp hnew)

/-- **An unregistration** does what it should: there was at most one entry.

**Proof sketch.** By cases on what is found. If the state has an entry for the event it is erased,
and as there was at most one none is left. -/
lemma Sound.unregisterEventHandler {s : LuaEvents} (h : s.Sound) (L : LuaThread)
    (evname : Bytes) :
    s.Handles (.unregisterEventHandler L evname) ∧
      (s.unregisterEventHandler L evname).2.Unique := by
  rw [Handles]
  rcases s.unregisterEventHandler_cases L evname with
    ⟨hevid, hr⟩ | ⟨evid, hevid, ⟨hentry, hr⟩ | hr⟩
  · simp [hevid, hr, h.unique]
  · simp [hevid, hr, h.unique, hentry]
  · simp only [hevid, hr, Option.some.injEq, forall_eq']
    have htail : (s.entries evid L.mainthread).tail = [] := by
      have := h.unique evid L.mainthread
      rw [← List.length_eq_zero_iff, List.length_tail]
      omega
    refine ⟨by rw [entries_erase, if_pos ⟨rfl, rfl⟩, htail], fun evid' m => ?_⟩
    rw [entries_erase, htail]
    split_ifs
    · exact Nat.zero_le 1
    · exact h.unique evid' m

/-- **A step** does what it should, and leaves at most one entry for an event and a module, exactly
under the condition.

**Proof sketch.** By cases on the step. Only a registration can make a second entry
(`Sound.registerEventHandler_iff`); all other steps do what they should and add none. -/
lemma Sound.step_iff {s s' : LuaEvents} (h : s.Sound) {op : LuaEventOp}
    (hstep : s.step op = some s') : s.RegistersOnce op ↔ s.Handles op ∧ s'.Unique := by
  cases op with
  | load L =>
    simp only [step, Option.ite_none_left_eq_some, Option.some.injEq] at hstep
    obtain ⟨-, rfl⟩ := hstep
    exact iff_of_true trivial ⟨trivial, h.unique⟩
  | registerEventHandler L evname fxn =>
    simp only [step, Option.ite_none_right_eq_some, Option.some.injEq] at hstep
    obtain ⟨hlive, rfl⟩ := hstep
    exact h.registerEventHandler_iff hlive evname fxn
  | unregisterEventHandler L evname =>
    simp only [step, Option.ite_none_right_eq_some, Option.some.injEq] at hstep
    obtain ⟨-, rfl⟩ := hstep
    exact iff_of_true trivial (h.unregisterEventHandler L evname)
  | unload L =>
    simp only [step, Option.ite_none_right_eq_some, Option.some.injEq] at hstep
    obtain ⟨-, rfl⟩ := hstep
    refine iff_of_true trivial ⟨trivial, fun evid m => ?_⟩
    rw [entries_unload]
    split_ifs
    · exact Nat.zero_le 1
    · exact h.unique evid m

/-- **A module has at most one entry for an event** after any steps of which none registers another
handler from a coroutine of a module that has one; and whichever step comes next does what it
should, and keeps this, exactly if it is not one of these either. -/
theorem handlers_unique {ops : List LuaEventOp} {s : LuaEvents}
    (hrun : Run (Under (Fun step) RegistersOnce) init ops s) :
    s.Unique ∧ ∀ op s', s.step op = some s' →
      (s.RegistersOnce op ↔ s.Handles op ∧ s'.Unique) := by
  have hinit : init.Sound := ⟨fun _ _ hit => absurd hit List.not_mem_nil, fun _ _ => Nat.zero_le 1⟩
  have h : s.Sound := hrun.preserves (fun s op t hs hstep =>
    ⟨hs.owned_step hstep.1, ((hs.step_iff hstep.1).mp hstep.2).2⟩) hinit
  exact ⟨h.unique, fun op s' => h.step_iff⟩

/-- The main thread of a module registers a handler twice, a coroutine of another module registers
one in between, and a coroutine of the first module unregisters its handler. -/
theorem handlers_unique_unregister :
    ∃ ops s, Run (Under (Fun step) RegistersOnce) init ops s ∧
      s.eventhdlmap .join = [⟨20, 5⟩] ∧ s.Unique ∧ ∀ op s', s.step op = some s' →
        (s.RegistersOnce op ↔ s.Handles op ∧ s'.Unique) := by
  have hrun : ∃ s, Run (Under (Fun step) RegistersOnce) init
      [.load 10, .load 20, .registerEventHandler ⟨10, 10⟩ (bytes "join") 1,
        .registerEventHandler ⟨21, 20⟩ (bytes "join") 5,
        .registerEventHandler ⟨10, 10⟩ (bytes "join") 2,
        .unregisterEventHandler ⟨11, 10⟩ (bytes "join")] s ∧ s.eventhdlmap .join = [⟨20, 5⟩] :=
    ⟨_, .cons ⟨rfl, trivial⟩ (.cons ⟨rfl, trivial⟩ (.cons ⟨rfl, fun _ _ => .inl rfl⟩ (.cons
      ⟨rfl, fun evid _ => .inr (by cases evid <;> rfl)⟩ (.cons ⟨rfl, fun _ _ => .inl rfl⟩ (.cons
      ⟨rfl, trivial⟩ (.nil _)))))), by decide⟩
  obtain ⟨s, hrun, hlist⟩ := hrun
  exact ⟨_, s, hrun, hlist, handlers_unique hrun⟩

/-- **Two entries**: a coroutine of a module registers a handler twice, and one of the entries is
left when the handler is unregistered. -/
theorem not_handlers_unique :
    ∃ s, Run (Fun step) init
      [.load 10, .registerEventHandler ⟨11, 10⟩ (bytes "join") 1,
        .registerEventHandler ⟨11, 10⟩ (bytes "join") 2] s ∧ ¬ s.Unique ∧
      ¬ s.Handles (.unregisterEventHandler ⟨11, 10⟩ (bytes "join")) := by
  refine ⟨_, .cons rfl (.cons rfl (.cons rfl (.nil _))), fun h => ?_, fun h => ?_⟩
  · exact absurd (h .join 10) (by decide)
  · exact absurd (h .join (by decide)) (by decide)

end LuaEvents

end Meowbot
