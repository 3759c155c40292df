import Meowbot.CmdTable
import Meowbot.Lib.Runs

set_option relaxedAutoImplicit false
set_option autoImplicit false

/-!
# Commands of Lua modules (`modules/mod_lua.cpp`)

A command of a Lua module is in the table of the bot with the handler `cmd_cb_lua`, and in
`g_cmdmap` with its Lua state. A Lua module that registers or unregisters a command changes both. A
C++ module knows only the table of the bot, and unregisters a command by its name, whoever has
registered it; likewise a Lua module may unregister a command of a C++ module, which has no entry in
`g_cmdmap`.

## Main definitions

* `Meowbot.LuaCmds` — the table of the bot and `g_cmdmap`.
* `Meowbot.LuaCmds.Agrees` — the entries of `g_cmdmap` are the Lua commands of the bot.

## Main results

* `Meowbot.LuaCmds.step_iff` — which steps keep the two in agreement.
* `Meowbot.LuaCmds.cmdmap_agrees` — they agree as long as C++ modules and Lua modules do not
  unregister commands of each other.
-/

namespace Meowbot

open Runs

/-! ## The two maps -/

/-- The address of `cmd_cb_lua`. -/
def cmdCbLua : ℕ := 0

/-- The table of the bot, `g_cmdmap` with the state of each entry, and, for the record, the names of
the Lua commands that are in the table of the bot, with the states that have registered them. -/
structure LuaCmds where
  cmdHandlers : CmdHandlers
  cmdmap : CaselessStrmap ℕ
  registered : List (Bytes × ℕ)

/-- An operation on the commands: a C++ module or a Lua state registers or removes one, or the
module with a state is unloaded. A C++ module does not register the function through which Lua
commands are called. -/
inductive LuaCmdOp where
  /-- `register_cmd` of a C++ module, whose handlers are its own. -/
  | registerCmd (name : Bytes) (h : {h : CmdHandler // h.handler ≠ cmdCbLua})
  /-- `unregister_cmd` of a C++ module. -/
  | unregisterCmd (name : Bytes)
  /-- `meowbot.register_cmd` in a state. -/
  | luaRegisterCmd (L : ℕ) (name : Bytes)
  /-- `meowbot.unregister_cmd` -/
  | luaUnregisterCmd (name : Bytes)
  /-- The destructor of the module with a state. -/
  | unload (L : ℕ)

namespace LuaCmds

/-- No commands. -/
def init : LuaCmds := { cmdHandlers := .empty, cmdmap := .empty, registered := [] }

/-- `ircbot::unregister_cmd`. The command is gone, whoever has registered it. -/
def unregisterCmd (s : LuaCmds) (name : Bytes) : Bool × LuaCmds :=
  match Meowbot.unregisterCmd s.cmdHandlers name with
  | (true, cmdHandlers) =>
    (true, { s with
      cmdHandlers
      registered := s.registered.filter fun e => strcasecmp e.1 name ≠ 0 })
  | (false, _) => (false, s)

/-- `lua_meowbot_register_cmd` -/
def luaRegisterCmd (s : LuaCmds) (L : ℕ) (name : Bytes) : LuaCmds :=
  match Meowbot.registerCmd s.cmdHandlers name { handler := cmdCbLua, userdata := 0 } with
  | (true, cmdHandlers) =>
    { cmdHandlers
      cmdmap := s.cmdmap.update name fun _ => L
      registered := s.registered ++ [(name, L)] }
  | (false, _) => s

/-- `lua_meowbot_unregister_cmd`. There is no result if the end iterator is dereferenced. -/
def luaUnregisterCmd (s : LuaCmds) (name : Bytes) : Option LuaCmds :=
  match s.unregisterCmd name with
  | (true, s) => (s.cmdmap.find? name).map fun _ => { s with cmdmap := s.cmdmap.erase name }
  | (false, s) => some s

/-- The loop of `luamod::~luamod` over the entries of `g_cmdmap`. -/
def unloadEach (s : LuaCmds) (L : ℕ) : List (Bytes × ℕ) → LuaCmds
  | [] => s
  | e :: es =>
    if e.2 = L then
      let s := (s.unregisterCmd e.1).2
      unloadEach { s with cmdmap := s.cmdmap.erase e.1 } L es
    else unloadEach s L es

/-- A step. -/
def step (s : LuaCmds) : LuaCmdOp → Option LuaCmds
  | .registerCmd name h =>
    some { s with cmdHandlers := (Meowbot.registerCmd s.cmdHandlers name h.1).2 }
  | .unregisterCmd name => some (s.unregisterCmd name).2
  | .luaRegisterCmd L name => some (s.luaRegisterCmd L name)
  | .luaUnregisterCmd name => s.luaUnregisterCmd name
  | .unload L => some (s.unloadEach L s.cmdmap.entries)

/-! ## What should hold -/

/-- **`g_cmdmap` agrees with the table of the bot**: its keys are the commands whose handler is the
Lua callback, and each of them has the state that has registered it. -/
structure Agrees (s : LuaCmds) : Prop where
  keys : ∀ name, (∃ L, (name, L) ∈ s.cmdmap.entries) ↔
    ∃ h, (name, h) ∈ s.cmdHandlers.entries ∧ h.handler = cmdCbLua
  states : ∀ e, e ∈ s.cmdmap.entries ↔ e ∈ s.registered

/-- **The condition**: a C++ module does not unregister a Lua command, and a Lua module does not
unregister a command of a C++ module. -/
def KeepsCmds (s : LuaCmds) : LuaCmdOp → Prop
  | .unregisterCmd name => ∀ h, getCmdHandler s.cmdHandlers name = some h → h.handler ≠ cmdCbLua
  | .luaUnregisterCmd name =>
    ∀ h, getCmdHandler s.cmdHandlers name = some h → h.handler = cmdCbLua
  | _ => True

/-! ## Erasing a name -/

/-- A name that is taken is erased. -/
lemma unregisterCmd_of_mem {s : LuaCmds} {name : Bytes} {e : Bytes × CmdHandler}
    (he : e ∈ s.cmdHandlers.entries) (hname : OrderedMap.Same CaselessLess e.1 name) :
    s.unregisterCmd name = (true, { s with
      cmdHandlers := s.cmdHandlers.erase name
      registered := s.registered.filter fun e => strcasecmp e.1 name ≠ 0 }) := by
  rw [unregisterCmd, Meowbot.unregisterCmd, OrderedMap.find?_of_mem he hname]

/-- Nothing happens if the name is not taken. -/
lemma unregisterCmd_of_find? {s : LuaCmds} {name : Bytes}
    (h : s.cmdHandlers.find? name = none) : s.unregisterCmd name = (false, s) := by
  rw [unregisterCmd, Meowbot.unregisterCmd, h]

/-- The bot does not know `g_cmdmap`. -/
lemma cmdmap_unregisterCmd (s : LuaCmds) (name : Bytes) :
    (s.unregisterCmd name).2.cmdmap = s.cmdmap := by
  rw [unregisterCmd]
  rcases Meowbot.unregisterCmd s.cmdHandlers name with ⟨_ | _, t⟩ <;> rfl

/-- A key of `g_cmdmap` is taken. -/
lemma Agrees.exists_of_mem {s : LuaCmds} (h : s.Agrees) {e : Bytes × ℕ}
    (he : e ∈ s.cmdmap.entries) : ∃ h, (e.1, h) ∈ s.cmdHandlers.entries ∧ h.handler = cmdCbLua :=
  (h.keys e.1).mp ⟨e.2, he⟩

/-- **A name that is erased from both** leaves them in agreement.

**Proof sketch.** If the name is no command, it is not in `g_cmdmap` either, and nothing is erased.
If it is one, both lose the entries whose name is the same without regard to case. -/
lemma Agrees.erase {s : LuaCmds} (h : s.Agrees) (name : Bytes) :
    Agrees { (s.unregisterCmd name).2 with cmdmap := s.cmdmap.erase name } := by
  cases hfind : s.cmdHandlers.find? name with
  | none =>
    rw [unregisterCmd_of_find? hfind]
    have hother : ∀ e ∈ s.cmdmap.entries, ¬ OrderedMap.Same CaselessLess e.1 name := by
      intro e he hsame
      obtain ⟨hd, hmem, -⟩ := h.exists_of_mem he
      exact OrderedMap.find?_eq_none_iff.mp hfind _ hmem hsame
    have hsame : ∀ e, e ∈ (s.cmdmap.erase name).entries ↔ e ∈ s.cmdmap.entries := fun e =>
      OrderedMap.mem_erase.trans (and_iff_left_of_imp (hother e))
    exact ⟨fun n => (exists_congr fun L => hsame (n, L)).trans (h.keys n),
      fun e => (hsame e).trans (h.states e)⟩
  | some e =>
    obtain ⟨he, hname⟩ := OrderedMap.find?_eq_some_iff.mp hfind
    rw [unregisterCmd_of_mem he hname]
    refine ⟨fun n => ?_, fun e => ?_⟩
    · simp only [OrderedMap.mem_erase]
      constructor
      · rintro ⟨L, hL, hne⟩
        obtain ⟨hd, hmem, hlua⟩ := (h.keys n).mp ⟨L, hL⟩
        exact ⟨hd, ⟨hmem, hne⟩, hlua⟩
      · rintro ⟨hd, ⟨hmem, hne⟩, hlua⟩
        obtain ⟨L, hL⟩ := (h.keys n).mpr ⟨hd, hmem, hlua⟩
        exact ⟨L, hL, hne⟩
    · simp only [OrderedMap.mem_erase, List.mem_filter, h.states e, same_caselessLess,
        decide_eq_true_eq, ne_eq]

/-- **The destructor of a Lua module** leaves them in agreement. -/
lemma Agrees.unloadEach {s : LuaCmds} (h : s.Agrees) (L : ℕ) (es : List (Bytes × ℕ)) :
    (s.unloadEach L es).Agrees := by
  induction es generalizing s with
  | nil => exact h
  | cons e es ih =>
    rw [LuaCmds.unloadEach]
    split_ifs
    · dsimp only
      rw [cmdmap_unregisterCmd]
      exact ih (h.erase e.1)
    · exact ih h

/-! ## Steps -/

/-- A new command is registered. -/
lemma registerCmd_cases (t : CmdHandlers) (name : Bytes) (h : CmdHandler) :
    (∃ e, t.find? name = some e ∧ registerCmd t name h = (false, t)) ∨
      t.find? name = none ∧ registerCmd t name h = (true, t.update name fun _ => h) := by
  rw [registerCmd]
  cases t.find? name with
  | none => exact .inr ⟨rfl, rfl⟩
  | some e => exact .inl ⟨e, rfl, rfl⟩

/-- **A C++ module registers** a command. -/
lemma Agrees.registerCmd {s : LuaCmds} (h : s.Agrees) (name : Bytes) {hd : CmdHandler}
    (hhd : hd.handler ≠ cmdCbLua) :
    Agrees { s with cmdHandlers := (Meowbot.registerCmd s.cmdHandlers name hd).2 } := by
  rcases registerCmd_cases s.cmdHandlers name hd with ⟨e, -, hreg⟩ | ⟨hfind, hreg⟩
  · rw [hreg]
    exact h
  · rw [hreg]
    refine ⟨fun n => (h.keys n).trans ?_, h.states⟩
    simp only [OrderedMap.mem_update_new _ hfind]
    constructor
    · rintro ⟨hd', hmem, hlua⟩
      exact ⟨hd', .inl hmem, hlua⟩
    · rintro ⟨hd', hmem | hnew, hlua⟩
      · exact ⟨hd', hmem, hlua⟩
      · obtain ⟨-, rfl⟩ := Prod.mk.inj hnew
        exact absurd hlua hhd

/-- **A Lua module registers** a command.

**Proof sketch.** A name that is taken is refused, and nothing changes. A name that is free is in
neither list, and both get it, with the same state. -/
lemma Agrees.luaRegisterCmd {s : LuaCmds} (h : s.Agrees) (L : ℕ) (name : Bytes) :
    (s.luaRegisterCmd L name).Agrees := by
  rw [LuaCmds.luaRegisterCmd]
  rcases registerCmd_cases s.cmdHandlers name { handler := cmdCbLua, userdata := 0 } with
    ⟨e, -, hreg⟩ | ⟨hfind, hreg⟩
  · rw [hreg]
    exact h
  · rw [hreg]
    have hfree : s.cmdmap.find? name = none := by
      refine OrderedMap.find?_eq_none_iff.mpr fun e he hsame => ?_
      obtain ⟨hd, hmem, -⟩ := h.exists_of_mem he
      exact OrderedMap.find?_eq_none_iff.mp hfind _ hmem hsame
    refine ⟨fun n => ?_, fun e => ?_⟩
    · simp only [OrderedMap.mem_update_new _ hfind, OrderedMap.mem_update_new _ hfree]
      constructor
      · rintro ⟨L', hold | hnew⟩
        · obtain ⟨hd, hmem, hlua⟩ := (h.keys n).mp ⟨L', hold⟩
          exact ⟨hd, .inl hmem, hlua⟩
        · obtain ⟨rfl, -⟩ := Prod.mk.inj hnew
          exact ⟨_, .inr rfl, rfl⟩
      · rintro ⟨hd, hold | hnew, hlua⟩
        · obtain ⟨L', hL'⟩ := (h.keys n).mpr ⟨hd, hold, hlua⟩
          exact ⟨L', .inl hL'⟩
        · obtain ⟨rfl, -⟩ := Prod.mk.inj hnew
          exact ⟨L, .inr rfl⟩
    · simp only [OrderedMap.mem_update_new _ hfree, List.mem_append, List.mem_singleton, h.states e]

/-- **A C++ module unregisters** a name: the two agree afterwards exactly if it is not the name of a
Lua command.

**Proof sketch.** Nothing happens to a name that is no command. Otherwise it leaves the table of
commands, and `g_cmdmap` has it exactly if it is the name of a Lua command. -/
lemma Agrees.unregisterCmd_iff {s : LuaCmds} (h : s.Agrees) (name : Bytes) :
    (∀ hd, getCmdHandler s.cmdHandlers name = some hd → hd.handler ≠ cmdCbLua) ↔
      (s.unregisterCmd name).2.Agrees := by
  rw [getCmdHandler, OrderedMap.get?]
  cases hfind : s.cmdHandlers.find? name with
  | none =>
    rw [unregisterCmd_of_find? hfind]
    exact iff_of_true (by simp) h
  | some e =>
    obtain ⟨he, hname⟩ := OrderedMap.find?_eq_some_iff.mp hfind
    have herase := h.erase name
    rw [unregisterCmd_of_mem he hname] at herase ⊢
    constructor
    · intro hcpp
      have hother : ∀ e' ∈ s.cmdmap.entries, ¬ OrderedMap.Same CaselessLess e'.1 name := by
        intro e' he' hsame
        obtain ⟨hd, hmem, hlua⟩ := h.exists_of_mem he'
        have heq : (e'.1, hd) = e := OrderedMap.eq_of_same hmem he (hsame.trans hname.symm)
        exact hcpp e.2 rfl (heq ▸ hlua)
      have hsame : s.cmdmap.erase name = s.cmdmap := OrderedMap.ext_of_mem fun e' =>
        OrderedMap.mem_erase.trans (and_iff_left_of_imp (hother e'))
      rwa [hsame] at herase
    · rintro hafter hd hhd hlua
      obtain rfl := Option.some.inj hhd
      obtain ⟨L, hL⟩ := (h.keys e.1).mpr ⟨e.2, he, hlua⟩
      obtain ⟨hd', hmem, -⟩ := hafter.exists_of_mem hL
      exact (OrderedMap.mem_erase.mp hmem).2 hname

/-- **A Lua module unregisters** a name: the end iterator is not dereferenced, and the two agree
afterwards, exactly if it is not the name of a command of a C++ module.

**Proof sketch.** Nothing happens to a name that is no command. Otherwise it leaves both, but
`g_cmdmap` has it only if it is the name of a Lua command; if it has not, the end iterator is
dereferenced. -/
lemma Agrees.luaUnregisterCmd_iff {s : LuaCmds} (h : s.Agrees) (name : Bytes) :
    (∀ hd, getCmdHandler s.cmdHandlers name = some hd → hd.handler = cmdCbLua) ↔
      ∃ s' ∈ s.luaUnregisterCmd name, s'.Agrees := by
  rw [getCmdHandler, OrderedMap.get?, luaUnregisterCmd]
  cases hfind : s.cmdHandlers.find? name with
  | none =>
    rw [unregisterCmd_of_find? hfind]
    exact iff_of_true (by simp) ⟨s, rfl, h⟩
  | some e =>
    obtain ⟨he, hname⟩ := OrderedMap.find?_eq_some_iff.mp hfind
    have herase := h.erase name
    rw [unregisterCmd_of_mem he hname] at herase ⊢
    dsimp only at herase ⊢
    constructor
    · intro hlua
      obtain ⟨L, hL⟩ := (h.keys e.1).mpr ⟨e.2, he, hlua e.2 rfl⟩
      rw [OrderedMap.find?_of_mem hL hname]
      exact ⟨_, rfl, herase⟩
    · rintro ⟨s', hs', -⟩ hd hhd
      obtain rfl := Option.some.inj hhd
      obtain ⟨e', he', -⟩ := Option.map_eq_some_iff.mp hs'
      obtain ⟨hmem, hsame⟩ := OrderedMap.find?_eq_some_iff.mp he'
      obtain ⟨hd', hmem', hlua⟩ := h.exists_of_mem hmem
      have heq : (e'.1, hd') = e := OrderedMap.eq_of_same hmem' he (hsame.trans hname.symm)
      exact heq ▸ hlua

/-- **A step** leaves the two in agreement exactly under the condition. -/
lemma step_iff {s : LuaCmds} (h : s.Agrees) (op : LuaCmdOp) :
    s.KeepsCmds op ↔ ∃ s' ∈ s.step op, s'.Agrees := by
  cases op with
  | registerCmd name hd => exact iff_of_true trivial ⟨_, rfl, h.registerCmd name hd.2⟩
  | unregisterCmd name =>
    refine (h.unregisterCmd_iff name).trans ⟨fun hafter => ⟨_, rfl, hafter⟩, ?_⟩
    rintro ⟨s', hs', hafter⟩
    obtain rfl := Option.some.inj hs'
    exact hafter
  | luaRegisterCmd L name => exact iff_of_true trivial ⟨_, rfl, h.luaRegisterCmd L name⟩
  | luaUnregisterCmd name => exact h.luaUnregisterCmd_iff name
  | unload L => exact iff_of_true trivial ⟨_, rfl, h.unloadEach L _⟩

/-- **`g_cmdmap` agrees with the table of the bot** after any steps of which none is a C++ module
that unregisters a Lua command or a Lua module that unregisters a command of a C++ module; and
whichever step comes next is possible and leaves them in agreement exactly if it is not one of
these. -/
theorem cmdmap_agrees {ops : List LuaCmdOp} {s : LuaCmds}
    (hrun : Run (Under (Fun step) KeepsCmds) init ops s) :
    s.Agrees ∧ ∀ op, s.KeepsCmds op ↔ ∃ s' ∈ s.step op, s'.Agrees := by
  have hinit : init.Agrees := by
    refine ⟨fun n => iff_of_false ?_ ?_, fun e => iff_of_false List.not_mem_nil List.not_mem_nil⟩
    · rintro ⟨L, hL⟩
      exact List.not_mem_nil hL
    · rintro ⟨hd, hmem, -⟩
      exact List.not_mem_nil hmem
  have h : s.Agrees := hrun.preserves (fun s op t hs hstep => by
    obtain ⟨s', hs', hafter⟩ := (step_iff hs op).mp hstep.2
    obtain rfl := Option.some.inj (hstep.1.symm.trans hs')
    exact hafter) hinit
  exact ⟨h, step_iff h⟩

/-- Commands of a C++ module. -/
def cppHandler : {h : CmdHandler // h.handler ≠ cmdCbLua} := ⟨⟨1, 0⟩, by decide⟩

/-- A C++ module and two Lua modules register commands, and the first Lua module is unloaded. -/
theorem cmdmap_agrees_unload :
    ∃ ops s, Run (Under (Fun step) KeepsCmds) init ops s ∧
      s.cmdmap.entries = [(bytes "roll", 2)] ∧ s.cmdHandlers.entries.length = 2 ∧ s.Agrees ∧
      ∀ op, s.KeepsCmds op ↔ ∃ s' ∈ s.step op, s'.Agrees := by
  have hrun : ∃ s, Run (Under (Fun step) KeepsCmds) init
      [.registerCmd (bytes "say") cppHandler, .luaRegisterCmd 1 (bytes "dice"),
        .luaRegisterCmd 2 (bytes "roll"), .unload 1] s ∧
      s.cmdmap.entries = [(bytes "roll", 2)] ∧ s.cmdHandlers.entries.length = 2 :=
    ⟨_, .cons ⟨rfl, trivial⟩ (.cons ⟨rfl, trivial⟩ (.cons ⟨rfl, trivial⟩ (.cons ⟨rfl, trivial⟩
      (.nil _)))), by decide, by decide⟩
  obtain ⟨s, hrun, hcmdmap, hcmds⟩ := hrun
  exact ⟨_, s, hrun, hcmdmap, hcmds, cmdmap_agrees hrun⟩

/-- **An entry without its command**: a C++ module unregisters a name that a Lua module has
registered. And **a lookup that finds nothing**: a Lua module unregisters the command of a C++
module. -/
theorem not_cmdmap_agrees :
    (∃ s, Run (Fun step) init [.luaRegisterCmd 1 (bytes "say"), .unregisterCmd (bytes "say")] s ∧
      ¬ s.Agrees) ∧
    ∃ s, Run (Fun step) init [.registerCmd (bytes "say") cppHandler] s ∧
      s.step (.luaUnregisterCmd (bytes "say")) = none := by
  constructor
  · refine ⟨_, .cons rfl (.cons rfl (.nil _)), fun h => ?_⟩
    obtain ⟨hd, hmem, -⟩ := (h.keys (bytes "say")).mp ⟨1, by decide⟩
    exact List.not_mem_nil hmem
  · exact ⟨_, .cons rfl (.nil _), by decide⟩

end LuaCmds

end Meowbot
