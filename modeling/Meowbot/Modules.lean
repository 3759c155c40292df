import Mathlib.Data.List.Lex
import Mathlib.Order.RelClasses
import Meowbot.Basic
import Meowbot.Lib.OrderedMap
import Meowbot.Lib.Runs

set_option relaxedAutoImplicit false
set_option autoImplicit false

/-!
# Modules and their hooks (`module.cpp`, `module.h`)

A module has a hook that is run when it is loaded and one that is run when it is unloaded. Shared
modules are libraries that `dlopen` finds by their path; static modules are part of the program, and
their symbols have the name of the module in them. The list of modules is kept by name.

The hook that is run when a static module is unloaded is the one that is run when it is loaded. And
a module that is loaded a second time runs its hook a second time, since the list is looked at
afterwards.

## Main definitions

* `Meowbot.Linker` — what `dlopen` and `dlsym` find, and what the hooks return.
* `Meowbot.ModuleList` — the list, with the hooks that have been run.
* `Meowbot.ModuleList.Alternating` — the hooks of each module alternate, and it is listed in
  between.

## Main results

* `Meowbot.ModuleList.hooks_alternate` — the hooks alternate as long as no static module is
  unloaded and no module is loaded that is listed.
-/

namespace Meowbot

open Runs

/-! ## The linker -/

/-- The order of `std::string`. -/
def NameLess (s t : Bytes) : Prop := s.map UInt8.toNat < t.map UInt8.toNat

instance : DecidableRel NameLess := fun s t =>
  inferInstanceAs (Decidable (s.map UInt8.toNat < t.map UInt8.toNat))

/-- The order of names is a strict weak order. -/
instance : IsStrictWeakOrder Bytes NameLess := by
  have hlex : IsStrictWeakOrder (List ℕ) (· < ·) := isStrictWeakOrder_of_isOrderConnected
  exact Order.Preimage.instIsStrictWeakOrder (f := List.map UInt8.toNat)

/-- Names count as the same when they are equal. -/
lemma same_nameLess {s t : Bytes} : OrderedMap.Same NameLess s t ↔ s = t := by
  constructor
  · rintro ⟨h, h'⟩
    have hvalues : s.map UInt8.toNat = t.map UInt8.toNat :=
      le_antisymm (not_lt.mp h') (not_lt.mp h)
    exact List.map_injective_iff.mpr (fun _ _ => UInt8.toNat_inj.mp) hvalues
  · rintro rfl
    exact OrderedMap.Same.refl _

/-- The symbols of a module: the text behind `_module_name`, and whether there are hooks. -/
structure Symbols where
  name : Option Bytes
  init : Bool
  cleanup : Bool

/-- What `dlopen` and `dlsym` find, and what the hooks return. A library is any value here; of its
symbols only those count that the source looks up, and its hooks may return something else each
time. -/
structure Linker (Lib : Type) where
  /-- The library with a path. -/
  dlopen : Bytes → Option Lib
  /-- The symbols `MODULE_NAME_SYM`, `MODULE_INIT_FXN` and `MODULE_CLEANUP_FXN` of a library. -/
  shared : Lib → Symbols
  /-- The symbols `_module_<name>_name`, `_module_<name>_init` and `_module_<name>_cleanup` of the
  program. -/
  static : Bytes → Symbols
  /-- What a hook returns that is run after so many others. -/
  returns : ℕ → ℤ
  /-- `MODULE_INFO` defines all the symbols. -/
  shared_hooks : ∀ lib name, (shared lib).name = some name →
    (shared lib).init ∧ (shared lib).cleanup
  /-- `MODULE_INFO` defines all the symbols, and the name is the one in the symbols. -/
  static_hooks : ∀ n name, (static n).name = some name →
    name = n ∧ (static n).init ∧ (static n).cleanup

/-- Which module it is: a library, or a static module with a name. -/
inductive ModuleId (Lib : Type) where
  | shared (lib : Lib)
  | static (name : Bytes)
  deriving DecidableEq

/-- The hooks of a module. -/
inductive Hook where
  | init
  | cleanup
  deriving DecidableEq

/-- A run of a hook with its result. -/
structure HookRun (Lib : Type) where
  module : ModuleId Lib
  hook : Hook
  ret : ℤ
  deriving DecidableEq

/-- `handle` and `type`: the handle of a library, or `RTLD_DEFAULT`. -/
inductive ModuleHandle (Lib : Type) where
  | shared (lib : Lib)
  | static

/-- `module`, as it is after it has been loaded. -/
structure Module (Lib : Type) where
  handle : ModuleHandle Lib
  /-- `status == MODSTATUS_LOADED`. -/
  isloaded : Bool
  name : Bytes

/-- Which module it is. -/
def Module.id {Lib : Type} (mod : Module Lib) : ModuleId Lib :=
  match mod.handle with
  | .shared lib => .shared lib
  | .static => .static mod.name

section Hooks

variable {Lib : Type} (L : Linker Lib)

/-- Run a hook. -/
def runHook (log : List (HookRun Lib)) (module : ModuleId Lib) (hook : Hook) :
    ℤ × List (HookRun Lib) :=
  (L.returns log.length, log ++ [⟨module, hook, L.returns log.length⟩])

/-- The part of `load_module` and of `load_static_module` behind the lookup of the name: the hook is
run, if there is one, and if it succeeds the module is loaded. -/
def Module.start (log : List (HookRun Lib)) (mod : Module Lib) (hasInit : Bool) :
    Option (Module Lib) × List (HookRun Lib) :=
  if hasInit then
    let (ret, log) := runHook L log mod.id .init
    if ret < 0 then (none, log) else (some mod, log)
  else (some mod, log)

/-- `module::load_module` of a new module. A library that cannot be opened or has no name is given
up; otherwise its initialisation is run. -/
def Module.loadModule (log : List (HookRun Lib)) (path : Bytes) :
    Option (Module Lib) × List (HookRun Lib) :=
  match L.dlopen path with
  | none => (none, log)
  | some lib =>
    match (L.shared lib).name with
    | none => (none, log)
    | some name =>
      Module.start L log { handle := .shared lib, isloaded := true, name } (L.shared lib).init

/-- `module::load_static_module` of a new module. -/
def Module.loadStaticModule (log : List (HookRun Lib)) (name : Bytes) :
    Option (Module Lib) × List (HookRun Lib) :=
  match (L.static name).name with
  | none => (none, log)
  | some modname =>
    Module.start L log { handle := .static, isloaded := true, name := modname }
      (L.static name).init

/-- `module::unload_module`. The hook of a static module is looked up as `_module_<name>_init`. -/
def Module.unloadModule (log : List (HookRun Lib)) (mod : Module Lib) : List (HookRun Lib) :=
  match mod.handle with
  | .shared lib => if (L.shared lib).cleanup then (runHook L log (.shared lib) .cleanup).2 else log
  | .static =>
    if (L.static mod.name).init then (runHook L log (.static mod.name) .init).2 else log

end Hooks

/-! ## The list of modules -/

/-- `module_list`, with the hooks that have been run. -/
structure ModuleList (Lib : Type) where
  modules : OrderedMap NameLess (Module Lib)
  log : List (HookRun Lib)

namespace ModuleList

variable {Lib : Type}

/-- No module is loaded. -/
def empty : ModuleList Lib := ⟨.empty, []⟩

variable (L : Linker Lib)

/-- The part of `load_module` and of `load_static_module` behind the load of the module. -/
def add (s : ModuleList Lib) : Option (Module Lib) × List (HookRun Lib) → Bool × ModuleList Lib
  | (none, log) => (false, { s with log })
  | (some mod, log) =>
    match s.modules.find? mod.name with
    | some _ => (false, { s with log := Module.unloadModule L log mod })
    | none => (true, { modules := s.modules.update mod.name fun _ => mod, log })

/-- `module_list::load_module` -/
def loadModule (s : ModuleList Lib) (path : Bytes) : Bool × ModuleList Lib :=
  s.add L (Module.loadModule L s.log path)

/-- `module_list::load_static_module` -/
def loadStaticModule (s : ModuleList Lib) (name : Bytes) : Bool × ModuleList Lib :=
  s.add L (Module.loadStaticModule L s.log name)

/-- `module_list::unload_module` -/
def unloadModule (s : ModuleList Lib) (name : Bytes) : Bool × ModuleList Lib :=
  match s.modules.find? name with
  | none => (false, s)
  | some e =>
    (true, { modules := s.modules.erase name, log := Module.unloadModule L s.log e.2 })

/-- The loop of `unload_all`, with the number of modules that it unloads. -/
def unloadEach (log : List (HookRun Lib)) : List (Bytes × Module Lib) → ℕ × List (HookRun Lib)
  | [] => (0, log)
  | e :: es =>
    if e.2.isloaded then
      let (cnt, log) := unloadEach (Module.unloadModule L log e.2) es
      (cnt + 1, log)
    else unloadEach log es

/-- `module_list::unload_all` -/
def unloadAll (s : ModuleList Lib) : ℕ × ModuleList Lib :=
  let (cnt, log) := unloadEach L s.log s.modules.entries
  (cnt, { modules := .empty, log })

end ModuleList

/-- A call of the list of modules. -/
inductive ModuleCall where
  | loadModule (path : Bytes)
  | loadStaticModule (name : Bytes)
  | unloadModule (name : Bytes)
  | unloadAll

namespace ModuleList

variable {Lib : Type}

/-- A call, and whether it succeeds. -/
def call (L : Linker Lib) (s : ModuleList Lib) : ModuleCall → Bool × ModuleList Lib
  | .loadModule path => s.loadModule L path
  | .loadStaticModule name => s.loadStaticModule L name
  | .unloadModule name => s.unloadModule L name
  | .unloadAll => (true, (s.unloadAll L).2)

/-- The step relation of calls. -/
abbrev Calls (L : Linker Lib) : ModuleList Lib → ModuleCall → ModuleList Lib → Prop :=
  Fun fun s c => some (s.call L c).2

/-! ## What should hold -/

/-- A cleanup, or a successful init. -/
def HookRun.Counts (r : HookRun Lib) : Prop := r.hook = .cleanup ∨ 0 ≤ r.ret

instance (r : HookRun Lib) : Decidable (HookRun.Counts r) :=
  inferInstanceAs (Decidable (_ ∨ _))

/-- Whether there has been an init without its cleanup. No hook may be run twice in a row. -/
def toggle : Bool → Hook → Option Bool
  | false, .init => some true
  | true, .cleanup => some false
  | _, _ => none

variable [DecidableEq Lib]

/-- The hooks of a module that have been run: the successful inits and the cleanups. -/
def hooksOf (m : ModuleId Lib) (log : List (HookRun Lib)) : List Hook :=
  (log.filter fun r => r.module = m ∧ HookRun.Counts r).map HookRun.hook

/-- Whether the last hook of a module was an init, if its hooks alternate and start with an init. -/
def opened (m : ModuleId Lib) (log : List (HookRun Lib)) : Option Bool :=
  (hooksOf m log).foldlM toggle false

/-- A module is listed as loaded. -/
def Listed (s : ModuleList Lib) (m : ModuleId Lib) : Prop := ∃ e ∈ s.modules.entries, e.2.id = m

instance (s : ModuleList Lib) (m : ModuleId Lib) : Decidable (s.Listed m) :=
  inferInstanceAs (Decidable (∃ e ∈ s.modules.entries, e.2.id = m))

/-- **The hooks of each module alternate**, starting with an init, and the module is listed exactly
between an init and its cleanup. -/
def Alternating (s : ModuleList Lib) : Prop := ∀ m, opened m s.log = some (decide (s.Listed m))

variable (L : Linker Lib)

omit [DecidableEq Lib] in
/-- **A call that fails** runs no hook of a module that stays loaded. -/
def FailsClean (s : ModuleList Lib) (c : ModuleCall) : Prop :=
  (s.call L c).1 = false →
    ∀ r ∈ (s.call L c).2.log.drop s.log.length, ¬ (s.call L c).2.Listed r.module

/-- **The condition**: no module is loaded that is listed; a static module whose name is taken is
not loaded, or its init fails; no static module is unloaded. -/
def KeepsHooks (s : ModuleList Lib) : ModuleCall → Prop
  | .loadModule path => ∀ lib, L.dlopen path = some lib → ¬ s.Listed (.shared lib)
  | .loadStaticModule name =>
    (L.static name).name = none ∨ s.modules.find? name = none ∨
      ¬ s.Listed (.static name) ∧ L.returns s.log.length < 0
  | .unloadModule name => ∀ e, s.modules.find? name = some e → e.2.id ≠ .static name
  | .unloadAll => ∀ name, ¬ s.Listed (.static name)

/-! ## The hooks that have been run -/

/-- One more run. -/
lemma opened_append (m : ModuleId Lib) (log : List (HookRun Lib)) (r : HookRun Lib) :
    opened m (log ++ [r]) =
      if r.module = m ∧ HookRun.Counts r then (opened m log).bind (toggle · r.hook)
      else opened m log := by
  rw [opened, hooksOf, List.filter_append, List.map_append, List.foldlM_append]
  split_ifs with h
  · simp [h, opened, hooksOf]
  · simp [h, opened, hooksOf]

/-- A run of another module does not count. -/
lemma opened_append_of_ne {m : ModuleId Lib} {r : HookRun Lib} (log : List (HookRun Lib))
    (h : r.module ≠ m) : opened m (log ++ [r]) = opened m log := by
  rw [opened_append, if_neg fun hr => h hr.1]

/-- The hooks do not alternate again once they do not. -/
lemma opened_append_none {m : ModuleId Lib} {log : List (HookRun Lib)} (h : opened m log = none)
    (r : HookRun Lib) : opened m (log ++ [r]) = none := by
  rw [opened_append, h]
  split_ifs <;> rfl

end ModuleList

/-! ## Modules that have been found -/

section Found

variable {Lib : Type} {L : Linker Lib}

/-- A module that `load_module` or `load_static_module` finds. -/
def Module.Found (L : Linker Lib) (mod : Module Lib) : Prop :=
  mod.isloaded ∧
    match mod.handle with
    | .shared lib => (L.shared lib).name = some mod.name
    | .static => (L.static mod.name).name = some mod.name

/-- The hook that is run when a module is unloaded. -/
def Module.lastHook (mod : Module Lib) : Hook :=
  match mod.handle with
  | .shared _ => .cleanup
  | .static => .init

/-- The hook of a module that has been found exists. -/
lemma unloadModule_of_found {mod : Module Lib} (h : mod.Found L) (log : List (HookRun Lib)) :
    Module.unloadModule L log mod = log ++ [⟨mod.id, mod.lastHook, L.returns log.length⟩] := by
  obtain ⟨handle, isloaded, name⟩ := mod
  cases handle with
  | shared lib =>
    have hhook := (L.shared_hooks lib name h.2).2
    simp [Module.unloadModule, hhook, runHook, Module.id, Module.lastHook]
  | static =>
    have hhook := (L.static_hooks name name h.2).2.1
    simp [Module.unloadModule, hhook, runHook, Module.id, Module.lastHook]

/-- What `load_module` finds.

**Proof sketch.** By cases on what `dlopen` finds, and on the symbol with the name. A library with a
name has both hooks, as `MODULE_INFO` defines all three. -/
lemma loadModule_cases (log : List (HookRun Lib)) (path : Bytes) :
    (Module.loadModule L log path = (none, log) ∧
      ∀ lib, L.dlopen path = some lib → (L.shared lib).name = none) ∨
    ∃ lib name, L.dlopen path = some lib ∧
      Module.Found L ⟨.shared lib, true, name⟩ ∧
      Module.loadModule L log path = Module.start L log ⟨.shared lib, true, name⟩ true := by
  rw [Module.loadModule]
  cases hopen : L.dlopen path with
  | none => exact .inl ⟨rfl, by simp⟩
  | some lib =>
    dsimp only
    cases hname : (L.shared lib).name with
    | none =>
      refine .inl ⟨rfl, ?_⟩
      rintro _ ⟨⟩
      exact hname
    | some name =>
      refine .inr ⟨lib, name, rfl, ⟨rfl, hname⟩, ?_⟩
      rw [(L.shared_hooks lib name hname).1]

/-- What `load_static_module` finds. -/
lemma loadStaticModule_cases (log : List (HookRun Lib)) (name : Bytes) :
    (Module.loadStaticModule L log name = (none, log) ∧ (L.static name).name = none) ∨
    (L.static name).name = some name ∧ Module.Found L ⟨.static, true, name⟩ ∧
      Module.loadStaticModule L log name = Module.start L log ⟨.static, true, name⟩ true := by
  rw [Module.loadStaticModule]
  cases hname : (L.static name).name with
  | none => exact .inl ⟨rfl, rfl⟩
  | some modname =>
    obtain ⟨rfl, hinit, -⟩ := L.static_hooks name modname hname
    exact .inr ⟨rfl, ⟨rfl, hname⟩, by rw [hinit]⟩

end Found

namespace ModuleList

variable {Lib : Type} {L : Linker Lib}

/-- **What is listed** has been found, and is listed under its name. -/
structure WellFormed (L : Linker Lib) (s : ModuleList Lib) : Prop where
  found : ∀ e ∈ s.modules.entries, e.2.Found L
  name : ∀ e ∈ s.modules.entries, e.2.name = e.1

/-- Two entries are not the same module.

**Proof sketch.** The name of an entry is determined by what it stands for: a library has the name
that it gives, and a static module its own. Two entries with the same name are one. -/
lemma WellFormed.eq_of_id {s : ModuleList Lib} (h : s.WellFormed L) {e e' : Bytes × Module Lib}
    (he : e ∈ s.modules.entries) (he' : e' ∈ s.modules.entries) (hid : e.2.id = e'.2.id) :
    e = e' := by
  refine OrderedMap.eq_of_same he he' (same_nameLess.mpr ?_)
  rw [← h.name e he, ← h.name e' he']
  have hf := (h.found e he).2
  have hf' := (h.found e' he').2
  obtain ⟨k, handle, l, name⟩ := e
  obtain ⟨k', handle', l', name'⟩ := e'
  dsimp only at hf hf' hid ⊢
  cases handle with
  | shared lib =>
    cases handle' with
    | shared lib' =>
      obtain rfl := ModuleId.shared.inj hid
      exact Option.some.inj (hf.symm.trans hf')
    | static => cases hid
  | static =>
    cases handle' with
    | shared lib' => cases hid
    | static => exact ModuleId.static.inj hid

/-! ## Loading -/

/-- **What a load does** to a module that has been found: its init fails; or its name is taken, and
it is unloaded; or it is listed.

**Proof sketch.** By the result of `init`, and by whether the name is in the list; a name that is
taken makes the destructor run its last hook. -/
lemma add_cases (s : ModuleList Lib) {mod : Module Lib} (hmod : mod.Found L) :
    let r : HookRun Lib := ⟨mod.id, .init, L.returns s.log.length⟩
    (L.returns s.log.length < 0 ∧
      s.add L (Module.start L s.log mod true) = (false, { s with log := s.log ++ [r] })) ∨
    (0 ≤ L.returns s.log.length ∧ s.modules.find? mod.name ≠ none ∧
      s.add L (Module.start L s.log mod true) =
        (false, { s with
          log := s.log ++ [r] ++ [⟨mod.id, mod.lastHook, L.returns (s.log.length + 1)⟩] })) ∨
    (0 ≤ L.returns s.log.length ∧ s.modules.find? mod.name = none ∧
      s.add L (Module.start L s.log mod true) =
        (true, { modules := s.modules.update mod.name fun _ => mod, log := s.log ++ [r] })) := by
  intro r
  rw [Module.start, if_pos rfl]
  dsimp only [runHook]
  by_cases hret : L.returns s.log.length < 0
  · rw [if_pos hret]
    exact .inl ⟨hret, rfl⟩
  · rw [if_neg hret]
    refine .inr ?_
    cases hfind : s.modules.find? mod.name with
    | none => exact .inr ⟨not_lt.mp hret, rfl, by simp only [add, hfind]; rfl⟩
    | some e =>
      refine .inl ⟨not_lt.mp hret, by simp, ?_⟩
      simp only [add, hfind, unloadModule_of_found hmod, List.length_append, List.length_singleton]
      rfl

/-- A load leaves what is listed well formed. -/
lemma WellFormed.add {s : ModuleList Lib} (hs : s.WellFormed L) {mod : Module Lib}
    (hmod : mod.Found L) : (s.add L (Module.start L s.log mod true)).2.WellFormed L := by
  rcases add_cases s hmod with ⟨-, h⟩ | ⟨-, -, h⟩ | ⟨-, hfind, h⟩
  · rw [h]
    exact ⟨hs.found, hs.name⟩
  · rw [h]
    exact ⟨hs.found, hs.name⟩
  · rw [h]
    refine ⟨fun e he => ?_, fun e he => ?_⟩
    · rcases (OrderedMap.mem_update_new _ hfind).mp he with he | rfl
      · exact hs.found e he
      · exact hmod
    · rcases (OrderedMap.mem_update_new _ hfind).mp he with he | rfl
      · exact hs.name e he
      · rfl

/-- What is listed after a module has been listed whose name was not taken. -/
lemma listed_update {s : ModuleList Lib} {mod : Module Lib} {log : List (HookRun Lib)}
    (hfind : s.modules.find? mod.name = none) {m : ModuleId Lib} :
    ({ modules := s.modules.update mod.name fun _ => mod, log } : ModuleList Lib).Listed m ↔
      s.Listed m ∨ mod.id = m := by
  constructor
  · rintro ⟨e, he, hid⟩
    rcases (OrderedMap.mem_update_new _ hfind).mp he with he | rfl
    · exact .inl ⟨e, he, hid⟩
    · exact .inr hid
  · rintro (⟨e, he, hid⟩ | hid)
    · exact ⟨e, (OrderedMap.mem_update_new _ hfind).mpr (.inl he), hid⟩
    · exact ⟨_, (OrderedMap.mem_update_new _ hfind).mpr (.inr rfl), hid⟩

section Load

variable [DecidableEq Lib]

/-- The init of a module that is not listed, and what comes after it. -/
lemma Alternating.opened_init {s : ModuleList Lib} (h : s.Alternating) {m : ModuleId Lib}
    (hm : ¬ s.Listed m) {ret : ℤ} (hret : 0 ≤ ret) :
    opened m (s.log ++ [⟨m, .init, ret⟩]) = some true := by
  rw [opened_append, if_pos ⟨rfl, .inr hret⟩, h m, decide_eq_false hm]
  rfl

/-- The hooks do not alternate when the init of a listed module is run. -/
lemma Alternating.opened_init_listed {s : ModuleList Lib} (h : s.Alternating) {m : ModuleId Lib}
    (hm : s.Listed m) {ret : ℤ} (hret : 0 ≤ ret) :
    opened m (s.log ++ [⟨m, .init, ret⟩]) = none := by
  rw [opened_append, if_pos ⟨rfl, .inr hret⟩, h m, decide_eq_true hm]
  rfl

/-- A failed init does not count. -/
lemma opened_init_fail (m : ModuleId Lib) (log : List (HookRun Lib)) (m' : ModuleId Lib) {ret : ℤ}
    (hret : ret < 0) : opened m (log ++ [⟨m', .init, ret⟩]) = opened m log := by
  rw [opened_append, if_neg]
  rintro ⟨-, hhook | hpos⟩
  · cases hhook
  · exact absurd hpos (not_le.mpr hret)

/-- **An init and a last hook** of one module leave the hooks alternating, and the same modules
listed, exactly when the module is not listed and the last hook is its cleanup.

**Proof sketch.** After the init the module must be open and have been closed before, so it was not
listed; the last hook must close it again, which only a cleanup does. -/
lemma Alternating.init_last_iff {s : ModuleList Lib} (h : s.Alternating) (m : ModuleId Lib)
    (hook : Hook) {ret : ℤ} (hret : 0 ≤ ret) (ret' : ℤ) :
    Alternating { s with log := s.log ++ [⟨m, .init, ret⟩] ++ [⟨m, hook, ret'⟩] } ↔
      ¬ s.Listed m ∧ hook = .cleanup := by
  constructor
  · intro halt
    have hafter : opened m (s.log ++ [⟨m, .init, ret⟩] ++ [⟨m, hook, ret'⟩]) =
        some (decide (s.Listed m)) := halt m
    have hm : ¬ s.Listed m := fun hm => by
      rw [opened_append_none (h.opened_init_listed hm hret)] at hafter
      cases hafter
    rw [opened_append, h.opened_init hm hret, decide_eq_false hm] at hafter
    refine ⟨hm, ?_⟩
    cases hook with
    | init =>
      split_ifs at hafter
      · cases hafter
      · cases hafter
    | cleanup => rfl
  · rintro ⟨hm, rfl⟩ m'
    show opened m' (s.log ++ [⟨m, .init, ret⟩] ++ [⟨m, .cleanup, ret'⟩]) = some (decide (s.Listed m'))
    by_cases hid : m = m'
    · subst hid
      rw [opened_append, if_pos ⟨rfl, .inl rfl⟩, h.opened_init hm hret, decide_eq_false hm]
      rfl
    · rw [opened_append_of_ne _ hid, opened_append_of_ne _ hid, h m']

/-- **An init of a module that is listed then** leaves the hooks alternating exactly when it was not
listed before. -/
lemma Alternating.init_new_iff {s : ModuleList Lib} (h : s.Alternating) {mod : Module Lib}
    (hfind : s.modules.find? mod.name = none) {ret : ℤ} (hret : 0 ≤ ret) :
    Alternating { modules := s.modules.update mod.name fun _ => mod
                  log := s.log ++ [⟨mod.id, .init, ret⟩] } ↔ ¬ s.Listed mod.id := by
  constructor
  · intro halt hm
    have hafter := halt mod.id
    rw [h.opened_init_listed hm hret] at hafter
    cases hafter
  · intro hm m
    by_cases hid : mod.id = m
    · subst hid
      rw [decide_eq_true ((listed_update hfind).mpr (.inr rfl))]
      exact h.opened_init hm hret
    · rw [decide_eq_decide.mpr ((listed_update hfind).trans (or_iff_left hid)),
        opened_append_of_ne _ hid, h m]

/-- **A load** of a module that has been found keeps the hooks alternating, and runs no hook of a
module that stays loaded if it fails, exactly when the module is not listed and, if it is static,
its init fails or its name is not taken.

**Proof sketch.** By the cases of a load (`add_cases`): a failed init leaves all as it was, a module
that is listed must not be loaded again, and one whose name is taken is closed by its last hook,
which is another init for a static module. -/
lemma add_iff {s : ModuleList Lib} (h : s.Alternating) {mod : Module Lib} (hmod : mod.Found L)
    {r : Bool × ModuleList Lib} (hr : s.add L (Module.start L s.log mod true) = r) :
    (¬ s.Listed mod.id ∧ (mod.lastHook = .init →
        L.returns s.log.length < 0 ∨ s.modules.find? mod.name = none)) ↔
      r.2.Alternating ∧
        (r.1 = false → ∀ run ∈ r.2.log.drop s.log.length, ¬ r.2.Listed run.module) := by
  subst hr
  rcases add_cases s hmod with ⟨hret, hadd⟩ | ⟨hret, hfind, hadd⟩ | ⟨hret, hfind, hadd⟩
  · -- the init fails
    rw [hadd]
    have hsame : ({ s with log := s.log ++ [⟨mod.id, .init, L.returns s.log.length⟩] } :
        ModuleList Lib).Alternating := fun m => by
      rw [opened_init_fail m s.log mod.id hret, h m]
      rfl
    rw [iff_true_intro hsame, true_and, List.drop_left]
    constructor
    · rintro ⟨hm, -⟩ - run hrun
      rw [List.mem_singleton.mp hrun]
      exact hm
    · intro hclean
      exact ⟨hclean rfl _ (List.mem_singleton_self _), fun _ => .inl hret⟩
  · -- the name is taken
    rw [hadd, h.init_last_iff mod.id mod.lastHook hret, List.append_assoc, List.drop_left]
    constructor
    · rintro ⟨hm, hstatic⟩
      refine ⟨⟨hm, ?_⟩, fun _ run hrun => ?_⟩
      · cases hhook : mod.lastHook with
        | init =>
          rcases hstatic hhook with hfail | hnone
          · omega
          · exact absurd hnone hfind
        | cleanup => rfl
      · rcases List.mem_pair.mp hrun with rfl | rfl
        · exact hm
        · exact hm
    · rintro ⟨⟨hm, hcleanup⟩, -⟩
      refine ⟨hm, fun hhook => ?_⟩
      rw [hcleanup] at hhook
      cases hhook
  · -- the module is listed
    rw [hadd, h.init_new_iff hfind hret]
    constructor
    · rintro ⟨hm, -⟩
      exact ⟨hm, fun hfail => by cases hfail⟩
    · rintro ⟨hm, -⟩
      exact ⟨hm, fun _ => .inr hfind⟩

end Load

/-! ## Unloading -/

/-- A static module is one whose last hook is its init. -/
lemma lastHook_eq_cleanup_iff (mod : Module Lib) :
    mod.lastHook = .cleanup ↔ mod.id ≠ .static mod.name := by
  obtain ⟨handle, l, name⟩ := mod
  cases handle with
  | shared lib => simp [Module.lastHook, Module.id]
  | static => simp [Module.lastHook, Module.id]

/-- A static module has the name that tells which one it is. -/
lemma name_of_id {mod : Module Lib} {name : Bytes} (h : mod.id = .static name) :
    mod.name = name := by
  obtain ⟨handle, l, n⟩ := mod
  cases handle with
  | shared lib => cases h
  | static => exact ModuleId.static.inj h

/-- What is listed after an entry has been erased. -/
lemma WellFormed.listed_erase {s : ModuleList Lib} (hs : s.WellFormed L) {name : Bytes}
    {e : Bytes × Module Lib} (hfind : s.modules.find? name = some e) {log : List (HookRun Lib)}
    {m : ModuleId Lib} :
    ({ modules := s.modules.erase name, log } : ModuleList Lib).Listed m ↔
      s.Listed m ∧ e.2.id ≠ m := by
  obtain ⟨he, hname⟩ := OrderedMap.find?_eq_some_iff.mp hfind
  constructor
  · rintro ⟨e', he', hid⟩
    obtain ⟨he', hother⟩ := OrderedMap.mem_erase.mp he'
    refine ⟨⟨e', he', hid⟩, fun h => hother ?_⟩
    rwa [hs.eq_of_id he' he (hid.trans h.symm)]
  · rintro ⟨⟨e', he', hid⟩, hne⟩
    refine ⟨e', OrderedMap.mem_erase.mpr ⟨he', fun hsame => hne ?_⟩, hid⟩
    rw [← hid, OrderedMap.eq_of_same he he' (hname.trans hsame.symm)]

section Unload

variable [DecidableEq Lib]

/-- The last hook of a module is not one of another. -/
lemma opened_unloadModule_of_ne {mod : Module Lib} (hmod : mod.Found L) (log : List (HookRun Lib))
    {m : ModuleId Lib} (h : mod.id ≠ m) :
    opened m (Module.unloadModule L log mod) = opened m log := by
  rw [unloadModule_of_found hmod]
  exact opened_append_of_ne _ h

/-- The last hook of a module is its cleanup, if it is shared. -/
lemma opened_unloadModule_iff {mod : Module Lib} (hmod : mod.Found L) {log : List (HookRun Lib)}
    (hopen : opened mod.id log = some true) :
    opened mod.id (Module.unloadModule L log mod) = some false ↔ mod.lastHook = .cleanup := by
  rw [unloadModule_of_found hmod, opened_append, hopen]
  cases hhook : mod.lastHook with
  | init =>
    refine iff_of_false ?_ (by simp)
    split_ifs <;> simp [toggle]
  | cleanup => exact iff_of_true (if_pos ⟨rfl, .inl rfl⟩) rfl

/-- **The loop of `unload_all`** over different modules that are all open.

**Proof sketch.** By induction on the modules. Each unload runs the last hook of its module, and
leaves the others as they are; the modules are different, so no module is closed twice. -/
lemma opened_unloadEach {es : List (Bytes × Module Lib)} (hfound : ∀ e ∈ es, e.2.Found L)
    (hdiff : es.Pairwise fun e e' => e.2.id ≠ e'.2.id) (log : List (HookRun Lib))
    (hopen : ∀ e ∈ es, opened e.2.id log = some true) (m : ModuleId Lib) :
    (∀ e ∈ es, e.2.id = m →
      (opened m (unloadEach L log es).2 = some false ↔ e.2.lastHook = .cleanup)) ∧
    ((∀ e ∈ es, e.2.id ≠ m) → opened m (unloadEach L log es).2 = opened m log) := by
  induction es generalizing log with
  | nil => exact ⟨by simp, fun _ => rfl⟩
  | cons e es ih =>
    obtain ⟨hmod, hfound⟩ := List.forall_mem_cons.mp hfound
    obtain ⟨hne, hdiff⟩ := List.pairwise_cons.mp hdiff
    obtain ⟨hfirst, hopen⟩ := List.forall_mem_cons.mp hopen
    have hrest : ∀ e' ∈ es, opened e'.2.id (Module.unloadModule L log e.2) = some true := by
      intro e' he'
      rw [opened_unloadModule_of_ne hmod log (hne e' he'), hopen e' he']
    obtain ⟨ih₁, ih₂⟩ := ih hfound hdiff (Module.unloadModule L log e.2) hrest
    rw [unloadEach, if_pos hmod.1]
    refine ⟨fun e' he' hid => ?_, fun hother => ?_⟩
    · rcases List.mem_cons.mp he' with rfl | he'
      · subst hid
        rw [ih₂ fun e'' he'' => (hne e'' he'').symm]
        exact opened_unloadModule_iff hmod hfirst
      · exact ih₁ e' he' hid
    · obtain ⟨hhead, htail⟩ := List.forall_mem_cons.mp hother
      rw [ih₂ htail]
      exact opened_unloadModule_of_ne hmod log hhead

/-- **An unload** keeps the hooks alternating exactly when the module is shared.

**Proof sketch.** The module is open, and after the unload it is not listed, so its last hook has to
close it; that of a static module does not. -/
lemma unloadModule_iff {s : ModuleList Lib} (hs : s.WellFormed L) (h : s.Alternating)
    (name : Bytes) :
    (∀ e, s.modules.find? name = some e → e.2.id ≠ .static name) ↔
      (s.unloadModule L name).2.Alternating := by
  rw [unloadModule]
  cases hfind : s.modules.find? name with
  | none => exact iff_of_true (by simp) h
  | some e =>
    obtain ⟨he, hname⟩ := OrderedMap.find?_eq_some_iff.mp hfind
    rw [same_nameLess] at hname
    have hmod := hs.found e he
    have hopen : opened e.2.id s.log = some true := by
      rw [h, decide_eq_true ⟨e, he, rfl⟩]
    have hlast : (∀ e', some e = some e' → e'.2.id ≠ .static name) ↔
        e.2.lastHook = .cleanup := by
      rw [lastHook_eq_cleanup_iff, hs.name e he, hname]
      simp
    rw [hlast, ← opened_unloadModule_iff hmod hopen]
    constructor
    · intro hclosed m
      by_cases hid : e.2.id = m
      · subst hid
        rw [decide_eq_false fun hl => ((hs.listed_erase hfind).mp hl).2 rfl]
        exact hclosed
      · rw [decide_eq_decide.mpr ((hs.listed_erase hfind).trans (and_iff_left hid)), ← h m]
        exact opened_unloadModule_of_ne hmod s.log hid
    · intro halt
      have hafter := halt e.2.id
      rwa [decide_eq_false fun hl => ((hs.listed_erase hfind).mp hl).2 rfl] at hafter

/-- **`unload_all`** keeps the hooks alternating exactly when no listed module is static.

**Proof sketch.** The modules of the list are different and open. After the loop none is listed, so
the last hook of each has to close it (`opened_unloadEach`); that of a static module does not. -/
lemma unloadAll_iff {s : ModuleList Lib} (hs : s.WellFormed L) (h : s.Alternating) :
    (∀ name, ¬ s.Listed (.static name)) ↔ (s.unloadAll L).2.Alternating := by
  have hdiff : s.modules.entries.Pairwise fun e e' => e.2.id ≠ e'.2.id :=
    s.modules.sorted.imp_of_mem fun he he' hlt hid => by
      rw [hs.eq_of_id he he' hid] at hlt
      exact irrefl_of NameLess _ hlt
  have hopen : ∀ e ∈ s.modules.entries, opened e.2.id s.log = some true := by
    intro e he
    rw [h, decide_eq_true ⟨e, he, rfl⟩]
  have heach := opened_unloadEach hs.found hdiff s.log hopen
  have hnone : ∀ m, ¬ (s.unloadAll L).2.Listed m := by
    rintro m ⟨e, he, -⟩
    exact absurd he List.not_mem_nil
  constructor
  · intro hshared m
    rw [decide_eq_false (hnone m)]
    by_cases hm : s.Listed m
    · obtain ⟨e, he, hid⟩ := hm
      refine ((heach m).1 e he hid).mpr ((lastHook_eq_cleanup_iff _).mpr fun hstatic => ?_)
      exact hshared _ ⟨e, he, hstatic⟩
    · have hother : opened m (s.unloadAll L).2.log = opened m s.log :=
        (heach m).2 fun e he hid => hm ⟨e, he, hid⟩
      rw [hother, h m, decide_eq_false hm]
  · rintro halt name ⟨e, he, hid⟩
    have hclosed := halt (.static name)
    rw [decide_eq_false (hnone _)] at hclosed
    have hcleanup := ((heach _).1 e he hid).mp hclosed
    rw [lastHook_eq_cleanup_iff, name_of_id hid] at hcleanup
    exact hcleanup hid

end Unload

/-! ## Calls -/

/-- A library that is listed has a name. -/
lemma WellFormed.name_of_listed {s : ModuleList Lib} (hs : s.WellFormed L) {lib : Lib}
    (h : s.Listed (.shared lib)) : ∃ name, (L.shared lib).name = some name := by
  obtain ⟨⟨k, handle, l, name⟩, he, hid⟩ := h
  have hfound := (hs.found _ he).2
  cases handle with
  | shared lib' =>
    obtain rfl := ModuleId.shared.inj hid
    exact ⟨name, hfound⟩
  | static => cases hid

/-- A static module is listed under its name. -/
lemma WellFormed.not_listed_of_find?_eq_none {s : ModuleList Lib} (hs : s.WellFormed L)
    {name : Bytes} (h : s.modules.find? name = none) : ¬ s.Listed (.static name) := by
  rintro ⟨e, he, hid⟩
  refine OrderedMap.find?_eq_none_iff.mp h e he (same_nameLess.mpr ?_)
  rw [← hs.name e he, name_of_id hid]

/-- What is listed after an unload is well formed. -/
lemma WellFormed.erase {s : ModuleList Lib} (hs : s.WellFormed L) (name : Bytes)
    (log : List (HookRun Lib)) :
    WellFormed L { modules := s.modules.erase name, log } where
  found e he := hs.found e (OrderedMap.mem_erase.mp he).1
  name e he := hs.name e (OrderedMap.mem_erase.mp he).1

/-- **A call** leaves what is listed well formed.

**Proof sketch.** By cases on the call. A load adds an entry for the module that has been found, all
others take entries away. -/
lemma WellFormed.call {s : ModuleList Lib} (hs : s.WellFormed L) (c : ModuleCall) :
    (s.call L c).2.WellFormed L := by
  cases c with
  | loadModule path =>
    rw [ModuleList.call, loadModule]
    rcases loadModule_cases (L := L) s.log path with ⟨hload, -⟩ | ⟨lib, name, -, hmod, hload⟩
    · rw [hload]
      exact hs
    · rw [hload]
      exact hs.add hmod
  | loadStaticModule name =>
    rw [ModuleList.call, loadStaticModule]
    rcases loadStaticModule_cases (L := L) s.log name with ⟨hload, -⟩ | ⟨-, hmod, hload⟩
    · rw [hload]
      exact hs
    · rw [hload]
      exact hs.add hmod
  | unloadModule name =>
    rw [ModuleList.call, unloadModule]
    cases s.modules.find? name with
    | none => exact hs
    | some e => exact hs.erase name _
  | unloadAll =>
    exact ⟨fun e he => absurd he List.not_mem_nil, fun e he => absurd he List.not_mem_nil⟩

variable [DecidableEq Lib]

/-- **A call** keeps the hooks alternating, and is clean if it fails, exactly under the condition.

**Proof sketch.** By cases on the call, each of which has a lemma above; a module that is not found
changes nothing. -/
lemma call_iff {s : ModuleList Lib} (hs : s.WellFormed L) (h : s.Alternating) (c : ModuleCall) :
    s.KeepsHooks L c ↔ (s.call L c).2.Alternating ∧ s.FailsClean L c := by
  have hnothing : s.Alternating ∧
      (false = false → ∀ run ∈ s.log.drop s.log.length, ¬ s.Listed run.module) :=
    ⟨h, fun _ => by simp⟩
  cases c with
  | loadModule path =>
    rw [FailsClean, call, loadModule, KeepsHooks]
    rcases loadModule_cases (L := L) s.log path with ⟨hload, hnone⟩ | ⟨lib, name, hopen, hmod, hload⟩
    · rw [hload]
      refine iff_of_true (fun lib hopen hlisted => ?_) hnothing
      obtain ⟨name, hname⟩ := hs.name_of_listed hlisted
      rw [hnone lib hopen] at hname
      cases hname
    · rw [hload, hopen, ← add_iff h hmod rfl]
      simp [Module.lastHook, Module.id]
  | loadStaticModule name =>
    rw [FailsClean, call, loadStaticModule, KeepsHooks]
    rcases loadStaticModule_cases (L := L) s.log name with ⟨hload, hnone⟩ | ⟨hname, hmod, hload⟩
    · rw [hload]
      exact iff_of_true (.inl hnone) hnothing
    · rw [hload, hname, ← add_iff h hmod rfl]
      have hfree : s.modules.find? name = none → ¬ s.Listed (.static name) :=
        hs.not_listed_of_find?_eq_none
      simp only [Module.lastHook, Module.id, reduceCtorEq, false_or, forall_const]
      tauto
  | unloadModule name =>
    rw [KeepsHooks, unloadModule_iff hs h name]
    refine (and_iff_left ?_).symm
    rw [FailsClean, call, unloadModule]
    cases s.modules.find? name with
    | none => exact hnothing.2
    | some e => exact fun hfail => by cases hfail
  | unloadAll =>
    rw [KeepsHooks, unloadAll_iff hs h]
    exact (and_iff_left fun hfail => by cases hfail).symm

/-- **The hooks of each module alternate** in every state that calls lead to that unload no static
module and load no module that is listed; and whichever call comes next keeps them alternating, and
runs no hook of a module that stays loaded if it fails, exactly if it is such a call.

**Proof sketch.** The invariant holds at the start, and every call under the condition keeps it.
That the condition is needed is seen call by call: each of the excluded ones runs a hook out of
turn. -/
theorem hooks_alternate {calls : List ModuleCall} {s : ModuleList Lib}
    (hrun : Run (Under (Calls L) (KeepsHooks L)) empty calls s) :
    s.Alternating ∧
      ∀ c, s.KeepsHooks L c ↔ (s.call L c).2.Alternating ∧ s.FailsClean L c := by
  have hempty : WellFormed L empty ∧ (empty : ModuleList Lib).Alternating := by
    refine ⟨⟨fun e he => absurd he List.not_mem_nil, fun e he => absurd he List.not_mem_nil⟩,
      fun m => ?_⟩
    have hm : ¬ (empty : ModuleList Lib).Listed m := by
      rintro ⟨e, he, -⟩
      exact absurd he List.not_mem_nil
    rw [decide_eq_false hm]
    rfl
  have hgood : WellFormed L s ∧ s.Alternating :=
    hrun.preserves (I := fun s => WellFormed L s ∧ s.Alternating) (fun s c t hs hstep => by
      obtain ⟨hcall, hkeeps⟩ := hstep
      obtain rfl := Option.some.inj hcall
      exact ⟨hs.1.call c, ((call_iff hs.1 hs.2 c).mp hkeeps).1⟩) hempty
  exact ⟨hgood.2, call_iff hgood.1 hgood.2⟩

/-- A library `a` and a static module `b`, whose hooks succeed. Nothing else can be found. -/
def twoModules : Linker Unit where
  dlopen path := if path = [97] then some () else none
  shared _ := ⟨some [97], true, true⟩
  static name := if name = [98] then ⟨some [98], true, true⟩ else ⟨none, false, false⟩
  returns _ := 0
  shared_hooks _ _ _ := ⟨rfl, rfl⟩
  static_hooks n name h := by
    split_ifs at h ⊢ with hn
    exact ⟨(Option.some.inj h).symm.trans hn.symm, rfl, rfl⟩

/-- The library is loaded twice, and unloaded in between; the static module is loaded.

**Proof sketch.** The four calls are evaluated, and each of them meets the condition; the rest is
the general theorem. -/
theorem hooks_alternate_reload :
    ∃ calls s, Run (Under (Calls twoModules) (KeepsHooks twoModules)) empty calls s ∧
      s.log.length = 4 ∧ s.Alternating ∧
      ∀ c, s.KeepsHooks twoModules c ↔
        (s.call twoModules c).2.Alternating ∧ s.FailsClean twoModules c := by
  have hrun : ∃ s, Run (Under (Calls twoModules) (KeepsHooks twoModules)) empty
      [.loadModule [97], .loadStaticModule [98], .unloadModule [97], .loadModule [97]] s ∧
        s.log.length = 4 := by
    refine ⟨_, .cons ⟨rfl, ?_⟩ (.cons ⟨rfl, ?_⟩ (.cons ⟨rfl, ?_⟩ (.cons ⟨rfl, ?_⟩ (.nil _)))),
      by decide⟩
    · exact fun () _ => by decide
    · exact .inr (.inl (by decide))
    · intro e he
      obtain rfl := Option.some.inj he
      decide
    · exact fun () _ => by decide
  obtain ⟨s, hrun, hlength⟩ := hrun
  exact ⟨_, s, hrun, hlength, hooks_alternate hrun⟩

/-- **Hooks that do not alternate**: a static module is loaded and unloaded; and a library is loaded
twice. -/
theorem not_hooks_alternate :
    (∃ s, Run (Calls twoModules) empty [.loadStaticModule [98], .unloadModule [98]] s ∧
      s.log.map HookRun.hook = [.init, .init] ∧ ¬ s.Alternating) ∧
    ∃ s, Run (Calls twoModules) empty [.loadModule [97], .loadModule [97]] s ∧
      s.log.map HookRun.hook = [.init, .init, .cleanup] ∧ ¬ s.Alternating := by
  constructor
  · refine ⟨_, .cons rfl (.cons rfl (.nil _)), by decide, fun h => ?_⟩
    exact absurd (h (.static [98])) (by decide)
  · refine ⟨_, .cons rfl (.cons rfl (.nil _)), by decide, fun h => ?_⟩
    exact absurd (h (.shared ())) (by decide)

end ModuleList

end Meowbot
