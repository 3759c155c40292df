import Meowbot.Lib.OrderedMap
import Meowbot.Lib.Strcmp
import Meowbot.Wildcard

set_option relaxedAutoImplicit false
set_option autoImplicit false

/-!
# The command table (`ircbot.cpp`, `ircstring.h`)

The table of commands is a `std::map` whose keys are compared by `strcasecmp`. A module registers
its commands when it is loaded and unregisters the same names when it is unloaded. A name that is
taken is not registered, which the modules do not look at, and a command is unregistered by its
name, whoever has registered it. So a module takes away every command that has one of its names, its
own or not.

## Main definitions

* `Meowbot.strcasecmp` — the comparison; `Meowbot.CaselessStrmap` — `caseless_strmap`.
* `Meowbot.registerCmd`, `Meowbot.unregisterCmd`, `Meowbot.getCmdHandler` — the operations.
* `Meowbot.CmdModule.init`, `Meowbot.CmdModule.cleanup` — what a module does with the table.

## Main results

* `Meowbot.mem_cleanup_init` — what is left of a table when a module has come and gone.
* `Meowbot.cleanup_init_iff` — the table is as it was before exactly when no name was taken.
-/

namespace Meowbot

/-! ## The table -/

/-- `strcasecmp` -/
def strcasecmp (s1 s2 : Bytes) : ℤ :=
  Strcmp.loop (fun c => ((tolower c).toNat : ℤ)) (cstr s1) (cstr s2)

/-- `caseless_string_lesscomparator` -/
def CaselessLess (s1 s2 : Bytes) : Prop := strcasecmp s1 s2 < 0

instance : DecidableRel CaselessLess := fun s1 s2 =>
  inferInstanceAs (Decidable (strcasecmp s1 s2 < 0))

/-- A byte of a C string has no value zero. -/
lemma toNat_tolower_ne_zero (s : Bytes) : ∀ x ∈ cstr s, ((tolower x).toNat : ℤ) ≠ 0 := by
  intro x hx h
  have hne : x ≠ 0 := by
    rintro rfl
    exact zero_notMem_cstr s hx
  exact tolower_ne_zero hne (UInt8.toNat_inj.mp (Int.ofNat_eq_zero.mp h))

/-- **The comparator is a strict weak order.** -/
instance : IsStrictWeakOrder Bytes CaselessLess :=
  Strcmp.isStrictWeakOrder cstr toNat_tolower_ne_zero

/-- Names count as the same when they compare equal. -/
lemma same_caselessLess (s t : Bytes) :
    OrderedMap.Same CaselessLess s t ↔ strcasecmp s t = 0 := by
  have hswap : strcasecmp t s = -strcasecmp s t := Strcmp.loop_swap _ _
  rw [OrderedMap.Same, CaselessLess, CaselessLess, hswap]
  omega

/-- `caseless_strmap` -/
abbrev CaselessStrmap (α : Type) := OrderedMap CaselessLess α

/-- `cmd_handler`, its two pointers as addresses. -/
structure CmdHandler where
  handler : ℕ
  userdata : ℕ
  deriving DecidableEq

/-- The type of `cmd_handlers`. -/
abbrev CmdHandlers := CaselessStrmap CmdHandler

/-- `ircbot::register_cmd` -/
def registerCmd (t : CmdHandlers) (name : Bytes) (h : CmdHandler) : Bool × CmdHandlers :=
  match t.find? name with
  | none => (true, t.update name fun _ => h)
  | some _ => (false, t)

/-- `ircbot::unregister_cmd` -/
def unregisterCmd (t : CmdHandlers) (name : Bytes) : Bool × CmdHandlers :=
  match t.find? name with
  | none => (false, t)
  | some _ => (true, t.erase name)

/-- `ircbot::get_cmd_handler` -/
def getCmdHandler (t : CmdHandlers) (name : Bytes) : Option CmdHandler := t.get? name

/-- A name is taken in a table. -/
def Taken (t : CmdHandlers) (name : Bytes) : Prop := ∃ e ∈ t.entries, strcasecmp e.1 name = 0

/-- A name is not taken when nothing is found. -/
lemma find?_eq_none_iff_not_taken {t : CmdHandlers} {name : Bytes} :
    t.find? name = none ↔ ¬ Taken t name := by
  simp only [OrderedMap.find?_eq_none_iff, Taken, same_caselessLess, not_exists, not_and]

/-- **Registration** leaves the entries of other names alone. -/
lemma mem_registerCmd {t : CmdHandlers} {name : Bytes} {h : CmdHandler} {e : Bytes × CmdHandler}
    (hne : strcasecmp e.1 name ≠ 0) : e ∈ (registerCmd t name h).2.entries ↔ e ∈ t.entries := by
  rw [registerCmd]
  cases t.find? name with
  | none => exact OrderedMap.mem_update_of_not_same fun hs => hne ((same_caselessLess _ _).mp hs)
  | some e' => rfl

/-- **Unregistration** removes the entry of the name, whichever it is. -/
lemma mem_unregisterCmd {t : CmdHandlers} {name : Bytes} {e : Bytes × CmdHandler} :
    e ∈ (unregisterCmd t name).2.entries ↔ e ∈ t.entries ∧ strcasecmp e.1 name ≠ 0 := by
  rw [unregisterCmd]
  cases hfind : t.find? name with
  | none =>
    refine ⟨fun he => ⟨he, fun hs => ?_⟩, And.left⟩
    exact find?_eq_none_iff_not_taken.mp hfind ⟨e, he, hs⟩
  | some e' =>
    show e ∈ (t.erase name).entries ↔ _
    rw [OrderedMap.mem_erase, same_caselessLess]

/-- A registered name is taken, and so is every name that was taken before. -/
lemma taken_registerCmd {t : CmdHandlers} {name : Bytes} (h : CmdHandler) {n : Bytes} :
    Taken (registerCmd t name h).2 n ↔ Taken t n ∨ strcasecmp name n = 0 := by
  have hget (t : CmdHandlers) : Taken t n ↔ (t.get? n).isSome := by
    rw [OrderedMap.get?, Option.isSome_map, ← not_iff_not, ← find?_eq_none_iff_not_taken,
      Option.not_isSome_iff_eq_none]
  have hsymm : strcasecmp name n = 0 ↔ OrderedMap.Same CaselessLess n name := by
    rw [← same_caselessLess]
    exact ⟨OrderedMap.Same.symm, OrderedMap.Same.symm⟩
  rw [registerCmd]
  cases hfind : t.find? name with
  | none =>
    rw [hget, hget, OrderedMap.get?_update, hsymm]
    split_ifs with hs <;> simp [hs]
  | some e =>
    obtain ⟨he, hs⟩ := OrderedMap.find?_eq_some_iff.mp hfind
    refine (or_iff_left_of_imp fun hn => ⟨e, he, ?_⟩).symm
    exact (same_caselessLess _ _).mp (hs.trans ((same_caselessLess _ _).mpr hn))

/-! ## Modules -/

/-- A module with the commands that it registers. -/
structure CmdModule where
  cmds : List (Bytes × CmdHandler)

/-- What `mod_..._init` does with the table. -/
def CmdModule.init (m : CmdModule) (t : CmdHandlers) : CmdHandlers :=
  m.cmds.foldl (fun t cmd => (registerCmd t cmd.1 cmd.2).2) t

/-- What `mod_..._cleanup` does with the table. -/
def CmdModule.cleanup (m : CmdModule) (t : CmdHandlers) : CmdHandlers :=
  m.cmds.foldl (fun t cmd => (unregisterCmd t cmd.1).2) t

/-- What a module registers does not touch the entries of other names. -/
lemma CmdModule.mem_init {m : CmdModule} {t : CmdHandlers} {e : Bytes × CmdHandler}
    (hne : ∀ cmd ∈ m.cmds, strcasecmp e.1 cmd.1 ≠ 0) : e ∈ (m.init t).entries ↔ e ∈ t.entries := by
  obtain ⟨cmds⟩ := m
  simp only [init] at hne ⊢
  induction cmds generalizing t with
  | nil => rfl
  | cons cmd cmds ih =>
    obtain ⟨hcmd, hcmds⟩ := List.forall_mem_cons.mp hne
    rw [List.foldl_cons, ih hcmds, mem_registerCmd hcmd]

/-- The names that are taken when a module has been loaded. -/
lemma CmdModule.taken_init {m : CmdModule} {t : CmdHandlers} {n : Bytes} :
    Taken (m.init t) n ↔ Taken t n ∨ ∃ cmd ∈ m.cmds, strcasecmp cmd.1 n = 0 := by
  obtain ⟨cmds⟩ := m
  simp only [init]
  induction cmds generalizing t with
  | nil => simp
  | cons cmd cmds ih =>
    rw [List.foldl_cons, ih, taken_registerCmd, List.exists_mem_cons_iff, or_assoc]

/-- A module that is unloaded removes the entries of all its names. -/
lemma CmdModule.mem_cleanup {m : CmdModule} {t : CmdHandlers} {e : Bytes × CmdHandler} :
    e ∈ (m.cleanup t).entries ↔ e ∈ t.entries ∧ ∀ cmd ∈ m.cmds, strcasecmp e.1 cmd.1 ≠ 0 := by
  obtain ⟨cmds⟩ := m
  simp only [cleanup]
  induction cmds generalizing t with
  | nil => simp
  | cons cmd cmds ih =>
    rw [List.foldl_cons, ih, mem_unregisterCmd, List.forall_mem_cons, and_assoc]

/-- **What is left of a table** when a module has come and gone: the entries of other names. -/
lemma mem_cleanup_init {m : CmdModule} {t : CmdHandlers} {e : Bytes × CmdHandler} :
    e ∈ (m.cleanup (m.init t)).entries ↔
      e ∈ t.entries ∧ ∀ cmd ∈ m.cmds, strcasecmp e.1 cmd.1 ≠ 0 := by
  rw [CmdModule.mem_cleanup]
  exact and_congr_left CmdModule.mem_init

/-- **A module leaves no trace** exactly when none of its names was taken. -/
lemma cleanup_init_eq_iff {m : CmdModule} {t : CmdHandlers} :
    m.cleanup (m.init t) = t ↔ ∀ cmd ∈ m.cmds, ¬ Taken t cmd.1 := by
  constructor
  · rintro heq cmd hcmd ⟨e, he, hs⟩
    rw [← heq, mem_cleanup_init] at he
    exact he.2 cmd hcmd hs
  · intro h
    refine OrderedMap.ext_of_mem fun e => ?_
    rw [mem_cleanup_init]
    exact and_iff_left_of_imp fun he cmd hcmd hs => h cmd hcmd ⟨e, he, hs⟩

/-- **The second of two modules** leaves the table as it was exactly when none of its names is taken
by the initial table or shared with the first module.

**Proof sketch.** Loading and unloading removes the entries of the names of the module and leaves
the others; so nothing is removed if and only if there are no such entries, and the names taken when
the second module comes are the initial ones and those of the first module. -/
theorem cleanup_init_iff (t : CmdHandlers) (a b : CmdModule) :
    b.cleanup (b.init (a.init t)) = a.init t ↔
      ∀ cmd ∈ b.cmds, (∀ e ∈ t.entries, strcasecmp e.1 cmd.1 ≠ 0) ∧
        ∀ cmd' ∈ a.cmds, strcasecmp cmd'.1 cmd.1 ≠ 0 := by
  rw [cleanup_init_eq_iff]
  refine forall₂_congr fun cmd _ => ?_
  rw [CmdModule.taken_init, not_or, Taken]
  push Not
  rfl

/-- **A command of two modules** is gone when the second one is unloaded. -/
theorem not_cleanup_init :
    let a : CmdModule := ⟨[(bytes "say", ⟨1, 0⟩)]⟩
    let b : CmdModule := ⟨[(bytes "Say", ⟨2, 0⟩)]⟩
    getCmdHandler (a.init .empty) (bytes "say") = some ⟨1, 0⟩ ∧
      getCmdHandler (b.init (a.init .empty)) (bytes "say") = some ⟨1, 0⟩ ∧
      getCmdHandler (b.cleanup (b.init (a.init .empty))) (bytes "say") = none ∧
      b.cleanup (b.init (a.init .empty)) ≠ a.init .empty := by
  intro a b
  have hgone : getCmdHandler (b.cleanup (b.init (a.init .empty))) (bytes "say") = none := by
    decide
  have hthere : getCmdHandler (a.init .empty) (bytes "say") = some ⟨1, 0⟩ := by decide
  refine ⟨hthere, by decide, hgone, fun heq => ?_⟩
  rw [heq, hthere] at hgone
  cases hgone

end Meowbot
