import Meowbot.MainLoop

set_option relaxedAutoImplicit false
set_option autoImplicit false

/-!
# Which lines the main loop survives

The handlers with a fixed index are sound because the parameters are padded. The two loops that
compute their indexes are not: the one over the letters of MODE relies on meeting an empty
parameter, which the padding provides for fewer than 32 parameters only, and the one over the
tokens of 005 runs up to `nparam - 1`, which is 4294967295 for a line without parameters.

## Main definitions

* `Meowbot.modeArgs` — the number of parameters a MODE string asks for.
* `Meowbot.SafeLine` — the lines on which no parameter out of range is asked for.

## Main results

* `Meowbot.modeLoop_ok_iff`, `Meowbot.isupportLoop_ok_iff` — when the loops stay in range.
* `Meowbot.Irc.processLine_robust_iff` — a line is processed within the vector of parameters, in a
  number of steps linear in its length, exactly when it is safe.
-/

namespace Meowbot

/-- The number of letters of a MODE string that take a parameter, from a sign on. -/
def modeArgs (sign : Byte) : Bytes → ℕ
  | [] => 0
  | mode :: modes =>
    if mode = '+' ∨ mode = '-' then modeArgs mode modes
    else if (modePrefix mode).isSome ∨ modeTakesParam sign mode then modeArgs sign modes + 1
    else modeArgs sign modes

/-- The MODE messages whose letters find their parameters: there is padding, or an empty parameter
that ends the loop, or there are enough parameters. -/
def SafeMode (m : Message) : Prop :=
  m.nparam < 32 ∨ [] ∈ m.given.drop 2 ∨
    ∀ sign modes, cstr (m.arg 1) = sign :: modes → 2 + modeArgs sign modes ≤ m.nparam

/-- The lines on which no parameter out of range is asked for. -/
def SafeLine (line : Bytes) : Prop :=
  ∀ m, Message.ofLine line = some m →
    (Command.ofBytes m.cmd = .mode → SafeMode m) ∧
    (Command.ofBytes m.cmd = .isupport → m.nparam ≠ 0)

/-! ## The letters of MODE -/

/-- **One letter** either takes no parameter and leaves the index, or takes the parameter at the
index, ends the loop if that is empty and advances the index otherwise.

**Proof sketch.** By cases as in the source: a sign, a status of a user, another letter that takes a
parameter, and one that takes none. -/
lemma modeLetter_cases (m : Message) (chan : Bytes) (v : ModeVars) (mode : Byte)
    (modes : Bytes) :
    (∃ v', modeLetter m chan v mode = .ok (some v') ∧ v'.pi = v.pi ∧
      modeArgs v.sign (mode :: modes) = modeArgs v'.sign modes) ∨
    (∃ apply, modeLetter m chan v mode = v.withParam m chan mode apply ∧
      modeArgs v.sign (mode :: modes) = modeArgs v.sign modes + 1) := by
  by_cases hsign : mode = '+' ∨ mode = '-'
  · exact .inl ⟨{ v with sign := mode }, by rw [modeLetter, if_pos hsign], rfl,
      by rw [modeArgs, if_pos hsign]⟩
  · rcases hmode : modePrefix mode with _ | newmode
    · by_cases hparam : modeTakesParam v.sign mode
      · exact .inr ⟨fun _ => v.irc, by simp only [modeLetter, if_neg hsign, hmode, if_pos hparam],
          by rw [modeArgs, if_neg hsign, if_pos (.inr hparam)]⟩
      · exact .inl ⟨{ v with irc := v.irc.sendEvent (.mode m.origin chan [v.sign, mode] []) },
          by simp only [modeLetter, if_neg hsign, hmode, if_neg hparam], rfl,
          by rw [modeArgs, if_neg hsign, if_neg (by simp [hmode, hparam])]⟩
    · exact .inr ⟨fun nick => v.irc.setUserMode chan nick v.sign newmode,
        by simp only [modeLetter, if_neg hsign, hmode],
        by rw [modeArgs, if_neg hsign, if_pos (.inl (by simp [hmode]))]⟩

/-- A result survives a change of its value. -/
lemma exists_map_eq_ok {α β : Type} (x : Except Fault α) (f : α → β) :
    (∃ r, x.map f = .ok r) ↔ ∃ r, x = .ok r := by
  cases x with
  | ok a => simp [Except.map]
  | error e => simp [Except.map]

/-- **The loop over the letters** stays in range exactly when there are enough parameters or an
empty one ends it.

**Proof sketch.** Induction on the letters. A letter with a parameter at a valid index moves that
parameter from the parameters ahead to those behind; at the end of the vector it is a fault, and
there neither side of the condition holds. -/
lemma modeLoop_ok_iff (m : Message) (chan : Bytes) (v : ModeVars) (modes : Bytes)
    (hpi : v.pi ≤ m.params.length) :
    (∃ r, modeLoop m chan v modes = .ok r) ↔
      v.pi + modeArgs v.sign modes ≤ m.params.length ∨ [] ∈ m.params.drop v.pi := by
  induction modes generalizing v with
  | nil => simp [modeLoop, modeArgs, hpi]
  | cons mode modes ih =>
    rcases modeLetter_cases m chan v mode modes with
      ⟨v', hletter, hpi', hargs⟩ | ⟨apply, hletter, hargs⟩
    · rw [hargs, ← hpi', ← ih v' (hpi' ▸ hpi), modeLoop_cons_some hletter, exists_map_eq_ok]
    · rw [hargs]
      rcases Nat.lt_or_ge v.pi m.params.length with hlt | hge
      · rw [Message.drop_params hlt, List.mem_cons]
        by_cases hp : m.params.get ⟨v.pi, hlt⟩ = []
        · have hnone : modeLetter m chan v mode = .ok none := by
            rw [hletter, ModeVars.withParam, Message.at_of_lt hlt, hp]
            rfl
          rw [modeLoop_cons_none hnone, hp]
          simp
        · obtain ⟨v', hsome, hpi', hsign⟩ : ∃ v', modeLetter m chan v mode = .ok (some v') ∧
              v'.pi = v.pi + 1 ∧ v'.sign = v.sign := by
            rw [hletter, ModeVars.withParam, Message.at_of_lt hlt]
            refine ⟨_, if_neg hp, rfl, rfl⟩
          have hrest := ih v' (by omega)
          rw [hpi', hsign] at hrest
          have hne : ¬ [] = m.params.get ⟨v.pi, hlt⟩ := fun h => hp h.symm
          rw [modeLoop_cons_some hsome, exists_map_eq_ok, hrest]
          simp only [hne, false_or]
          rw [Nat.add_right_comm, Nat.add_assoc]
      · have herror : modeLetter m chan v mode = .error (.outOfRange v.pi m.params.length) := by
          rw [hletter, ModeVars.withParam, Message.at_of_le hge]
          rfl
        rw [modeLoop_cons_error herror, List.drop_eq_nil_of_le hge]
        simp
        omega

/-- The loop over the letters makes at most one step for each letter.

**Proof sketch.** By induction on the letters; a letter that ends the loop or fails takes no more
steps. -/
lemma modeLoop_steps {m : Message} {chan : Bytes} {v : ModeVars} {modes : Bytes} {r : Irc × ℕ}
    (h : modeLoop m chan v modes = .ok r) : r.2 ≤ modes.length := by
  induction modes generalizing v r with
  | nil =>
    obtain rfl := Except.ok.inj h
    exact le_rfl
  | cons mode modes ih =>
    rcases hletter : modeLetter m chan v mode with e | _ | v'
    · rw [modeLoop_cons_error hletter] at h
      cases h
    · rw [modeLoop_cons_none hletter] at h
      obtain rfl := Except.ok.inj h
      simp
    · rw [modeLoop_cons_some hletter] at h
      rcases hrest : modeLoop m chan v' modes with e | r'
      · rw [hrest] at h
        cases h
      · rw [hrest] at h
        obtain rfl := Except.ok.inj h
        exact Nat.succ_le_succ (ih hrest)

/-! ## The tokens of 005 and the names of 353 -/

/-- **The loop over the tokens** stays in range exactly when its bound does. -/
lemma isupportLoop_ok_iff (m : Message) (c : Irc) (i n : ℕ) :
    (∃ r, isupportLoop m c i n = .ok r) ↔ n = 0 ∨ i + n ≤ m.params.length := by
  induction n generalizing c i with
  | zero => simp [isupportLoop]
  | succ n ih =>
    rcases Nat.lt_or_ge i m.params.length with hlt | hge
    · rw [isupportLoop_succ (Message.at_of_lt hlt), exists_map_eq_ok, ih]
      omega
    · rw [isupportLoop_succ_error (Message.at_of_le hge)]
      simp
      omega

/-- The loop over the tokens makes as many steps as its bound says. -/
lemma isupportLoop_steps {m : Message} {c : Irc} {i n : ℕ} {r : Irc × ℕ}
    (h : isupportLoop m c i n = .ok r) : r.2 = n := by
  induction n generalizing c i r with
  | zero =>
    obtain rfl := Except.ok.inj h
    rfl
  | succ n ih =>
    rcases htoken : m.at i with e | token
    · rw [isupportLoop_succ_error htoken] at h
      cases h
    · rw [isupportLoop_succ htoken] at h
      rcases hrest : isupportLoop m (isupportToken c token) (i + 1) n with e | r'
      · rw [hrest] at h
        cases h
      · rw [hrest] at h
        obtain rfl := Except.ok.inj h
        exact congrArg (· + 1) (ih hrest)

/-- The loop over the names makes at most one step for each byte and one for the terminator. -/
lemma namesLoop_steps (chan : Bytes) (c : Irc) (arg s : Bytes) :
    (namesLoop chan c arg s).2 ≤ s.length + 1 := by
  induction s generalizing c arg with
  | nil => simp [namesLoop]
  | cons p ps ih =>
    rw [namesLoop, List.length_cons]
    split_ifs
    · exact Nat.succ_le_succ (Nat.zero_le _)
    · exact Nat.succ_le_succ (ih _ _)
    · exact Nat.succ_le_succ (ih _ _)

/-! ## The handlers -/

/-- A parameter is no longer than the line. -/
lemma Message.length_arg_le {line : Bytes} {m : Message} (h : Message.ofLine line = some m)
    (i : Fin 32) : (m.arg i).length ≤ line.length := by
  obtain ⟨l, hl, rfl⟩ := Option.map_eq_some_iff.mp h
  refine le_trans ?_ (parseIrcLine_weight hl)
  set m : Message := { ident := l.ident, cmd := l.cmd, given := l.params }
  rcases m.arg_mem i with hgiven | hpad
  · exact length_le_paramWeight_of_mem hgiven
  · rw [hpad]
    exact Nat.zero_le _

/-- A line has no more parameters than bytes. -/
lemma Message.nparam_le {line : Bytes} {m : Message} (h : Message.ofLine line = some m) :
    m.nparam ≤ line.length := by
  obtain ⟨l, hl, rfl⟩ := Option.map_eq_some_iff.mp h
  exact le_trans (length_le_paramWeight _) (parseIrcLine_weight hl)

/-- The condition of the loop, in terms of the parameters given.

**Proof sketch.** The parameters are those given, padded with empty ones up to 32. So with fewer
than 32 an empty one is behind the second, and with 32 or more the last letter for which a parameter
is asked decides. -/
lemma safeMode_iff {m : Message} (hn : 2 ≤ m.nparam) {sign : Byte} {modes : Bytes}
    (hmodes : cstr (m.arg 1) = sign :: modes) :
    SafeMode m ↔ 2 + modeArgs sign modes ≤ m.params.length ∨ [] ∈ m.params.drop 2 := by
  have hlast : (∀ sign' modes', cstr (m.arg 1) = sign' :: modes' →
      2 + modeArgs sign' modes' ≤ m.nparam) ↔ 2 + modeArgs sign modes ≤ m.nparam := by
    rw [hmodes]
    constructor
    · exact fun h => h sign modes rfl
    · intro h sign' modes' heq
      obtain ⟨rfl, rfl⟩ := List.cons_eq_cons.mp heq
      exact h
  rw [SafeMode, hlast]
  by_cases h32 : m.nparam < 32
  · have hpad : [] ∈ m.params.drop 2 := by
      have hn' : 2 ≤ m.given.length := hn
      rw [Message.params, if_pos h32, List.drop_append_of_le_length hn', List.mem_append,
        List.mem_replicate]
      exact .inr ⟨by omega, rfl⟩
    exact ⟨fun _ => .inr hpad, fun _ => .inl h32⟩
  · rw [Message.params, if_neg h32]
    exact ⟨fun h => (h.resolve_left h32).symm, fun h => .inr h.symm⟩

/-- **The MODE handler** stays in range exactly on safe messages. -/
lemma onMode_ok_iff (c : Irc) (m : Message) : (∃ h, onMode c m = .ok h) ↔ SafeMode m := by
  by_cases hn : m.nparam < 2
  · exact ⟨fun _ => .inl (by omega), fun _ => ⟨_, onMode_eq_goOn c (.inl hn)⟩⟩
  · rcases hmodes : cstr (m.arg 1) with _ | ⟨sign, modes⟩
    · refine ⟨fun _ => .inr (.inr fun sign modes h => ?_), fun _ => ⟨_, onMode_eq_goOn c (.inr hmodes)⟩⟩
      rw [hmodes] at h
      cases h
    · have hpi : 2 ≤ m.params.length := le_trans (by decide) m.le_length_params
      rw [safeMode_iff (by omega) hmodes, onMode_eq_loop c hn hmodes, exists_map_eq_ok,
        ← modeLoop_ok_iff m (m.arg 0) { irc := c, sign, pi := 2 } modes hpi]

/-- The MODE handler takes a number of steps linear in the mode string.

**Proof sketch.** The steps are the rounds of the loop over the letters, which are at most as many
as the letters; the first byte of the mode string is no letter. -/
lemma onMode_steps {c : Irc} {m : Message} {h : Handled} (hh : onMode c m = .ok h) :
    h.steps ≤ (m.arg 1).length := by
  by_cases hn : m.nparam < 2
  · rw [onMode_eq_goOn c (.inl hn)] at hh
    obtain rfl := Except.ok.inj hh
    exact Nat.zero_le _
  · rcases hmodes : cstr (m.arg 1) with _ | ⟨sign, modes⟩
    · rw [onMode_eq_goOn c (.inr hmodes)] at hh
      obtain rfl := Except.ok.inj hh
      exact Nat.zero_le _
    · have hlen := (List.takeWhile_prefix (p := (· ≠ 0)) (l := m.arg 1)).length_le
      rw [← cstr, hmodes, List.length_cons] at hlen
      rw [onMode_eq_loop c hn hmodes] at hh
      rcases hr : modeLoop m (m.arg 0) { irc := c, sign, pi := 2 } modes with e | r
      · rw [hr] at hh
        cases hh
      · rw [hr] at hh
        obtain rfl := Except.ok.inj hh
        exact le_trans (modeLoop_steps hr) (by omega)

/-- With at least one parameter, `nparam - 1` does not wrap around. -/
lemma nparamPred_le {n : ℕ} (h : n ≠ 0) : nparamPred n ≤ n - 1 := by
  have heq : n + (2 ^ 32 - 1) = n - 1 + 2 ^ 32 := by omega
  rw [nparamPred, heq, Nat.add_mod_right]
  exact Nat.mod_le _ _

/-- **The 005 handler** stays in range exactly when there is a parameter.

**Proof sketch.** The loop reads the parameters from the second to the last but one; without
parameters this last one has the largest index there is, and the vector ends before. -/
lemma onIsupport_ok_iff (c : Irc) (m : Message) :
    (∃ h, onIsupport c m = .ok h) ↔ m.nparam ≠ 0 := by
  rw [onIsupport_eq_loop, exists_map_eq_ok, isupportLoop_ok_iff]
  constructor
  · intro hok hzero
    have hgiven : m.given = [] := List.eq_nil_of_length_eq_zero hzero
    have hsize : m.params.length = 32 := by simp [Message.params, Message.nparam, hgiven]
    rw [hzero, hsize] at hok
    revert hok
    decide
  · intro hpos
    have hbound := nparamPred_le hpos
    have hlen : m.nparam ≤ m.params.length := by
      by_cases h32 : m.nparam < 32
      · rw [Message.params, if_pos h32, List.length_append]
        exact Nat.le_add_right _ _
      · rw [Message.params, if_neg h32]
        exact le_rfl
    omega

/-- The 005 handler takes no more steps than there are parameters. -/
lemma onIsupport_steps {c : Irc} {m : Message} {h : Handled} (hh : onIsupport c m = .ok h) :
    h.steps ≤ m.nparam := by
  have hpos := (onIsupport_ok_iff c m).mp ⟨h, hh⟩
  have hbound := nparamPred_le hpos
  rw [onIsupport_eq_loop] at hh
  rcases hr : isupportLoop m c 1 (nparamPred m.nparam - 1) with e | r
  · rw [hr] at hh
    cases hh
  · rw [hr] at hh
    obtain rfl := Except.ok.inj hh
    have := isupportLoop_steps hr
    dsimp only
    omega

/-- The NAMES handler takes a number of steps linear in the list of names. -/
lemma onNamesReply_steps (c : Irc) (m : Message) :
    (onNamesReply c m).steps ≤ (m.arg 3).length + 1 := by
  have hlen : (cstr (m.arg 3)).length ≤ (m.arg 3).length := (List.takeWhile_prefix _).length_le
  simp only [onNamesReply]
  split_ifs
  all_goals first
    | exact Nat.zero_le _
    | exact le_trans (namesLoop_steps _ _ _ _) (Nat.succ_le_succ hlen)

namespace Irc

/-- **Which lines are processed soundly.** In every state and for every line, the processing of
the line accesses the vector of parameters inside its bounds only, with no more iterations of an
inner loop than the line has bytes and one more, if and only if the line is safe: it is not a 005
without parameters, and not a MODE with at least 32 parameters, none of them empty from the third
on, whose letters ask for more parameters than there are.

**Proof sketch.** By cases on the command. Only the handlers of MODE and 005 can fail, which their
own lemmas say exactly; the steps of MODE are bounded by the letters of the mode string, which are
fewer than the bytes of the line. -/
theorem processLine_robust_iff (c : Irc) (now : ℤ) (line : Bytes) :
    (∃ h, c.processLine now line = .ok h ∧ h.steps ≤ line.length + 1) ↔ SafeLine line := by
  rcases hm : Message.ofLine line with _ | m
  · have hok : c.processLine now line = .ok (.goOn c) := by rw [processLine, hm]
    refine ⟨fun _ m h => ?_, fun _ => ⟨_, hok, Nat.zero_le _⟩⟩
    rw [hm] at h
    cases h
  · have hproc : c.processLine now line = handle c now m (.ofBytes m.cmd) := by
      rw [processLine, hm]
    have hsafe : SafeLine line ↔ (Command.ofBytes m.cmd = .mode → SafeMode m) ∧
        (Command.ofBytes m.cmd = .isupport → m.nparam ≠ 0) := by
      rw [SafeLine, hm]
      constructor
      · exact fun h => h m rfl
      · intro h m' hm'
        obtain rfl := Option.some.inj hm'
        exact h
    rw [hproc, hsafe]
    cases hcmd : Command.ofBytes m.cmd
    case mode =>
      have harg := Message.length_arg_le hm 1
      constructor
      · rintro ⟨h, hh, -⟩
        exact ⟨fun _ => (onMode_ok_iff c m).mp ⟨h, hh⟩, fun h => (by cases h)⟩
      · rintro ⟨hsafe, -⟩
        obtain ⟨h, hh⟩ := (onMode_ok_iff c m).mpr (hsafe rfl)
        have := onMode_steps hh
        exact ⟨h, hh, by omega⟩
    case isupport =>
      have harg := Message.nparam_le hm
      constructor
      · rintro ⟨h, hh, -⟩
        exact ⟨fun h => (by cases h), fun _ => (onIsupport_ok_iff c m).mp ⟨h, hh⟩⟩
      · rintro ⟨-, hsafe⟩
        obtain ⟨h, hh⟩ := (onIsupport_ok_iff c m).mpr (hsafe rfl)
        have := onIsupport_steps hh
        exact ⟨h, hh, by omega⟩
    case namesReply =>
      have hsteps := onNamesReply_steps c m
      have harg := Message.length_arg_le hm 3
      exact ⟨fun _ => ⟨fun h => (by cases h), fun h => (by cases h)⟩, fun _ => ⟨_, rfl, by omega⟩⟩
    case quit =>
      refine ⟨fun _ => ⟨fun h => (by cases h), fun h => (by cases h)⟩, fun _ => ⟨_, rfl, ?_⟩⟩
      rw [onQuit]
      split_ifs <;> exact Nat.zero_le _
    all_goals
      exact ⟨fun _ => ⟨fun h => (by cases h), fun h => (by cases h)⟩,
        fun _ => ⟨_, rfl, Nat.zero_le _⟩⟩

/-- The line `005`, without parameters, is taken to the 33rd of its 32 padded parameters. -/
theorem processLine_robust_fails :
    ¬ ∃ h, (fresh (bytes "bot")).processLine 0 (bytes "005") = .ok h ∧
      h.steps ≤ (bytes "005").length + 1 := by
  rintro ⟨h, hh, -⟩
  have hcmd : (fresh (bytes "bot")).processLine 0 (bytes "005") =
      onIsupport (fresh (bytes "bot")) { ident := [], cmd := bytes "005", given := [] } := rfl
  rw [hcmd] at hh
  exact (onIsupport_ok_iff _ _).mp ⟨h, hh⟩ rfl

end Irc

end Meowbot
