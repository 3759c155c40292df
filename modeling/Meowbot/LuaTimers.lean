import Meowbot.Lib.DeleteLoop
import Meowbot.Lib.Runs
import Meowbot.Timers

set_option relaxedAutoImplicit false
set_option autoImplicit false

/-!
# Timers of Lua modules (`modules/mod_lua.cpp`)

A timer of a Lua module has an entry in `g_bottmrlist`, which knows the Lua state, and one in the
list of the bot, whose `userdata` is the first one. A timer that is called once only leaves the list
of the bot when it has been called, and stays in `g_bottmrlist`.

The destructor of a module goes through `g_bottmrlist` by index and deletes the entries of its
state. It moves on to the next index if it has found no timer of the bot, although it has deleted
the entry, so that it skips the entry behind the one of a timer that has been called.

## Main definitions

* `Meowbot.BottimerLua` — `bottimer_lua`; `Meowbot.LuaTimers` — the two lists.
* `Meowbot.LuaTimers.unload` — what the destructor does with the timers.
* `Meowbot.LuaTimers.UnloadClean` — it leaves no timer of the state, and all others.

## Main results

* `Meowbot.LuaTimers.Sound.step` — every timer of a Lua module has its entry.
* `Meowbot.LuaTimers.unload_clean_iff` — the destructor is clean exactly when no entry of the state
  comes directly behind one of a timer that has been called.
-/

namespace Meowbot

open Runs

/-! ## The two lists -/

/-- A Lua state, as a pointer. -/
abbrev LuaState := ℕ

/-- `bottimer_lua`, at its address. `fxn` is the function behind `cbfxn_refid`. -/
structure BottimerLua where
  addr : ℕ
  L : LuaState
  name : Bytes
  fxn : ℕ
  deriving DecidableEq

/-- The address of `bottimer_callback_lua`. -/
def bottimerCallbackLua : TimerCb := 0

/-- A timer of the bot is the one of an entry. -/
def BottimerLua.owns (tmr : BottimerLua) (t : TimerInfo) : Bool :=
  t.fxn = some bottimerCallbackLua ∧ t.userdata = tmr.addr

/-- The timers of the bot, and `g_bottmrlist`. -/
structure LuaTimers where
  bot : Timers
  bottmrlist : List BottimerLua

/-- An operation on the timers. The callback data of a timer that Lua adds is an entry of the list
of the module, whose address is chosen by the allocator and so part of the operation. -/
inductive LuaTimerOp where
  /-- `meowbot.add_timer` in a state, at a time; the entry gets an address. -/
  | addTimer (L : LuaState) (name : Bytes) (fxn : ℕ) (interval : ℤ) (attr : UInt32) (now : ℤ)
    (addr : ℕ)
  /-- `meowbot.del_timer` with a function, in a state. -/
  | delTimerFxn (L : LuaState) (fxn : ℕ)
  /-- `meowbot.del_timer` with a name. -/
  | delTimerName (name : Bytes)
  /-- The destructor of the module with a state. -/
  | unload (L : LuaState)
  /-- An operation of the bot or of another module, or a pass of the timer thread. -/
  | bot (op : TimerOp)

namespace LuaTimers

/-- No timer. -/
def init : LuaTimers := { bot := .init, bottmrlist := [] }

variable (σ : TimerSort)

/-- `lua_meowbot_add_timer` -/
def addTimer (s : LuaTimers) (L : LuaState) (name : Bytes) (fxn : ℕ) (interval : ℤ) (attr : UInt32)
    (now : ℤ) (addr : ℕ) : LuaTimers :=
  { bot := (s.bot.addTimer σ name (some bottimerCallbackLua) interval addr attr now).2
    bottmrlist := s.bottmrlist ++ [{ addr, L, name, fxn }] }

/-- `lua_meowbot_del_timer` of a function. The timers are sorted at each entry that is found. -/
def delTimerFxn (s : LuaTimers) (L : LuaState) (fxn : ℕ) : LuaTimers :=
  let r := DeleteLoop.loop (fun tmr => tmr.L = L ∧ tmr.fxn = fxn) BottimerLua.owns σ.sort 0
    s.bottmrlist s.bot.timers
  { bot := { s.bot with timers := r.2 }, bottmrlist := r.1 }

/-- `lua_meowbot_del_timer` of a name. -/
def delTimerName (s : LuaTimers) (name : Bytes) : LuaTimers :=
  { bot := s.bot.delTimer σ name, bottmrlist := s.bottmrlist.filter fun tmr => tmr.name ≠ name }

/-- `luamod::~luamod`, the part about the timers. They are sorted at the end. -/
def unload (s : LuaTimers) (L : LuaState) : LuaTimers :=
  let r := DeleteLoop.loop (fun tmr => tmr.L = L) BottimerLua.owns id 0 s.bottmrlist s.bot.timers
  { bot := { s.bot with timers := σ.sort r.2 }, bottmrlist := r.1 }

/-- A step. A new entry is at an address of its own, and the callback of the Lua modules is used by
no other. -/
def step (s : LuaTimers) : LuaTimerOp → Option LuaTimers
  | .addTimer L name fxn interval attr now addr =>
    if ∃ tmr ∈ s.bottmrlist, tmr.addr = addr then none
    else some (s.addTimer σ L name fxn interval attr now addr)
  | .delTimerFxn L fxn => some (s.delTimerFxn σ L fxn)
  | .delTimerName name => some (s.delTimerName σ name)
  | .unload L => some (s.unload σ L)
  | .bot (.addTimer name fxn interval userdata attr now) =>
    if fxn = some bottimerCallbackLua then none
    else some { s with bot := s.bot.perform σ (.addTimer name fxn interval userdata attr now) }
  | .bot op => some { s with bot := s.bot.perform σ op }

/-! ## What should hold -/

/-- A timer of the bot refers to a state. -/
def RefersTo (s : LuaTimers) (L : LuaState) (t : TimerInfo) : Bool :=
  s.bottmrlist.any fun tmr => decide (tmr.L = L) && tmr.owns t

/-- **A clean unload**: no entry of the state is left and no timer that refers to it, and the other
entries and timers are as before. -/
structure UnloadClean (s : LuaTimers) (L : LuaState) : Prop where
  bottmrlist : ∀ tmr ∈ (s.unload σ L).bottmrlist, tmr.L ≠ L
  timers : ∀ t ∈ (s.unload σ L).bot.timers, s.RefersTo L t = false
  otherEntries : (s.unload σ L).bottmrlist.filter (fun tmr => tmr.L ≠ L) =
    s.bottmrlist.filter fun tmr => tmr.L ≠ L
  otherTimers : ((s.unload σ L).bot.timers.filter fun t => !s.RefersTo L t).Perm
    (s.bot.timers.filter fun t => !s.RefersTo L t)

/-- **The condition**: of two entries of the state next to each other, the first one has its timer
in the list of the bot, so it has not been called for the last time. -/
def NoneBehindCalled (s : LuaTimers) (L : LuaState) : Prop :=
  s.bottmrlist.IsChain fun tmr tmr' => tmr.L = L → tmr'.L = L → s.bot.timers.any tmr.owns

instance (s : LuaTimers) (L : LuaState) : Decidable (s.NoneBehindCalled L) :=
  inferInstanceAs (Decidable (s.bottmrlist.IsChain _))

/-! ## The entries of the timers -/

/-- **The two lists fit together**: entries have different addresses, and the timers of Lua modules
have entries with their names. -/
structure Sound (s : LuaTimers) : Prop where
  addr : (s.bottmrlist.map BottimerLua.addr).Nodup
  entry : ∀ t ∈ s.bot.timers, t.fxn = some bottimerCallbackLua →
    ∃ tmr ∈ s.bottmrlist, tmr.owns t ∧ tmr.name = t.name

/-- Two entries do not own the same timer. -/
lemma Sound.eq_of_owns {s : LuaTimers} (h : s.Sound) {tmr tmr' : BottimerLua}
    (htmr : tmr ∈ s.bottmrlist) (htmr' : tmr' ∈ s.bottmrlist) {t : TimerInfo} (howns : tmr.owns t)
    (howns' : tmr'.owns t) : tmr = tmr' := by
  simp only [BottimerLua.owns, decide_eq_true_eq] at howns howns'
  exact List.inj_on_of_nodup_map h.addr htmr htmr' (howns.2.symm.trans howns'.2)

/-- No timer is owned by two entries. -/
lemma Sound.disjoint {s : LuaTimers} (h : s.Sound) :
    s.bottmrlist.Pairwise fun tmr tmr' => ∀ t, ¬ (tmr.owns t ∧ tmr'.owns t) := by
  refine (List.pairwise_map.mp h.addr).imp fun hne t howns => hne ?_
  simp only [BottimerLua.owns, decide_eq_true_eq] at howns
  exact howns.1.2.symm.trans howns.2.2

/-- The lists fit together if timers are deleted, and entries that own none of those left. -/
lemma Sound.of_sublist {s s' : LuaTimers} (h : s.Sound) (hlist : s'.bottmrlist.Sublist s.bottmrlist)
    (htimers : ∀ t ∈ s'.bot.timers, t ∈ s.bot.timers ∧
      (t.fxn = some bottimerCallbackLua → ∃ tmr ∈ s'.bottmrlist, tmr.owns t)) : s'.Sound := by
  refine ⟨h.addr.sublist (hlist.map _), fun t ht hfxn => ?_⟩
  obtain ⟨ht, howner⟩ := htimers t ht
  obtain ⟨tmr, htmr, howns⟩ := howner hfxn
  obtain ⟨tmr', htmr', howns', hname⟩ := h.entry t ht hfxn
  obtain rfl := h.eq_of_owns (hlist.subset htmr) htmr' howns howns'
  exact ⟨tmr, htmr, howns, hname⟩

/-- The lists fit together if the timers stay the same but for their times, and timers of others are
added. -/
lemma Sound.of_timers {s : LuaTimers} (h : s.Sound) {bot : Timers}
    (hbot : ∀ t ∈ bot.timers, t.fxn = some bottimerCallbackLua →
      ∃ t' ∈ s.bot.timers, t.fxn = t'.fxn ∧ t.userdata = t'.userdata ∧ t.name = t'.name) :
    Sound { s with bot } := by
  refine ⟨h.addr, fun t ht hfxn => ?_⟩
  obtain ⟨t', ht', hfxn', huserdata, hname⟩ := hbot t ht hfxn
  obtain ⟨tmr, htmr, howns, hn⟩ := h.entry t' ht' (hfxn'.symm.trans hfxn)
  refine ⟨tmr, htmr, ?_, hn.trans hname.symm⟩
  simpa only [BottimerLua.owns, hfxn', huserdata] using howns

/-- A pass leaves the timers as they are, but for their times.

**Proof sketch.** By induction on the timers. One that is due is called and gets a new time, or is
removed; the pass ends in front of the first one that is not due. -/
lemma mem_timerPass {now : ℤ} {ts : List TimerInfo} {t : TimerInfo} (h : t ∈ (timerPass now ts).1) :
    ∃ t' ∈ ts, t.fxn = t'.fxn ∧ t.userdata = t'.userdata ∧ t.name = t'.name := by
  induction ts with
  | nil => exact absurd h List.not_mem_nil
  | cons u ts ih =>
    have hlater : t ∈ (timerPass now ts).1 → ∃ t' ∈ u :: ts,
        t.fxn = t'.fxn ∧ t.userdata = t'.userdata ∧ t.name = t'.name := fun h => by
      obtain ⟨t', ht', hsame⟩ := ih h
      exact ⟨t', List.mem_cons_of_mem _ ht', hsame⟩
    rw [timerPass] at h
    by_cases hnext : u.next > now
    · rw [if_pos hnext] at h
      exact ⟨t, h, rfl, rfl, rfl⟩
    · rw [if_neg hnext] at h
      dsimp only at h
      by_cases honce : u.once = true
      · rw [if_pos honce] at h
        exact hlater h
      · rw [if_neg honce] at h
        rcases List.mem_cons.mp h with rfl | h
        · exact ⟨u, List.mem_cons_self, rfl, rfl, rfl⟩
        · exact hlater h

variable {σ : TimerSort}

/-- What the bot does keeps the lists fitting together.

**Proof sketch.** By cases on the operation. A timer that the bot adds is none of Lua, and an
operation that takes timers away or sorts them brings in no other one. -/
lemma Sound.perform {s : LuaTimers} (h : s.Sound) {op : TimerOp}
    (hop : ∀ name fxn interval userdata attr now,
      op = .addTimer name fxn interval userdata attr now → fxn ≠ some bottimerCallbackLua) :
    Sound { s with bot := s.bot.perform σ op } := by
  refine h.of_timers fun t ht hfxn => ?_
  cases op with
  | addTimer name fxn interval userdata attr now =>
    rw [Timers.perform, Timers.addTimer] at ht
    split_ifs at ht
    · exact ⟨t, ht, rfl, rfl, rfl⟩
    · rcases List.mem_append.mp ((σ.perm _).mem_iff.mp ht) with ht | ht
      · exact ⟨t, ht, rfl, rfl, rfl⟩
      · rw [List.mem_singleton.mp ht] at hfxn
        exact absurd hfxn (hop _ _ _ _ _ _ rfl)
  | delTimer name =>
    exact ⟨t, (List.mem_filter.mp ((σ.perm _).mem_iff.mp ht)).1, rfl, rfl, rfl⟩
  | delTimerByCbptr fxn =>
    exact ⟨t, (List.mem_filter.mp ((σ.perm _).mem_iff.mp ht)).1, rfl, rfl, rfl⟩
  | pass now => exact mem_timerPass ht

/-- A loop that deletes entries keeps the lists fitting together.

**Proof sketch.** What is left of the entries still covers what is left of the timers
(`covered_rest`), as the timers of the entries that are deleted are deleted with them. -/
lemma Sound.loop {s : LuaTimers} (h : s.Sound) (p : BottimerLua → Bool)
    {tidy sort : List TimerInfo → List TimerInfo} (htidy : ∀ ts, ∀ t ∈ tidy ts, t ∈ ts)
    (hsort : ∀ ts, ∀ t ∈ sort ts, t ∈ ts) :
    let r := DeleteLoop.loop p BottimerLua.owns tidy 0 s.bottmrlist s.bot.timers
    Sound { bot := { s.bot with timers := sort r.2 }, bottmrlist := r.1 } := by
  intro r
  have hr : r = DeleteLoop.rest p BottimerLua.owns tidy s.bottmrlist s.bot.timers :=
    DeleteLoop.loop_zero _ _
  have howned : ∀ t ∈ s.bot.timers, t.fxn = some bottimerCallbackLua →
      ∃ tmr ∈ [] ++ s.bottmrlist, BottimerLua.owns tmr t := by
    intro t ht hfxn
    obtain ⟨tmr, htmr, howns, -⟩ := h.entry t ht hfxn
    exact ⟨tmr, htmr, howns⟩
  have hcovered := DeleteLoop.covered_rest (p := p) htidy [] howned
  refine h.of_sublist ?_ fun t ht => ?_
  · rw [hr]
    exact DeleteLoop.rest_sublist _ _
  · rw [hr]
    exact hcovered t (hr ▸ hsort _ t ht)

/-- **A step** keeps the lists fitting together.

**Proof sketch.** By cases on the step. A new timer and its entry have a new address; a deletion
removes both, and a pass removes timers, but no entries. Sorting changes the order only. -/
lemma Sound.step {s s' : LuaTimers} (h : s.Sound) {op : LuaTimerOp} (hstep : s.step σ op = some s') :
    s'.Sound := by
  have hsort : ∀ ts, ∀ t ∈ σ.sort ts, t ∈ ts := fun ts t => (σ.perm ts).mem_iff.mp
  cases op with
  | addTimer L name fxn interval attr now addr =>
    rw [LuaTimers.step] at hstep
    split_ifs at hstep with hfree
    obtain rfl := Option.some.inj hstep
    refine ⟨?_, fun t ht hfxn => ?_⟩
    · simp only [addTimer, List.map_append, List.map_cons, List.map_nil]
      refine h.addr.append (List.nodup_singleton _) fun a ha ha' => hfree ?_
      obtain ⟨tmr, htmr, rfl⟩ := List.mem_map.mp ha
      exact ⟨tmr, htmr, List.mem_singleton.mp ha'⟩
    · rcases List.mem_append.mp (hsort _ t ht) with ht | ht
      · obtain ⟨tmr, htmr, howns⟩ := h.entry t ht hfxn
        exact ⟨tmr, List.mem_append_left _ htmr, howns⟩
      · rw [List.mem_singleton.mp ht]
        exact ⟨_, List.mem_append_right _ (List.mem_singleton_self _), by simp [BottimerLua.owns,
          TimerInfo.init], rfl⟩
  | delTimerFxn L fxn =>
    obtain rfl := Option.some.inj hstep
    exact h.loop _ hsort fun ts t ht => ht
  | delTimerName name =>
    obtain rfl := Option.some.inj hstep
    refine h.of_sublist List.filter_sublist fun t ht => ?_
    obtain ⟨ht, hname⟩ := List.mem_filter.mp (hsort _ t ht)
    refine ⟨ht, fun hfxn => ?_⟩
    obtain ⟨tmr, htmr, howns, hsame⟩ := h.entry t ht hfxn
    exact ⟨tmr, List.mem_filter.mpr ⟨htmr, by rwa [hsame]⟩, howns⟩
  | unload L =>
    obtain rfl := Option.some.inj hstep
    exact h.loop _ (fun ts t ht => ht) hsort
  | bot op =>
    have hother : s' = { s with bot := s.bot.perform σ op } ∧
        ∀ name fxn interval userdata attr now,
          op = .addTimer name fxn interval userdata attr now → fxn ≠ some bottimerCallbackLua := by
      cases op with
      | addTimer name fxn interval userdata attr now =>
        rw [LuaTimers.step] at hstep
        split_ifs at hstep with hfxn
        refine ⟨(Option.some.inj hstep).symm, ?_⟩
        rintro _ _ _ _ _ _ ⟨⟩
        exact hfxn
      | delTimer | delTimerByCbptr | pass => exact ⟨(Option.some.inj hstep).symm, nofun⟩
    rw [hother.1]
    exact h.perform hother.2

/-- What the destructor does, without the index. -/
lemma unload_eq (s : LuaTimers) (L : LuaState) :
    s.unload σ L =
      let r := DeleteLoop.rest (fun tmr => tmr.L = L) BottimerLua.owns id s.bottmrlist s.bot.timers
      { bot := { s.bot with timers := σ.sort r.2 }, bottmrlist := r.1 } := by
  rw [unload, DeleteLoop.loop_zero]

/-- **The destructor of a Lua module**, after any history, leaves no entry and no timer of its state
and all others, exactly when no entry of the state comes directly behind one of a timer that has
been called for the last time.

**Proof sketch.** The lists fit together in every reachable state. The destructor is a loop that
deletes by index from two lists (`unload_eq`), so that `DeleteLoop.rest_eq_filter` and
`DeleteLoop.isChain_of_rest` say what it leaves: an entry is skipped behind one whose timer is gone.
-/
theorem unload_clean_iff {ops : List LuaTimerOp} {s : LuaTimers}
    (hrun : Run (Fun (step σ)) init ops s) (L : LuaState) :
    s.UnloadClean σ L ↔ s.NoneBehindCalled L := by
  have h : s.Sound :=
    hrun.preserves (fun _ _ _ hs hstep => hs.step hstep)
      ⟨List.nodup_nil, fun t ht => absurd ht List.not_mem_nil⟩
  have hunload := s.unload_eq (σ := σ) L
  constructor
  · intro hclean
    refine (DeleteLoop.isChain_of_rest (p := fun tmr => tmr.L = L) h.disjoint (fun _ _ => rfl)
      fun tmr htmr => ?_).imp fun _ _ hown htmr htmr' =>
        hown (decide_eq_true htmr) (decide_eq_true htmr')
    have hleft := hclean.bottmrlist tmr (by rwa [hunload])
    simpa using hleft
  · intro hchain
    have hrest := DeleteLoop.rest_eq_filter (p := fun tmr => tmr.L = L) h.disjoint (fun _ _ => rfl)
      (hchain.imp fun _ _ hown htmr htmr' =>
        hown (of_decide_eq_true htmr) (of_decide_eq_true htmr'))
    rw [hrest] at hunload
    have hlist : (s.unload σ L).bottmrlist = s.bottmrlist.filter fun tmr => !decide (tmr.L = L) := by
      rw [hunload]
    have htimers : (s.unload σ L).bot.timers.Perm
        (s.bot.timers.filter fun t => !s.RefersTo L t) := by
      rw [hunload]
      exact σ.perm _
    refine ⟨fun tmr htmr => ?_, fun t ht => ?_, ?_, ?_⟩
    · rw [hlist] at htmr
      simpa using (List.mem_filter.mp htmr).2
    · simpa using (List.mem_filter.mp (htimers.mem_iff.mp ht)).2
    · rw [hlist, List.filter_filter]
      simp
    · refine (htimers.filter _).trans ?_
      rw [List.filter_filter]
      simp

/-- Three timers of the modules with the states `1` and `2`, of which the first one is called once.
-/
def threeTimers (second third : LuaState) : List LuaTimerOp :=
  [.addTimer 1 [] 0 1000 timerattrOnce 0 10, .addTimer second [] 0 5000 0 0 11,
    .addTimer third [] 0 5000 0 0 12, .bot (.pass 1)]

/-- Two modules have timers; one of them is called, and its module is unloaded. -/
theorem unload_clean_called :
    ∃ ops s, Run (Fun (step Timers.insertionSort)) init ops s ∧
      s.bottmrlist.map BottimerLua.L = [1, 2, 1] ∧ s.bot.timers.length = 2 ∧
      s.UnloadClean Timers.insertionSort 1 := by
  have hops : ∃ s ∈ (threeTimers 2 1).foldlM (step Timers.insertionSort) init,
      s.bottmrlist.map BottimerLua.L = [1, 2, 1] ∧ s.bot.timers.length = 2 ∧
        s.NoneBehindCalled 1 := ⟨_, rfl, by decide, by decide, by decide⟩
  obtain ⟨s, hrun, hlist, htimers, hnone⟩ := Run.exists_of_foldlM hops
  exact ⟨_, s, hrun, hlist, htimers, (unload_clean_iff hrun 1).mpr hnone⟩

/-- **A timer that is left behind**: the first of two timers of a module is called, and the module
is unloaded.

**Proof sketch.** The run is evaluated, and the destructor is replaced by what its loop is equal to.
The entry that is left is one of the module. -/
theorem not_unload_clean :
    ∃ ops s, Run (Fun (step Timers.insertionSort)) init ops s ∧
      (s.unload Timers.insertionSort 1).bottmrlist.map BottimerLua.L = [1, 2] ∧
      (s.unload Timers.insertionSort 1).bot.timers.length = 2 ∧
      ¬ s.UnloadClean Timers.insertionSort 1 := by
  have hops : ∃ s ∈ (threeTimers 1 2).foldlM (step Timers.insertionSort) init,
      (s.unload Timers.insertionSort 1).bottmrlist.map BottimerLua.L = [1, 2] ∧
        (s.unload Timers.insertionSort 1).bot.timers.length = 2 := by
    refine ⟨_, rfl, ?_, ?_⟩
    · rw [unload_eq]
      decide
    · rw [unload_eq]
      decide
  obtain ⟨s, hrun, hlist, htimers⟩ := Run.exists_of_foldlM hops
  refine ⟨_, s, hrun, hlist, htimers, fun h => ?_⟩
  have hleft : (1 : LuaState) ∈ (s.unload Timers.insertionSort 1).bottmrlist.map BottimerLua.L := by
    rw [hlist]
    decide
  obtain ⟨tmr, htmr, hL⟩ := List.mem_map.mp hleft
  exact h.bottmrlist tmr htmr hL

end LuaTimers

end Meowbot
