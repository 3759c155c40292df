import Mathlib.Order.RelClasses
import Meowbot.Lib.OrderedMap

set_option relaxedAutoImplicit false
set_option autoImplicit false

/-!
# The sockets that are polled (`tcpsock.cpp`)

A `v_pollfd` is the array that `poll` is called with, and a `v_pollfd_ts` keeps a map from its
descriptors to the sockets as well. `add_fd` returns the place of a new descriptor, or `-1` for an
error. `add_ts` converts this to `bool`, which makes an error of the place `0` and a place of the
error `-1`; and it returns without unlocking the list if the descriptor is in the map.

A call carries whether `realloc` gives the memory it is asked for in it.

## Main definitions

* `Meowbot.VPollfdTs` — the list; `VPollfdTs.addTs`, `VPollfdTs.delTs`, `VPollfdTs.clear`.
* `Meowbot.VPollfdTs.InStep` — the array and the map have the same descriptors.
* `Meowbot.VPollfdTs.Handled` — the calls that keep it so.

## Main results

* `Meowbot.VPollfdTs.keeps_iff_handled` — which calls keep the array and the map in step.
* `Meowbot.VPollfdTs.staysInStep_iff` — which sequences of calls do; from the empty list, these are
  the ones that add nothing.
-/

namespace Meowbot

/-! ## The array -/

/-- `pollfd` -/
structure Pollfd where
  fd : ℤ
  events : ℤ

/-- `v_pollfd::resize`, with the result. The places that are new have no descriptor. -/
def resizeFds (fdlist : List Pollfd) (newsize : ℕ) (mem : Bool) : Bool × List Pollfd :=
  if newsize = 0 then (true, [])
  else if mem then
    (true, fdlist.take newsize ++ List.replicate (newsize - fdlist.length) ⟨-1, 0⟩)
  else (false, [])

/-- `v_pollfd::find_fd` -/
def findFd (fdlist : List Pollfd) (fd : ℤ) : ℤ :=
  match fdlist.findIdx? fun e => e.fd = fd with
  | some i => i
  | none => -1

/-- `v_pollfd::add_fd`, given whether there is memory. An entry that is free is used again;
otherwise the list grows by one. The result is the place of the entry, or -1. -/
def addFd (fdlist : List Pollfd) (fd events : ℤ) (mem : Bool) : ℤ × List Pollfd :=
  if fd < 0 then (-1, fdlist)
  else
    let pos := findFd fdlist (-1)
    if pos < 0 then
      let (ret, fdlist) := resizeFds fdlist (fdlist.length + 1) mem
      if ret then ((fdlist.length : ℤ) - 1, fdlist.set (fdlist.length - 1) ⟨fd, events⟩)
      else (-1, fdlist)
    else (pos, fdlist.set pos.toNat ⟨fd, events⟩)

/-- `v_pollfd::del_fd`. Its `return -1` is `true`. The entries behind the place are moved down, and
the last one is in its old place too. -/
def delFd (fdlist : List Pollfd) (fd : ℤ) (mem : Bool) : Bool × List Pollfd :=
  if fd < 0 then (true, fdlist)
  else
    let pos := findFd fdlist fd
    if pos < 0 then (false, fdlist)
    else
      let moved := fdlist.eraseIdx pos.toNat ++ fdlist.drop (fdlist.length - 1)
      (true, (resizeFds moved (fdlist.length - 1) mem).2)

/-- The descriptors of an array. -/
def descriptors (fdlist : List Pollfd) : List ℤ := fdlist.map Pollfd.fd

/-- **A descriptor is found** at a place where it is. -/
lemma findFd_spec (fdlist : List Pollfd) (fd : ℤ) :
    fd ∉ descriptors fdlist ∧ findFd fdlist fd = -1 ∨
      ∃ i : ℕ, findFd fdlist fd = i ∧ (descriptors fdlist)[i]? = some fd := by
  rw [findFd]
  cases hfind : fdlist.findIdx? fun e => decide (e.fd = fd) with
  | none =>
    refine .inl ⟨fun hmem => ?_, rfl⟩
    obtain ⟨e, he, rfl⟩ := List.mem_map.mp hmem
    simpa using List.findIdx?_eq_none_iff.mp hfind e he
  | some i =>
    refine .inr ⟨i, rfl, ?_⟩
    obtain ⟨hi, hfd, -⟩ := List.findIdx?_eq_some_iff_getElem.mp hfind
    rw [descriptors, List.getElem?_map, List.getElem?_eq_getElem hi, Option.map_some,
      of_decide_eq_true hfd]

/-- The place that is new is at the end. -/
lemma resizeFds_succ (fdlist : List Pollfd) :
    resizeFds fdlist (fdlist.length + 1) true = (true, fdlist ++ [⟨-1, 0⟩]) := by
  rw [resizeFds, if_neg (by omega), if_pos rfl, List.take_of_length_le (by omega),
    Nat.add_sub_cancel_left]
  rfl

/-- **A descriptor is added** at the end of an array without a free place. -/
lemma addFd_eq {fdlist : List Pollfd} (hfree : -1 ∉ descriptors fdlist) {fd : ℤ} (hfd : 0 ≤ fd)
    (events : ℤ) (mem : Bool) :
    addFd fdlist fd events mem =
      if mem then ((fdlist.length : ℤ), fdlist ++ [⟨fd, events⟩]) else (-1, []) := by
  have hpos : findFd fdlist (-1) = -1 := by
    obtain ⟨-, h⟩ | ⟨i, -, hi⟩ := findFd_spec fdlist (-1)
    · exact h
    · exact absurd (List.mem_of_getElem? hi) hfree
  rw [addFd, if_neg (by omega), hpos]
  dsimp only
  rw [if_pos (by omega)]
  cases mem with
  | false => simp [resizeFds]
  | true =>
    rw [resizeFds_succ]
    simp

/-- **A descriptor is deleted**: the array is the one without it, or it is lost as a whole.

**Proof sketch.** The place of the descriptor is found, the entries behind it move up by one, and
the block is made smaller; without memory for that, the array is lost. -/
lemma delFd_eq {fdlist : List Pollfd} {fd : ℤ} (hfd : 0 ≤ fd) (hnodup : (descriptors fdlist).Nodup)
    (hmem : fd ∈ descriptors fdlist) (mem : Bool) :
    descriptors (delFd fdlist fd mem).2 =
      if fdlist.length = 1 ∨ mem then (descriptors fdlist).erase fd else [] := by
  obtain ⟨hnot, -⟩ | ⟨i, hpos, hi⟩ := findFd_spec fdlist fd
  · exact absurd hmem hnot
  obtain ⟨hlt, hget⟩ := List.getElem?_eq_some_iff.mp hi
  have hlen : i < fdlist.length := by simpa [descriptors] using hlt
  have herase : (descriptors fdlist).erase fd = (descriptors fdlist).eraseIdx i := by
    rw [← hget, hnodup.erase_getElem]
  have hleft : (fdlist.eraseIdx i).length = fdlist.length - 1 := by
    rw [List.length_eraseIdx_of_lt hlen]
  rw [delFd, if_neg (by omega), hpos]
  dsimp only
  rw [if_neg (by omega), Int.toNat_natCast, resizeFds]
  by_cases hone : fdlist.length = 1
  · rw [if_pos (by omega), if_pos (.inl hone), herase]
    symm
    apply List.eq_nil_of_length_eq_zero
    rw [descriptors, List.length_eraseIdx_of_lt (by simpa using hlen), List.length_map]
    omega
  · rw [if_neg (by omega)]
    cases mem with
    | false => simp [hone, descriptors]
    | true =>
      rw [if_pos rfl, if_pos (.inr rfl), herase, ← hleft, List.take_left, hleft]
      have hnew : fdlist.length - 1 - (fdlist.eraseIdx i ++ fdlist.drop (fdlist.length - 1)).length
          = 0 := by
        rw [List.length_append, hleft]
        omega
      rw [hnew, List.replicate_zero, List.append_nil, descriptors, descriptors,
        List.eraseIdx_eq_take_drop_succ, List.eraseIdx_eq_take_drop_succ, List.map_append,
        List.map_take, List.map_drop]

/-! ## The list -/

/-- The order of the keys of `tslist`. -/
abbrev FdLess (a b : ℤ) : Prop := a < b

instance : IsStrictWeakOrder ℤ FdLess := isStrictWeakOrder_of_isOrderConnected

/-- A socket: the object, and its descriptor at the time of a call. -/
structure PollSock where
  ptr : ℕ
  fd : ℤ

/-- `v_pollfd_ts` -/
structure VPollfdTs where
  fdlist : List Pollfd
  /-- `tslist` -/
  tslist : OrderedMap FdLess ℕ
  /-- `fdlist_lock` is held. -/
  locked : Bool

/-- A call, with what `realloc` says in it. -/
inductive PollCall where
  | add (ts : PollSock) (events : ℤ) (mem doLock : Bool)
  | del (ts : PollSock) (mem doLock : Bool)
  | clear (doLock : Bool)

/-- A call of `add_ts`. -/
def PollCall.isAdd : PollCall → Bool
  | .add _ _ _ _ => true
  | .del _ _ _ | .clear _ => false

namespace VPollfdTs

/-- The list without sockets. -/
def empty : VPollfdTs := ⟨[], OrderedMap.empty, false⟩

/-- `wrlock_fdlist`, if the list is to be locked. It does not return if the lock is held. -/
def wrlock (v : VPollfdTs) (doLock : Bool) : Option VPollfdTs :=
  if doLock then (if v.locked then none else some { v with locked := true }) else some v

/-- `unlock_fdlist`, if the list is to be locked. -/
def unlock (v : VPollfdTs) (doLock : Bool) : VPollfdTs :=
  if doLock then { v with locked := false } else v

/-- `v_pollfd_ts::add_ts`. The result of `add_fd` is taken for a truth value, so the first place
counts as a failure and -1 as a success. -/
def addTs (v : VPollfdTs) (ts : PollSock) (events : ℤ) (mem doLock : Bool) :
    Option (ℤ × VPollfdTs) :=
  (v.wrlock doLock).map fun v =>
    if (v.tslist.find? ts.fd).isSome then (-1, v)
    else
      let (pos, fdlist) := addFd v.fdlist ts.fd events mem
      let ret : Bool := pos ≠ 0
      let tslist := if ret then v.tslist.update ts.fd fun _ => ts.ptr else v.tslist
      (if ret then 1 else 0, ({ v with fdlist, tslist } : VPollfdTs).unlock doLock)

/-- `v_pollfd_ts::del_ts` -/
def delTs (v : VPollfdTs) (ts : PollSock) (mem doLock : Bool) : Option (Bool × VPollfdTs) :=
  (v.wrlock doLock).map fun v =>
    let (ret, fdlist) := delFd v.fdlist ts.fd mem
    (ret, ({ v with fdlist, tslist := v.tslist.erase ts.fd } : VPollfdTs).unlock doLock)

/-- `v_pollfd_ts::clear` -/
def clear (v : VPollfdTs) (doLock : Bool) : Option (ℤ × VPollfdTs) :=
  (v.wrlock doLock).map fun v =>
    let (_, fdlist) := resizeFds v.fdlist 0 true
    (0, ({ v with fdlist, tslist := OrderedMap.empty } : VPollfdTs).unlock doLock)

/-- A call, with its result as a number. -/
def perform (v : VPollfdTs) : PollCall → Option (ℤ × VPollfdTs)
  | .add ts events mem doLock => v.addTs ts events mem doLock
  | .del ts mem doLock => (v.delTs ts mem doLock).map fun r => (if r.1 then 1 else 0, r.2)
  | .clear doLock => v.clear doLock

/-! ## The array and the map -/

/-- A descriptor is a key of the map. -/
def HasKey (v : VPollfdTs) (fd : ℤ) : Prop := (v.tslist.get? fd).isSome

/-- **The array and the map are in step**: they have the same descriptors, none is there twice, and
the lock is free. -/
structure InStep (v : VPollfdTs) : Prop where
  keys : ∀ fd, v.HasKey fd ↔ fd ∈ descriptors v.fdlist
  nodup : (descriptors v.fdlist).Nodup
  nonneg : ∀ fd ∈ descriptors v.fdlist, 0 ≤ fd
  free : v.locked = false

/-- A descriptor is added without an error exactly when it was not there. -/
def AddsNew (v : VPollfdTs) (ret : ℤ) : PollCall → Prop
  | .add ts _ _ _ => 0 ≤ ret ↔ ts.fd ∉ descriptors v.fdlist
  | .del _ _ _ | .clear _ => True

/-- **Consistency**: after each call of a sequence the array and the map are in step, and it has
added what was not there. -/
def StaysInStep (v : VPollfdTs) : List PollCall → Prop
  | [] => True
  | c :: cs => ∃ ret v', v.perform c = some (ret, v') ∧ v'.InStep ∧ v.AddsNew ret c ∧
      v'.StaysInStep cs

/-- **A call that the source handles**. A descriptor is added to a list that is not empty, with
memory for it; or it is there already and the list is not to be locked. A descriptor that is
deleted from others needs a smaller block. -/
def Handled (v : VPollfdTs) : PollCall → Prop
  | .add ts _ mem doLock => 0 ≤ ts.fd ∧
      if ts.fd ∈ descriptors v.fdlist then doLock = false else v.fdlist ≠ [] ∧ mem = true
  | .del ts mem _ => ts.fd ∈ descriptors v.fdlist → v.fdlist.length ≠ 1 → mem = true
  | .clear _ => True

/-- Each call of a sequence is handled. -/
def AllHandled (v : VPollfdTs) : List PollCall → Prop
  | [] => True
  | c :: cs => v.Handled c ∧ ∀ ret v', v.perform c = some (ret, v') → v'.AllHandled cs

/-- A key is found. -/
lemma isSome_find?_iff (v : VPollfdTs) (fd : ℤ) : (v.tslist.find? fd).isSome ↔ v.HasKey fd := by
  rw [HasKey, OrderedMap.get?, Option.isSome_map]

/-- Two descriptors that count as the same are the same. -/
lemma same_iff (a b : ℤ) : OrderedMap.Same FdLess a b ↔ a = b := by
  rw [OrderedMap.Same, FdLess, FdLess]
  omega

/-- The map with a new key. -/
lemma hasKey_update (v : VPollfdTs) (k fd : ℤ) (f : Option ℕ → ℕ) (fdlist : List Pollfd)
    (locked : Bool) :
    (⟨fdlist, v.tslist.update k f, locked⟩ : VPollfdTs).HasKey fd ↔ fd = k ∨ v.HasKey fd := by
  rw [HasKey, OrderedMap.get?_update, HasKey]
  split_ifs with h
  · simp [(same_iff _ _).mp h]
  · have hne : fd ≠ k := fun heq => h ((same_iff _ _).mpr heq)
    simp [hne]

/-- The map without a key. -/
lemma hasKey_erase (v : VPollfdTs) (k fd : ℤ) (fdlist : List Pollfd) (locked : Bool) :
    (⟨fdlist, v.tslist.erase k, locked⟩ : VPollfdTs).HasKey fd ↔ fd ≠ k ∧ v.HasKey fd := by
  rw [HasKey, OrderedMap.get?_erase, HasKey]
  split_ifs with h
  · simp [(same_iff _ _).mp h]
  · have hne : fd ≠ k := fun heq => h ((same_iff _ _).mpr heq)
    simp [hne]

/-- A free lock is taken, if the list is to be locked. -/
lemma wrlock_of_free {v : VPollfdTs} (hfree : v.locked = false) (doLock : Bool) :
    v.wrlock doLock = some ⟨v.fdlist, v.tslist, doLock⟩ := by
  obtain ⟨fdlist, tslist, locked⟩ := v
  subst hfree
  cases doLock <;> rfl

/-- The lock is given back. -/
lemma unlock_mk (fdlist : List Pollfd) (tslist : OrderedMap FdLess ℕ) (doLock : Bool) :
    (⟨fdlist, tslist, doLock⟩ : VPollfdTs).unlock doLock = ⟨fdlist, tslist, false⟩ := by
  cases doLock <;> rfl

/-- The empty list is in step. -/
lemma inStep_empty : empty.InStep := by
  refine ⟨fun fd => ?_, List.nodup_nil, ?_, rfl⟩
  · simp [HasKey, empty, OrderedMap.get?, OrderedMap.find?, OrderedMap.empty, descriptors]
  · simp [empty, descriptors]

variable {v : VPollfdTs}

/-- **Adding what is there already** returns with the lock held, if it was taken. -/
lemma addTs_of_mem (h : v.InStep) {ts : PollSock} (hmem : ts.fd ∈ descriptors v.fdlist)
    (events : ℤ) (mem doLock : Bool) :
    v.addTs ts events mem doLock = some (-1, ⟨v.fdlist, v.tslist, doLock⟩) := by
  have hkey := (isSome_find?_iff v ts.fd).mpr ((h.keys _).mpr hmem)
  rw [addTs, wrlock_of_free h.free, Option.map_some]
  dsimp only
  rw [if_pos hkey]

/-- **Adding what is not there**: the map gets the descriptor unless its place is `0`. -/
lemma addTs_of_notMem (h : v.InStep) {ts : PollSock} (hmem : ts.fd ∉ descriptors v.fdlist)
    (events : ℤ) (mem doLock : Bool) :
    v.addTs ts events mem doLock =
      if (addFd v.fdlist ts.fd events mem).1 = 0 then
        some (0, ⟨(addFd v.fdlist ts.fd events mem).2, v.tslist, false⟩)
      else
        some (1, ⟨(addFd v.fdlist ts.fd events mem).2, v.tslist.update ts.fd fun _ => ts.ptr,
          false⟩) := by
  have hkey : ¬ (v.tslist.find? ts.fd).isSome := fun hsome =>
    hmem ((h.keys _).mp ((isSome_find?_iff v ts.fd).mp hsome))
  rw [addTs, wrlock_of_free h.free, Option.map_some]
  dsimp only
  rw [if_neg hkey]
  by_cases hpos : (addFd v.fdlist ts.fd events mem).1 = 0
  · simp [hpos, unlock_mk]
  · simp [hpos, unlock_mk]

/-- A call has a result after which the array and the map are in step, and it has added what was not
there. -/
def Keeps (v : VPollfdTs) (c : PollCall) : Prop :=
  ∃ ret v', v.perform c = some (ret, v') ∧ v'.InStep ∧ v.AddsNew ret c

/-- Whether a call with a known result keeps the list. -/
lemma keeps_iff {c : PollCall} {ret : ℤ} {v' : VPollfdTs} (h : v.perform c = some (ret, v')) :
    v.Keeps c ↔ v'.InStep ∧ v.AddsNew ret c := by
  constructor
  · rintro ⟨ret₁, v₁, h₁, hkeeps⟩
    obtain ⟨rfl, rfl⟩ := Prod.mk.inj (Option.some.inj (h.symm.trans h₁))
    exact hkeeps
  · exact fun hkeeps => ⟨ret, v', h, hkeeps⟩

/-- A new descriptor, in the array and in the map. -/
lemma inStep_append (h : v.InStep) {fd : ℤ} (hfd : 0 ≤ fd) (hmem : fd ∉ descriptors v.fdlist)
    (events : ℤ) (ptr : ℕ) :
    InStep ⟨v.fdlist ++ [⟨fd, events⟩], v.tslist.update fd fun _ => ptr, false⟩ := by
  have hfds : descriptors (v.fdlist ++ [⟨fd, events⟩]) = descriptors v.fdlist ++ [fd] := by
    simp [descriptors]
  refine ⟨fun fd' => ?_, ?_, ?_, rfl⟩
  · rw [hasKey_update, h.keys, hfds, List.mem_append, List.mem_singleton, or_comm]
  · rw [hfds]
    exact h.nodup.append (List.nodup_singleton fd) (by simpa using hmem)
  · rw [hfds]
    intro fd' hfd'
    rcases List.mem_append.mp hfd' with hold | hnew
    · exact h.nonneg fd' hold
    · rwa [List.mem_singleton.mp hnew]

/-- **Which additions keep the list.**

**Proof sketch.** By whether the descriptor is in the list already. If it is, the call returns
without giving the lock back, unless it has not taken it. Otherwise the addition needs memory, and a
descriptor that is not negative, to be found again. -/
lemma keeps_add_iff (h : v.InStep) (ts : PollSock) (events : ℤ) (mem doLock : Bool) :
    v.Keeps (.add ts events mem doLock) ↔ v.Handled (.add ts events mem doLock) := by
  rw [Handled]
  by_cases hmem : ts.fd ∈ descriptors v.fdlist
  · -- the lock is not given back
    rw [keeps_iff (v := v) (c := .add ts events mem doLock) (addTs_of_mem h hmem events mem doLock),
      if_pos hmem, AddsNew]
    constructor
    · rintro ⟨hstep, -⟩
      exact ⟨h.nonneg _ hmem, hstep.free⟩
    · rintro ⟨-, rfl⟩
      exact ⟨⟨h.keys, h.nodup, h.nonneg, rfl⟩, iff_of_false (by omega) (by simpa using hmem)⟩
  rw [if_neg hmem]
  have hadd := addTs_of_notMem h hmem events mem doLock
  by_cases hfd : 0 ≤ ts.fd
  · have hfree : -1 ∉ descriptors v.fdlist := fun hin => by
      have := h.nonneg _ hin
      omega
    rw [addFd_eq hfree hfd] at hadd
    cases mem with
    | false =>
      -- there is no memory: the array is lost, and the error is taken for a place
      rw [if_neg Bool.false_ne_true, if_neg (by simp)] at hadd
      refine iff_of_false (fun hkeeps => ?_) (by simp)
      obtain ⟨hstep, -⟩ := (keeps_iff (c := .add ts events false doLock) hadd).mp hkeeps
      have hkey := (hstep.keys ts.fd).mp ((hasKey_update v _ _ _ _ _).mpr (.inl rfl))
      exact List.not_mem_nil hkey
    | true =>
      rw [if_pos rfl] at hadd
      by_cases hempty : v.fdlist = []
      · -- the place `0` is taken for an error
        rw [if_pos (by simp [hempty])] at hadd
        refine iff_of_false (fun hkeeps => ?_) fun hh => hh.2.1 hempty
        obtain ⟨hstep, -⟩ := (keeps_iff (c := .add ts events true doLock) hadd).mp hkeeps
        have hkey : v.HasKey ts.fd := (hstep.keys ts.fd).mpr (by simp [descriptors])
        exact hmem ((h.keys _).mp hkey)
      · rw [if_neg (by simpa using hempty)] at hadd
        refine iff_of_true ?_ ⟨hfd, hempty, rfl⟩
        refine (keeps_iff (c := .add ts events true doLock) hadd).mpr
          ⟨inStep_append h hfd hmem events ts.ptr, ?_⟩
        exact iff_of_true (by omega) hmem
  · -- an error is taken for a place
    have herr : addFd v.fdlist ts.fd events mem = (-1, v.fdlist) := if_pos (by omega)
    rw [herr, if_neg (by simp)] at hadd
    refine iff_of_false (fun hkeeps => ?_) fun hh => hfd hh.1
    obtain ⟨hstep, -⟩ := (keeps_iff (c := .add ts events mem doLock) hadd).mp hkeeps
    exact hmem ((hstep.keys ts.fd).mp ((hasKey_update v _ _ _ _ _).mpr (.inl rfl)))

/-- **Deleting** takes the lock and gives it back. -/
lemma delTs_eq (h : v.InStep) (ts : PollSock) (mem doLock : Bool) :
    v.delTs ts mem doLock = some ((delFd v.fdlist ts.fd mem).1,
      ⟨(delFd v.fdlist ts.fd mem).2, v.tslist.erase ts.fd, false⟩) := by
  rw [delTs, wrlock_of_free h.free, Option.map_some]
  dsimp only
  rw [unlock_mk]

/-- **Clearing** leaves the empty list. -/
lemma clear_eq (h : v.InStep) (doLock : Bool) : v.clear doLock = some (0, empty) := by
  rw [clear, wrlock_of_free h.free, Option.map_some]
  dsimp only
  rw [unlock_mk]
  rfl

/-- Deleting what is not there leaves the array. -/
lemma delFd_of_notMem {fdlist : List Pollfd} {fd : ℤ} (hmem : fd ∉ descriptors fdlist)
    (mem : Bool) : (delFd fdlist fd mem).2 = fdlist := by
  obtain ⟨-, hpos⟩ | ⟨i, -, hi⟩ := findFd_spec fdlist fd
  · rw [delFd, hpos]
    split_ifs <;> rfl
  · exact absurd (List.mem_of_getElem? hi) hmem

/-- **Which deletions keep the list.**

**Proof sketch.** By whether the descriptor is in the list. If it is, both lists lose it, unless
there is no memory for a smaller array that is not empty (`delFd_eq`); if it is not, neither
changes. -/
lemma keeps_del_iff (h : v.InStep) (ts : PollSock) (mem doLock : Bool) :
    v.Keeps (.del ts mem doLock) ↔ v.Handled (.del ts mem doLock) := by
  have hdel : v.perform (.del ts mem doLock) = some (if (delFd v.fdlist ts.fd mem).1 then 1 else 0,
      ⟨(delFd v.fdlist ts.fd mem).2, v.tslist.erase ts.fd, false⟩) := by
    rw [perform, delTs_eq h, Option.map_some]
  rw [keeps_iff hdel, Handled, AddsNew, and_true]
  by_cases hmem : ts.fd ∈ descriptors v.fdlist
  · have hfds := delFd_eq (h.nonneg _ hmem) h.nodup hmem mem
    by_cases hkept : v.fdlist.length = 1 ∨ mem
    · rw [if_pos hkept] at hfds
      refine iff_of_true ⟨fun fd => ?_, ?_, ?_, rfl⟩ fun _ hne => hkept.resolve_left hne
      · rw [hasKey_erase, h.keys, hfds, h.nodup.mem_erase_iff]
      · rw [hfds]
        exact h.nodup.erase ts.fd
      · rw [hfds]
        exact fun fd hfd => h.nonneg fd (List.mem_of_mem_erase hfd)
    · -- the array is lost, but there are other keys
      rw [if_neg hkept] at hfds
      push Not at hkept
      refine iff_of_false (fun hstep => ?_) fun hh => hkept.2 (hh hmem hkept.1)
      have hother : (descriptors v.fdlist).erase ts.fd ≠ [] := by
        apply List.ne_nil_of_length_pos
        have hpos := List.length_pos_of_mem hmem
        rw [List.length_erase_of_mem hmem]
        simp only [descriptors, List.length_map] at hpos ⊢
        omega
      obtain ⟨fd, hfd⟩ := List.exists_mem_of_ne_nil _ hother
      obtain ⟨hne, hin⟩ := h.nodup.mem_erase_iff.mp hfd
      have hkey := (hstep.keys fd).mp
        ((hasKey_erase v _ _ _ _).mpr ⟨hne, (h.keys fd).mpr hin⟩)
      rw [hfds] at hkey
      exact List.not_mem_nil hkey
  · rw [delFd_of_notMem hmem]
    refine iff_of_true ⟨fun fd => ?_, h.nodup, h.nonneg, rfl⟩ fun hin => absurd hin hmem
    rw [hasKey_erase, h.keys]
    refine and_iff_right_of_imp fun hfd => ?_
    rintro rfl
    exact hmem hfd

/-- **Which calls keep the array and the map in step.** -/
lemma keeps_iff_handled (h : v.InStep) (c : PollCall) : v.Keeps c ↔ v.Handled c := by
  cases c with
  | add ts events mem doLock => exact keeps_add_iff h ts events mem doLock
  | del ts mem doLock => exact keeps_del_iff h ts mem doLock
  | clear doLock =>
    rw [keeps_iff (v := v) (c := .clear doLock) (clear_eq h doLock), Handled, AddsNew]
    exact iff_of_true ⟨inStep_empty, trivial⟩ trivial

/-! ## Sequences of calls -/

/-- A sequence of calls keeps the array and the map in step exactly when each of its calls is
handled, in the list that the calls before it have left. -/
lemma staysInStep_iff_allHandled (h : v.InStep) (cs : List PollCall) :
    v.StaysInStep cs ↔ v.AllHandled cs := by
  induction cs generalizing v with
  | nil => exact Iff.rfl
  | cons c cs ih =>
    rw [StaysInStep, AllHandled, ← keeps_iff_handled h]
    constructor
    · rintro ⟨ret, v', hperform, hstep, hadds, hrest⟩
      refine ⟨⟨ret, v', hperform, hstep, hadds⟩, fun ret₁ v₁ h₁ => ?_⟩
      obtain ⟨rfl, rfl⟩ := Prod.mk.inj (Option.some.inj (hperform.symm.trans h₁))
      exact (ih hstep).mp hrest
    · rintro ⟨⟨ret, v', hperform, hstep, hadds⟩, hrest⟩
      exact ⟨ret, v', hperform, hstep, hadds, (ih hstep).mpr (hrest ret v' hperform)⟩

/-- The first socket has the place `0`, so that it is not handled. -/
lemma handled_of_nil_iff (hnil : v.fdlist = []) (c : PollCall) :
    v.Handled c ↔ c.isAdd = false := by
  have hmem : ∀ fd, fd ∉ descriptors v.fdlist := by simp [hnil, descriptors]
  cases c with
  | add ts events mem doLock =>
    rw [Handled, if_neg (hmem _)]
    exact iff_of_false (fun hh => hh.2.1 hnil) (by simp [PollCall.isAdd])
  | del ts mem doLock => exact iff_of_true (fun hin => absurd hin (hmem _)) rfl
  | clear doLock => exact iff_of_true trivial rfl

/-- A call that adds nothing leaves the empty list. -/
lemma fdlist_eq_nil_of_perform (h : v.InStep) (hnil : v.fdlist = []) {c : PollCall}
    (hadd : c.isAdd = false) {ret : ℤ} {v' : VPollfdTs} (hperform : v.perform c = some (ret, v')) :
    v'.fdlist = [] := by
  cases c with
  | add ts events mem doLock => cases hadd
  | del ts mem doLock =>
    rw [perform, delTs_eq h, Option.map_some, delFd_of_notMem (by simp [hnil, descriptors])]
      at hperform
    obtain ⟨-, rfl⟩ := Prod.mk.inj (Option.some.inj hperform)
    exact hnil
  | clear doLock =>
    rw [perform, clear_eq h] at hperform
    obtain ⟨-, rfl⟩ := Prod.mk.inj (Option.some.inj hperform)
    rfl

/-- **From the empty list** the sequences that are handled are those that add nothing. -/
lemma allHandled_of_nil_iff (h : v.InStep) (hnil : v.fdlist = []) (cs : List PollCall) :
    v.AllHandled cs ↔ ∀ c ∈ cs, c.isAdd = false := by
  induction cs generalizing v with
  | nil => simp [AllHandled]
  | cons c cs ih =>
    rw [AllHandled, List.forall_mem_cons, handled_of_nil_iff hnil]
    refine and_congr_right fun hadd => ?_
    obtain ⟨ret, v', hperform, hstep, -⟩ :=
      (keeps_iff_handled h c).mpr ((handled_of_nil_iff hnil c).mpr hadd)
    rw [← ih hstep (fdlist_eq_nil_of_perform h hnil hadd hperform)]
    constructor
    · exact fun hrest => hrest ret v' hperform
    · intro hrest ret₁ v₁ h₁
      obtain ⟨rfl, rfl⟩ := Prod.mk.inj (Option.some.inj (hperform.symm.trans h₁))
      exact hrest

/-- **A sequence of calls keeps the array and the map in step** exactly when each of its calls is
handled, in the list that the calls before it have left; from the empty list, exactly when none of
them adds a socket.

**Proof sketch.** Induction over the calls; a call that is handled leaves a list that is in step. A
call that adds nothing leaves the empty list. -/
theorem staysInStep_iff (h : v.InStep) (cs : List PollCall) :
    (v.StaysInStep cs ↔ v.AllHandled cs) ∧
      (v.fdlist = [] → (v.StaysInStep cs ↔ ∀ c ∈ cs, c.isAdd = false)) :=
  ⟨staysInStep_iff_allHandled h cs, fun hnil =>
    (staysInStep_iff_allHandled h cs).trans (allHandled_of_nil_iff h hnil cs)⟩

/-- A list with the descriptor 5, to which 7 is added; and an empty list. -/
theorem staysInStep_iff_seven :
    StaysInStep ⟨[⟨5, 1⟩], OrderedMap.empty.update 5 fun _ => 1, false⟩
        [.add ⟨2, 7⟩ 1 true true] ∧
      empty.StaysInStep [.del ⟨2, 7⟩ true true, .clear true] := by
  have hstep : InStep ⟨[⟨5, 1⟩], OrderedMap.empty.update 5 fun _ => 1, false⟩ := by
    refine ⟨fun fd => ?_, List.nodup_singleton _, ?_, rfl⟩
    · refine (hasKey_update empty 5 fd _ _ _).trans ?_
      rw [inStep_empty.keys]
      simp [empty, descriptors]
    · simp [descriptors]
  refine ⟨(staysInStep_iff hstep _).1.mpr ⟨⟨by decide, ?_⟩, fun _ _ _ => trivial⟩,
    ((staysInStep_iff inStep_empty _).2 rfl).mpr ?_⟩
  · rw [if_neg (by simp [descriptors])]
    exact ⟨List.cons_ne_nil _ _, rfl⟩
  · simp [PollCall.isAdd]

/-- **The first socket**: its descriptor is in the array, and not in the map. -/
theorem not_staysInStep_first : ¬ empty.StaysInStep [.add ⟨1, 5⟩ 1 true true] := by
  rintro ⟨ret, v', hperform, hstep, hadds, -⟩
  have hhandled := (keeps_iff_handled inStep_empty _).mp ⟨ret, v', hperform, hstep, hadds⟩
  exact Bool.noConfusion ((handled_of_nil_iff rfl _).mp hhandled)

end VPollfdTs

end Meowbot
