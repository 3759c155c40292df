import Meowbot.Basic
import Mathlib.Data.List.Sort
import Mathlib.Data.List.Induction

set_option relaxedAutoImplicit false
set_option autoImplicit false

/-!
# Timers (`ircbot.cpp`)

The timers are kept in a vector that is sorted by the time at which they are due, and whoever adds
or deletes timers sorts it again. A pass of the timer thread calls the timers from the first one on
and stops at the first one that is not due. It moves the time of a timer that it has called and does
not sort, so that the next pass may stop in front of a timer that is due.

The passes and the calls that change the timers hold the same lock, so each is one operation here.
The sort of the standard library is a parameter: which of two timers with the same time comes first
is not specified.

## Main definitions

* `Meowbot.TimerInfo` — `ircbot_timer_info`; `Meowbot.TimerSort` — a sort of timers.
* `Meowbot.timerPass` — one pass of the timer thread.
* `Meowbot.TimerOp`, `Timers.perform` — the operations on the timers.
* `Meowbot.OnTime` — a pass calls the timers that are due, on a sorted list.
* `Meowbot.KeepsOrder` — what a pass reschedules does not overtake other timers.

## Main results

* `Meowbot.timerPass_of_sorted` — what a pass does on a sorted list.
* `Meowbot.Timers.passes_onTime_iff` — all passes are on time exactly when no pass that is followed
  by another one without a sort in between lets a timer overtake another.
-/

namespace Meowbot

/-! ## The functions of the source -/

/-- A callback, as a pointer. -/
abbrev TimerCb := ℕ

/-- `IRCBOT_TIMERATTR_ONCE`. -/
def timerattrOnce : UInt32 := 1

/-- `IRCBOT_TIMERATTR_ATTIME`. -/
def timerattrAttime : UInt32 := 2 ||| timerattrOnce

/-- `ircbot_timer_info`. Times are in seconds, the interval is in milliseconds. The callback and its
data are numbers, as what a callback does is not part of the list. -/
structure TimerInfo where
  id : ℕ
  name : Bytes
  /-- `fxn`, perhaps `NULL`. -/
  fxn : Option TimerCb
  interval : ℤ
  next : ℤ
  attr : UInt32
  userdata : ℕ
  deriving DecidableEq

/-- `ircbot_timer_info::ircbot_timer_info`, at a time. -/
def TimerInfo.init (id : ℕ) (name : Bytes) (fxn : Option TimerCb) (interval : ℤ) (attr : UInt32)
    (userdata : ℕ) (now : ℤ) : TimerInfo :=
  { id, name, fxn, interval, attr, userdata
    next := if attr &&& timerattrAttime = timerattrAttime then interval
      else now + interval.tdiv 1000 }

/-- A sort of timers by `ircbot_timer_sort_comparator`, as `std::sort` is specified. -/
structure TimerSort where
  sort : List TimerInfo → List TimerInfo
  perm : ∀ ts, (sort ts).Perm ts
  sorted : ∀ ts, (sort ts).Pairwise fun t u => t.next ≤ u.next

/-- The timers of an `ircbot`. -/
structure Timers where
  timers : List TimerInfo
  timerNextid : ℕ

/-- The counter after one has been taken; a negative one becomes `0`. -/
def timerIdSucc (id : ℕ) : ℕ := if id + 1 ≤ int32Max then id + 1 else 0

/-- `ircbot::add_timer`, at a time. The timer is put at the end and the list is sorted; the next id
wraps as an `int` does, and a missing callback is refused. -/
def Timers.addTimer (s : Timers) (σ : TimerSort) (name : Bytes) (fxn : Option TimerCb)
    (interval : ℤ) (userdata : ℕ) (attr : UInt32) (now : ℤ) : ℤ × Timers :=
  if fxn = none then (-1, s)
  else
    (s.timerNextid,
      { timers := σ.sort
          (s.timers ++ [.init s.timerNextid name fxn interval attr userdata now])
        timerNextid := timerIdSucc s.timerNextid })

/-- `ircbot::del_timer`. -/
def Timers.delTimer (s : Timers) (σ : TimerSort) (name : Bytes) : Timers :=
  { s with timers := σ.sort (s.timers.filter fun t => t.name ≠ name) }

/-- `ircbot::del_timer_by_cbptr`. -/
def Timers.delTimerByCbptr (s : Timers) (σ : TimerSort) (fxn : Option TimerCb) : Timers :=
  { s with timers := σ.sort (s.timers.filter fun t => t.fxn ≠ fxn) }

/-- A timer is called once only. -/
def TimerInfo.once (t : TimerInfo) : Bool := t.attr &&& timerattrOnce ≠ 0

/-- A timer is due. -/
def TimerInfo.due (now : ℤ) (t : TimerInfo) : Bool := t.next ≤ now

/-- A timer after a call. -/
def TimerInfo.reschedule (now : ℤ) (t : TimerInfo) : TimerInfo :=
  { t with next := now + t.interval.tdiv 1000 }

/-- The loop of `timer_thread` over the timers at a time: the timers afterwards, and the timers
whose callbacks have been called, in order. -/
def timerPass (now : ℤ) : List TimerInfo → List TimerInfo × List TimerInfo
  | [] => ([], [])
  | t :: ts =>
    if t.next > now then (t :: ts, [])
    else
      let r := timerPass now ts
      (if t.once then r.1 else t.reschedule now :: r.1,
        if t.fxn = none then r.2 else t :: r.2)

/-! ## Histories -/

/-- An operation on the timers, with the time of those that read the clock. -/
inductive TimerOp where
  | addTimer (name : Bytes) (fxn : Option TimerCb) (interval : ℤ) (userdata : ℕ) (attr : UInt32)
    (now : ℤ)
  | delTimer (name : Bytes)
  | delTimerByCbptr (fxn : Option TimerCb)
  /-- A pass of `timer_thread`. -/
  | pass (now : ℤ)

/-- A call of `add_timer` without a callback. -/
def TimerOp.Rejected : TimerOp → Prop
  | .addTimer _ fxn _ _ _ _ => fxn = none
  | _ => False

namespace Timers

/-- The timers at the start. -/
def init : Timers := { timers := [], timerNextid := 0 }

/-- What an operation does to the timers. -/
def perform (σ : TimerSort) (s : Timers) : TimerOp → Timers
  | .addTimer name fxn interval userdata attr now =>
    (s.addTimer σ name fxn interval userdata attr now).2
  | .delTimer name => s.delTimer σ name
  | .delTimerByCbptr fxn => s.delTimerByCbptr σ fxn
  | .pass now => { s with timers := (timerPass now s.timers).1 }

/-- The timers after some operations. -/
def after (σ : TimerSort) (ops : List TimerOp) : Timers := ops.foldl (perform σ) init

end Timers

/-- The timers are sorted by the time at which they are due. -/
def SortedTimers (ts : List TimerInfo) : Prop := ts.Pairwise fun t u => t.next ≤ u.next

/-- **A pass on time**: the list is sorted when it starts, it calls each timer that is due once, and
leaves the timers that are not due as they are, removes those that are called once only and
reschedules the others. -/
structure OnTime (now : ℤ) (ts : List TimerInfo) : Prop where
  sorted : SortedTimers ts
  called : (timerPass now ts).2.Perm (ts.filter (TimerInfo.due now))
  left : (timerPass now ts).1.Perm
    (ts.filter (fun t => !t.due now) ++
      (ts.filter fun t => t.due now && !t.once).map (TimerInfo.reschedule now))

/-- **What is rescheduled keeps the order**: the timers that are due and repeat have ascending
intervals, which do not reach beyond any timer that is not due. -/
structure KeepsOrder (now : ℤ) (ts : List TimerInfo) : Prop where
  ascending : (ts.filter fun t => t.due now && !t.once).Pairwise fun t u =>
    t.interval.tdiv 1000 ≤ u.interval.tdiv 1000
  behind : ∀ t ∈ ts, t.due now = true → t.once = false → ∀ u ∈ ts, u.due now = false →
    now + t.interval.tdiv 1000 ≤ u.next

/-! ## One pass -/

/-- **A pass on a sorted list** calls the timers that are due, and leaves those that repeat, with
their new times, in front of those that are not due.

**Proof sketch.** Induction on the list. Behind the first timer that is not due, none is due. -/
lemma timerPass_of_sorted {now : ℤ} {ts : List TimerInfo} (hs : SortedTimers ts)
    (hfxn : ∀ t ∈ ts, t.fxn ≠ none) :
    timerPass now ts =
      ((ts.filter fun t => t.due now && !t.once).map (TimerInfo.reschedule now) ++
        ts.filter (fun t => !t.due now), ts.filter (TimerInfo.due now)) := by
  induction ts with
  | nil => rfl
  | cons t ts ih =>
    obtain ⟨hfirst, hrest⟩ := List.pairwise_cons.mp hs
    obtain ⟨htfxn, hfxn⟩ := List.forall_mem_cons.mp hfxn
    rw [timerPass]
    by_cases hdue : t.due now = true
    · have hnext : ¬ t.next > now := by
        rw [TimerInfo.due, decide_eq_true_eq] at hdue
        omega
      rw [if_neg hnext, ih hrest hfxn]
      dsimp only
      rw [if_neg htfxn]
      by_cases honce : t.once = true
      · simp [hdue, honce]
      · simp [hdue, honce]
    · have hnone : ∀ u ∈ t :: ts, u.due now = false := by
        intro u hu
        simp only [TimerInfo.due, decide_eq_true_eq, decide_eq_false_iff_not] at hdue ⊢
        rcases List.mem_cons.mp hu with rfl | hu
        · exact hdue
        · have := hfirst u hu
          omega
      have hnext : t.next > now := by
        rw [TimerInfo.due, decide_eq_true_eq] at hdue
        omega
      have h1 : (t :: ts).filter (TimerInfo.due now) = [] :=
        List.filter_eq_nil_iff.mpr fun u hu => by simp [hnone u hu]
      have h2 : (t :: ts).filter (fun t => t.due now && !t.once) = [] :=
        List.filter_eq_nil_iff.mpr fun u hu => by simp [hnone u hu]
      have h3 : (t :: ts).filter (fun t => !t.due now) = t :: ts :=
        List.filter_eq_self.mpr fun u hu => by simp [hnone u hu]
      rw [if_pos hnext, h1, h2, h3]
      rfl

/-- A pass on a sorted list of timers with callbacks is on time. -/
lemma onTime_of_sorted {now : ℤ} {ts : List TimerInfo} (hs : SortedTimers ts)
    (hfxn : ∀ t ∈ ts, t.fxn ≠ none) : OnTime now ts := by
  refine ⟨hs, ?_, ?_⟩
  · rw [timerPass_of_sorted hs hfxn]
  · rw [timerPass_of_sorted hs hfxn]
    exact List.perm_append_comm

/-- **The list after a pass** on a sorted list is sorted exactly when the pass keeps the order.

**Proof sketch.** On a sorted list the timers that are due are in front, so after the pass the list
is those that are rescheduled and then the others; it is sorted exactly if these two parts are, and
if no timer of the first is behind one of the second. -/
lemma sorted_timerPass_iff {now : ℤ} {ts : List TimerInfo} (hs : SortedTimers ts)
    (hfxn : ∀ t ∈ ts, t.fxn ≠ none) :
    SortedTimers (timerPass now ts).1 ↔ KeepsOrder now ts := by
  rw [timerPass_of_sorted hs hfxn, SortedTimers, List.pairwise_append, List.pairwise_map]
  constructor
  · rintro ⟨hasc, -, hbehind⟩
    refine ⟨hasc.imp fun h => ?_, fun t ht hdue honce u hu hnot => ?_⟩
    · simpa [TimerInfo.reschedule] using h
    · refine hbehind (t.reschedule now) (List.mem_map_of_mem ?_) u ?_
      · exact List.mem_filter.mpr ⟨ht, by simp [hdue, honce]⟩
      · exact List.mem_filter.mpr ⟨hu, by simp [hnot]⟩
  · rintro ⟨hasc, hbehind⟩
    refine ⟨hasc.imp fun h => ?_, hs.filter _, fun v hv u hu => ?_⟩
    · simpa [TimerInfo.reschedule] using h
    · obtain ⟨t, ht, rfl⟩ := List.mem_map.mp hv
      obtain ⟨ht, hflags⟩ := List.mem_filter.mp ht
      obtain ⟨hu, hnot⟩ := List.mem_filter.mp hu
      simp only [Bool.and_eq_true, Bool.not_eq_true'] at hflags hnot
      exact hbehind t ht hflags.1 hflags.2 u hu hnot

/-- A pass keeps timers whose callbacks are set. -/
lemma fxn_timerPass {now : ℤ} {ts : List TimerInfo} (h : ∀ t ∈ ts, t.fxn ≠ none) :
    ∀ t ∈ (timerPass now ts).1, t.fxn ≠ none := by
  induction ts with
  | nil => exact h
  | cons t ts ih =>
    obtain ⟨ht, hts⟩ := List.forall_mem_cons.mp h
    rw [timerPass]
    split_ifs
    · exact h
    · exact ih hts
    · exact List.forall_mem_cons.mpr ⟨ht, ih hts⟩

/-! ## Histories of passes -/

namespace Timers

/-- The timers after one more operation. -/
lemma after_concat (σ : TimerSort) (ops : List TimerOp) (op : TimerOp) :
    after σ (ops ++ [op]) = (after σ ops).perform σ op := by
  rw [after, List.foldl_append]
  rfl

/-- **The callbacks are set**, since `add_timer` rejects `NULL`.

**Proof sketch.** By induction on the operations: a timer is added with a callback only, and the
other operations and the sorting bring in no timer. -/
lemma fxn_after (σ : TimerSort) (ops : List TimerOp) :
    ∀ t ∈ (after σ ops).timers, t.fxn ≠ none := by
  induction ops using List.reverseRecOn with
  | nil => exact fun t ht => absurd ht List.not_mem_nil
  | append_singleton ops op ih =>
    rw [after_concat]
    cases op with
    | addTimer name fxn interval userdata attr now =>
      rw [perform, addTimer]
      split_ifs with hfxn
      · exact ih
      · intro t ht
        rcases List.mem_append.mp ((σ.perm _).mem_iff.mp ht) with ht | ht
        · exact ih t ht
        · rw [List.mem_singleton.mp ht]
          exact hfxn
    | delTimer name =>
      intro t ht
      exact ih t (List.mem_filter.mp ((σ.perm _).mem_iff.mp ht)).1
    | delTimerByCbptr fxn =>
      intro t ht
      exact ih t (List.mem_filter.mp ((σ.perm _).mem_iff.mp ht)).1
    | pass now => exact fxn_timerPass ih

/-- **An operation other than a pass** sorts the timers, or it is rejected and changes nothing. -/
lemma perform_cases (σ : TimerSort) (s : Timers) (op : TimerOp) :
    (∃ now, op = .pass now) ∨ (op.Rejected ∧ s.perform σ op = s) ∨
      (¬ op.Rejected ∧ SortedTimers (s.perform σ op).timers) := by
  cases op with
  | pass now => exact .inl ⟨now, rfl⟩
  | addTimer name fxn interval userdata attr now =>
    by_cases hfxn : fxn = none
    · exact .inr (.inl ⟨hfxn, by simp [perform, addTimer, hfxn]⟩)
    · refine .inr (.inr ⟨hfxn, ?_⟩)
      rw [perform, addTimer, if_neg hfxn]
      exact σ.sorted _
  | delTimer name => exact .inr (.inr ⟨fun h => h, σ.sorted _⟩)
  | delTimerByCbptr fxn => exact .inr (.inr ⟨fun h => h, σ.sorted _⟩)

/-- Rejected operations change nothing. -/
lemma after_rejected (σ : TimerSort) (ops : List TimerOp) {mid : List TimerOp}
    (h : ∀ op ∈ mid, op.Rejected) : after σ (ops ++ mid) = after σ ops := by
  induction mid using List.reverseRecOn with
  | nil => rw [List.append_nil]
  | append_singleton mid op ih =>
    have hmid := ih fun op hop => h op (List.mem_append_left _ hop)
    have hop := h op (List.mem_append_right _ (List.mem_singleton.mpr rfl))
    rw [← List.append_assoc, after_concat, hmid]
    rcases perform_cases σ (after σ ops) op with ⟨now, rfl⟩ | ⟨-, hsame⟩ | ⟨hnot, -⟩
    · exact absurd hop (fun h => h)
    · exact hsame
    · exact absurd hop hnot

/-- **The timers are sorted before a pass** if no earlier pass that is followed by another one
without a sort in between lets a timer overtake another.

**Proof sketch.** Induction on the operations before the pass, from the last one on. Those that are
rejected are put to those that follow. -/
lemma sorted_after {σ : TimerSort} {ops : List TimerOp}
    (h : ∀ pre now mid now' post, ops = pre ++ .pass now :: (mid ++ .pass now' :: post) →
      (∀ op ∈ mid, op.Rejected) → KeepsOrder now (after σ pre).timers) (pre : List TimerOp) :
    ∀ mid now post, ops = pre ++ (mid ++ .pass now :: post) → (∀ op ∈ mid, op.Rejected) →
      SortedTimers (after σ pre).timers := by
  induction pre using List.reverseRecOn with
  | nil => exact fun _ _ _ _ _ => List.Pairwise.nil
  | append_singleton pre op ih =>
    intro mid now post hops hmid
    rw [List.append_assoc, List.singleton_append] at hops
    rw [after_concat]
    rcases perform_cases σ (after σ pre) op with ⟨now₀, rfl⟩ | ⟨hop, hsame⟩ | ⟨-, hsorted⟩
    · have hsorted := ih [] now₀ _ hops (by simp)
      exact (sorted_timerPass_iff hsorted (fxn_after σ pre)).mpr (h pre now₀ mid now post hops hmid)
    · rw [hsame]
      exact ih (op :: mid) now post hops (List.forall_mem_cons.mpr ⟨hop, hmid⟩)
    · exact hsorted

/-- **All passes are on time** exactly when, for every two passes with no sort in between, the first
one keeps the order: the timers that it reschedules have ascending intervals in the order of the
list, and get times no later than that of any timer that was not due.

**Proof sketch.** Additions and deletions sort, and calls that are rejected change nothing. So the
list before a pass is the one left by the pass before it, unless it has been sorted since. What a
pass leaves of a sorted list are the rescheduled timers in front of those that were not due. -/
theorem passes_onTime_iff (σ : TimerSort) (ops : List TimerOp) :
    (∀ pre now post, ops = pre ++ .pass now :: post → OnTime now (after σ pre).timers) ↔
      ∀ pre now mid now' post, ops = pre ++ .pass now :: (mid ++ .pass now' :: post) →
        (∀ op ∈ mid, op.Rejected) → KeepsOrder now (after σ pre).timers := by
  constructor
  · intro h pre now mid now' post hops hmid
    have hfirst := (h pre now _ hops).sorted
    have hsecond : SortedTimers (after σ (pre ++ [.pass now] ++ mid)).timers := by
      refine (h (pre ++ [.pass now] ++ mid) now' post ?_).sorted
      rw [hops, List.append_assoc, List.append_assoc, List.singleton_append]
    rw [after_rejected σ _ hmid, after_concat] at hsecond
    exact (sorted_timerPass_iff hfirst (fxn_after σ pre)).mp hsecond
  · intro h pre now post hops
    exact onTime_of_sorted (sorted_after h pre [] now post hops (by simp)) (fxn_after σ pre)

/-- Insertion sort, which is one of the sorts of the standard library. -/
def insertionSort : TimerSort where
  sort ts := ts.insertionSort fun t u => t.next ≤ u.next
  perm ts := List.perm_insertionSort _ ts
  sorted ts := by
    have : Std.Total fun t u : TimerInfo => t.next ≤ u.next := ⟨fun t u => le_total _ _⟩
    have : IsTrans TimerInfo fun t u => t.next ≤ u.next := ⟨fun _ _ _ => le_trans⟩
    exact List.pairwise_insertionSort _ ts

/-- Two timers that repeat, the first one with the longer interval, and two passes. -/
def slowAndFast : List TimerOp :=
  [.addTimer (bytes "slow") (some 1) 100000 0 0 0, .addTimer (bytes "fast") (some 2) 1000 0 0 100,
    .pass 101]

/-- **A timer that is due and is not called**: the first pass puts the slow timer before the fast
one, which is due again at the next pass but is not reached. -/
theorem not_passes_onTime :
    ¬ OnTime 102 (after insertionSort slowAndFast).timers ∧
      (timerPass 102 (after insertionSort slowAndFast).timers).2 = [] ∧
      ((after insertionSort slowAndFast).timers.filter (TimerInfo.due 102)).map TimerInfo.name =
        [bytes "fast"] := by
  refine ⟨fun h => ?_, by decide, by decide⟩
  have hsorted := h.sorted
  revert hsorted
  unfold SortedTimers
  decide

end Timers

end Meowbot
