import Meowbot.Lib.Runs
import Meowbot.Reconnect
import Meowbot.Unread

set_option relaxedAutoImplicit false
set_option autoImplicit false

/-!
# The order of mixed reads (`tcpsock.cpp`)

`readline` and `readline_delim` read up to 512 bytes at a time and append what they do not need to
`read_buffer`, as if it were empty. It is, unless more than 512 bytes have been appended to it: then
the bytes behind a line come after those that followed them. Bytes also change places when a call
of `timed_read` gets ahead of a line of which a part is in `linebuf`. And a line that is too long
is cut, at a byte that is dropped.

The bytes that may be missing are the delimiter, and for `readline` also `\r` and `\0`.

## Main definitions

* `Meowbot.TcpSock.lineLoop` — the loop of `readline` and of `readline_delim`.
* `Meowbot.lineEnd`, `Meowbot.lineKept` — where a line ends, and which of its bytes are kept.
* `Meowbot.ReadCall.keeps` — the bytes that a call should return.
* `Meowbot.Reader` — a socket, with the bytes in the order in which they should come and those that
  have come.
* `Meowbot.Reader.InOrder` — the bytes come in order, and none is missing.

## Main results

* `Meowbot.TcpSock.lineLoop_spec` — what one call of the line readers does.
* `Meowbot.Reader.calls_inOrder` — the bytes come in order as long as nothing is put behind bytes
  that should follow it, and no line is cut.
-/

namespace Meowbot

open Runs

/-! ## Where a line ends -/

section Line

variable (skip : Byte → Bool) (delim : Byte) (limit : ℕ)

/-- The number of bytes up to the end of a line, of which `linebuf` has `k` bytes. -/
def lineEnd : ℕ → Bytes → Option ℕ
  | _, [] => none
  | k, c :: cs =>
    if skip c then (lineEnd k cs).map (· + 1)
    else if c = delim ∨ limit < k then some 1
    else (lineEnd (k + 1) cs).map (· + 1)

/-- The bytes of these that belong to the line. -/
def lineKept : ℕ → Bytes → Bytes
  | _, [] => []
  | k, c :: cs =>
    if skip c then lineKept k cs
    else if c = delim ∨ limit < k then []
    else c :: lineKept (k + 1) cs

/-- The loop of the line readers over the bytes of their buffer: `linebuf` afterwards, and if the
line is finished the bytes that remain in the buffer. -/
def scanLine (linebuf : Bytes) : Bytes → Bytes × Option Bytes
  | [] => (linebuf, none)
  | c :: cs =>
    if skip c then scanLine linebuf cs
    else if c = delim ∨ limit < linebuf.length then (linebuf, some cs)
    else scanLine (linebuf ++ [c]) cs

variable {skip delim limit}

/-- **The scan of a buffer** stops at the end of the line. -/
lemma scanLine_eq (linebuf buf : Bytes) :
    scanLine skip delim limit linebuf buf =
      (linebuf ++ lineKept skip delim limit linebuf.length buf,
        (lineEnd skip delim limit linebuf.length buf).map (buf.drop ·)) := by
  induction buf generalizing linebuf with
  | nil => simp [scanLine, lineKept, lineEnd]
  | cons c cs ih =>
    rw [scanLine, lineKept, lineEnd]
    split_ifs with hskip hend
    · rw [ih]
      simp [Function.comp_def]
    · simp
    · rw [ih]
      simp [Function.comp_def]

/-- A line ends behind one of the bytes. -/
lemma lineEnd_bounds {k n : ℕ} {x : Bytes} (h : lineEnd skip delim limit k x = some n) :
    0 < n ∧ n ≤ x.length := by
  induction x generalizing k n with
  | nil => simp [lineEnd] at h
  | cons c cs ih =>
    rw [lineEnd] at h
    rw [List.length_cons]
    split_ifs at h with hskip hend
    · obtain ⟨m, hm, rfl⟩ := Option.map_eq_some_iff.mp h
      have := ih hm
      omega
    · obtain rfl := Option.some.inj h
      omega
    · obtain ⟨m, hm, rfl⟩ := Option.map_eq_some_iff.mp h
      have := ih hm
      omega

/-- A line that goes on ends behind the bytes that follow.

**Proof sketch.** By induction on the first bytes, none of which ends the line; the end in the
others is found with the line as long as it has become. -/
lemma lineEnd_append {k : ℕ} {x : Bytes} (h : lineEnd skip delim limit k x = none) (y : Bytes) :
    lineEnd skip delim limit k (x ++ y) =
      (lineEnd skip delim limit (k + (lineKept skip delim limit k x).length) y).map
        (x.length + ·) := by
  induction x generalizing k with
  | nil => simp [lineKept]
  | cons c cs ih =>
    rw [lineEnd] at h
    rw [List.cons_append, lineEnd, lineKept]
    split_ifs at h ⊢ with hskip hend
    · rw [ih (Option.map_eq_none_iff.mp h), Option.map_map]
      congr 1
      funext n
      simp
      omega
    · rw [ih (Option.map_eq_none_iff.mp h), Option.map_map, List.length_cons, Nat.add_right_comm k,
        Nat.add_assoc k]
      congr 1
      funext n
      simp
      omega

/-- A line that goes on keeps bytes of those that follow. -/
lemma lineKept_append {k : ℕ} {x : Bytes} (h : lineEnd skip delim limit k x = none) (y : Bytes) :
    lineKept skip delim limit k (x ++ y) =
      lineKept skip delim limit k x ++
        lineKept skip delim limit (k + (lineKept skip delim limit k x).length) y := by
  induction x generalizing k with
  | nil => simp [lineKept]
  | cons c cs ih =>
    rw [lineEnd] at h
    rw [List.cons_append, lineKept, lineKept]
    split_ifs at h ⊢ with hskip hend
    · rw [ih (Option.map_eq_none_iff.mp h)]
    · rw [ih (Option.map_eq_none_iff.mp h), List.length_cons, Nat.add_right_comm k, Nat.add_assoc k]
      rfl

/-- The end of a line does not depend on the bytes that follow. -/
lemma lineEnd_append_of_some {k n : ℕ} {x : Bytes} (h : lineEnd skip delim limit k x = some n)
    (y : Bytes) : lineEnd skip delim limit k (x ++ y) = some n := by
  induction x generalizing k n with
  | nil => simp [lineEnd] at h
  | cons c cs ih =>
    rw [lineEnd] at h
    rw [List.cons_append, lineEnd]
    split_ifs at h ⊢ with hskip hend
    · obtain ⟨m, hm, rfl⟩ := Option.map_eq_some_iff.mp h
      rw [ih hm]
      rfl
    · exact h
    · obtain ⟨m, hm, rfl⟩ := Option.map_eq_some_iff.mp h
      rw [ih hm]
      rfl

/-- The bytes of a line are among those up to its end. -/
lemma lineKept_take {k n : ℕ} {x : Bytes} (h : lineEnd skip delim limit k x = some n) :
    lineKept skip delim limit k (x.take n) = lineKept skip delim limit k x := by
  induction x generalizing k n with
  | nil => simp [lineEnd] at h
  | cons c cs ih =>
    rw [lineEnd] at h
    split_ifs at h with hskip hend
    · obtain ⟨m, hm, rfl⟩ := Option.map_eq_some_iff.mp h
      rw [List.take_succ_cons, lineKept, lineKept, if_pos hskip, if_pos hskip, ih hm]
    · obtain rfl := Option.some.inj h
      simp [lineKept, hskip, hend]
    · obtain ⟨m, hm, rfl⟩ := Option.map_eq_some_iff.mp h
      rw [List.take_succ_cons, lineKept, lineKept, if_neg hskip, if_neg hskip, if_neg hend,
        if_neg hend, ih hm]

/-- A line ends behind the bytes up to its end. -/
lemma lineEnd_take {k n : ℕ} {x : Bytes} (h : lineEnd skip delim limit k x = some n) :
    lineEnd skip delim limit k (x.take n) = some n := by
  induction x generalizing k n with
  | nil => simp [lineEnd] at h
  | cons c cs ih =>
    rw [lineEnd] at h
    split_ifs at h with hskip hend
    · obtain ⟨m, hm, rfl⟩ := Option.map_eq_some_iff.mp h
      rw [List.take_succ_cons, lineEnd, if_pos hskip, ih hm]
      rfl
    · obtain rfl := Option.some.inj h
      rw [List.take_succ_cons, lineEnd, if_neg hskip, if_pos hend]
    · obtain ⟨m, hm, rfl⟩ := Option.map_eq_some_iff.mp h
      rw [List.take_succ_cons, lineEnd, if_neg hskip, if_neg hend, ih hm]
      rfl

/-- **Only the delimiter and the bytes to skip are missing** in a line that is not too long.

**Proof sketch.** By induction on the bytes. The line goes on until the delimiter, which is then the
last one of them; in front of it `linebuf` never gets longer than the limit allows. -/
lemma lineKept_eq_filter {k : ℕ} {x : Bytes}
    (hend : lineEnd skip delim limit k x = none ∨ lineEnd skip delim limit k x = some x.length)
    (hfits : (x.filter (!skip ·)).takeWhile (· ≠ delim) = [] ∨
      k + ((x.filter (!skip ·)).takeWhile (· ≠ delim)).length ≤ limit + 1) :
    lineKept skip delim limit k x = x.filter fun c => !skip c && c ≠ delim := by
  induction x generalizing k with
  | nil => rfl
  | cons c cs ih =>
    rw [lineEnd] at hend
    rw [lineKept]
    by_cases hskip : skip c
    · rw [if_pos hskip] at hend ⊢
      rw [List.filter_cons_of_neg (by simp [hskip])] at hfits ⊢
      refine ih ?_ hfits
      rcases hend with hend | hend
      · exact .inl (Option.map_eq_none_iff.mp hend)
      · obtain ⟨m, hm, hlen⟩ := Option.map_eq_some_iff.mp hend
        exact .inr (by rw [hm, Nat.succ.inj hlen])
    rw [if_neg hskip] at hend ⊢
    rw [List.filter_cons_of_pos (by simp [hskip])] at hfits
    by_cases hdelim : c = delim
    · rw [if_pos (.inl hdelim)] at hend ⊢
      have hnil : cs = [] := by
        rcases hend with hend | hend
        · cases hend
        · exact List.length_eq_zero_iff.mp (Nat.succ.inj (Option.some.inj hend)).symm
      simp [hnil, hdelim]
    · rw [List.takeWhile_cons_of_pos (by simp [hdelim]), List.length_cons] at hfits
      replace hfits := hfits.resolve_left (List.cons_ne_nil _ _)
      have hroom : ¬(c = delim ∨ limit < k) := by
        rw [not_or]
        exact ⟨hdelim, by omega⟩
      rw [if_neg hroom] at hend ⊢
      rw [List.filter_cons_of_pos (by simp [hskip, hdelim])]
      refine congrArg (c :: ·) (ih ?_ (.inr (by omega)))
      rcases hend with hend | hend
      · exact .inl (Option.map_eq_none_iff.mp hend)
      · obtain ⟨m, hm, hlen⟩ := Option.map_eq_some_iff.mp hend
        exact .inr (by rw [hm, Nat.succ.inj hlen])

end Line

namespace TcpSock

/-! ## The line readers -/

/-- How a call of a line reader ends. -/
inductive LineResult where
  /-- A line, before its conversion. -/
  | line (l : Bytes)
  | timedOut
  | closed

/-- The bytes that a call returns. -/
def LineResult.bytes : LineResult → Bytes
  | .line l => l
  | .timedOut => []
  | .closed => []

/-- The result and `*dest`. -/
def present (s : TcpSock) : LineResult → ℤ × Bytes
  | .line l => ((Int32.ofNat l.length).toInt, s.output l)
  | .timedOut => (-1, [])
  | .closed => (-2, [])

/-- The loop of `readline` and of `readline_delim`, which differ in the loop over the bytes of the
buffer. -/
def lineLoop (scan : Bytes → Bytes → Bytes × Option Bytes) (s : TcpSock) : LineResult × TcpSock :=
  match _h : s.timedReadNolock bufSize with
  | (.error, s') =>
    if s'.linebuf ≠ [] then (.line s'.linebuf, { s' with linebuf := [] }) else (.closed, s')
  | (.timedOut, s') => (.timedOut, s')
  | (.read buf, s') =>
    match scan s'.linebuf buf with
    | (linebuf, none) => lineLoop scan { s' with linebuf }
    | (linebuf, some remained) =>
      (.line linebuf, { s'.appendToReadBuffer remained with linebuf := [] })
termination_by s.readable
decreasing_by
  have := readable_timedReadNolock _h
  simp only [readable] at this ⊢
  omega

/-- A call of a line reader. -/
def getLine (scan : Bytes → Bytes → Bytes × Option Bytes) (s : TcpSock) : LineResult × TcpSock :=
  if s.status ≠ .connected then (.closed, s) else s.lineLoop scan

/-- The bytes that `readline` drops. -/
def isDropped (c : Byte) : Bool := c = CR ∨ c = 0

/-- The loop of `readline` over the bytes of its buffer is the one with these parameters. -/
lemma scanBuf_eq (limit : ℕ) (linebuf buf : Bytes) :
    scanBuf limit linebuf buf = scanLine isDropped LF limit linebuf buf := by
  induction buf generalizing linebuf with
  | nil => rfl
  | cons c cs ih => simp only [scanBuf, scanLine, isDropped, decide_eq_true_eq, ih]

/-- The one of `readline_delim` drops no bytes. -/
lemma scanDelim_eq (delim : Byte) (limit : ℕ) (linebuf buf : Bytes) :
    scanDelim delim limit linebuf buf =
      scanLine (fun _ => false) delim limit linebuf buf := by
  induction buf generalizing linebuf with
  | nil => rfl
  | cons c cs ih => simp [scanDelim, scanLine, ih]

/-- A read leaves the converter. -/
lemma convS2m_timedReadNolock (s : TcpSock) (size : ℕ) :
    (s.timedReadNolock size).2.convS2m = s.convS2m := by
  rw [timedReadNolock]
  split_ifs
  · rfl
  · rfl
  · rfl
  · rcases s.net with _ | ⟨_ | ⟨c, cs⟩, net⟩
    · simp only [close]
      split_ifs
      rfl
    · rfl
    · rfl

/-- The result depends on the converter only. -/
lemma present_congr {s s' : TcpSock} (h : s'.convS2m = s.convS2m) : s'.present = s.present := by
  funext r
  cases r <;> simp only [present, output, h]

/-- A loop that goes round as the line readers do is the common one.

**Proof sketch.** By strong induction on what is still to be read: a round that reads something
leaves less, and the other rounds end the loop in the same way. -/
lemma eq_lineLoop {scan : Bytes → Bytes → Bytes × Option Bytes}
    {loop : TcpSock → (ℤ × Bytes) × TcpSock}
    (hloop : ∀ s, loop s =
      match s.timedReadNolock bufSize with
      | (.error, s') => if s'.linebuf ≠ [] then s'.readFinished else ((-2, []), s')
      | (.timedOut, s') => ((-1, []), s')
      | (.read buf, s') =>
        match scan s'.linebuf buf with
        | (linebuf, none) => loop { s' with linebuf }
        | (linebuf, some remained) =>
          (({ s' with linebuf } : TcpSock).appendToReadBuffer remained).readFinished)
    (s : TcpSock) : loop s = (s.present (s.lineLoop scan).1, (s.lineLoop scan).2) := by
  induction hn : s.readable using Nat.strong_induction_on generalizing s with
  | _ n ih =>
    subst hn
    rcases hread : s.timedReadNolock bufSize with ⟨_ | _ | buf, s'⟩
    · have hconv : s'.convS2m = s.convS2m := by rw [← convS2m_timedReadNolock s bufSize, hread]
      rw [hloop, lineLoop, hread, ← present_congr hconv]
      dsimp only
      split_ifs <;> rfl
    · rw [hloop, lineLoop, hread]
      rfl
    · have hconv : s'.convS2m = s.convS2m := by rw [← convS2m_timedReadNolock s bufSize, hread]
      have hless := readable_timedReadNolock hread
      rw [hloop, lineLoop, hread, ← present_congr hconv]
      dsimp only
      rcases scan s'.linebuf buf with ⟨linebuf, _ | remained⟩
      · exact ih { s' with linebuf }.readable (by simp only [readable] at hless ⊢; omega) _ rfl
      · rfl

/-- `readline` is a call of a line reader. -/
lemma readline_eq (s : TcpSock) (maxsize : Int32) :
    s.readline maxsize =
      let r := s.getLine (scanLine isDropped LF (sizeLimit maxsize))
      (s.present r.1, r.2) := by
  have hscan : scanLine isDropped LF (sizeLimit maxsize) = scanBuf (sizeLimit maxsize) := by
    funext linebuf buf
    rw [scanBuf_eq]
  rw [readline, getLine, hscan]
  split_ifs
  · rfl
  · refine eq_lineLoop (fun s => ?_) s
    rw [readlineLoop]
    rcases s.timedReadNolock bufSize with ⟨_ | _ | buf, s'⟩ <;> rfl

/-- So is `readline_delim`. -/
lemma readlineDelim_eq (s : TcpSock) (delim : Byte) (maxsize : Int32) :
    s.readlineDelim delim maxsize =
      let r := s.getLine (scanLine (fun _ => false) delim (sizeLimit maxsize))
      (s.present r.1, r.2) := by
  have hscan : scanLine (fun _ => false) delim (sizeLimit maxsize) =
      scanDelim delim (sizeLimit maxsize) := by
    funext linebuf buf
    rw [scanDelim_eq]
  rw [readlineDelim, getLine, hscan]
  split_ifs
  · rfl
  · refine eq_lineLoop (fun s => ?_) s
    rw [readlineDelimLoop]
    rcases s.timedReadNolock bufSize with ⟨_ | _ | buf, s'⟩ <;> rfl

section Loop

variable {skip : Byte → Bool} {delim : Byte} {limit : ℕ} {s s' : TcpSock} {buf : Bytes}
  (hread : s.timedReadNolock bufSize = (.read buf, s'))

include hread

/-- The loop goes on if the line does not end in the buffer. -/
lemma lineLoop_more (hend : lineEnd skip delim limit s'.linebuf.length buf = none) :
    s.lineLoop (scanLine skip delim limit) =
      ({ s' with linebuf := s'.linebuf ++ lineKept skip delim limit s'.linebuf.length buf } :
        TcpSock).lineLoop (scanLine skip delim limit) := by
  rw [lineLoop, hread]
  simp only [scanLine_eq, hend, Option.map_none]

/-- The loop ends if the line ends in the buffer. -/
lemma lineLoop_end {n : ℕ} (hend : lineEnd skip delim limit s'.linebuf.length buf = some n) :
    s.lineLoop (scanLine skip delim limit) =
      (.line (s'.linebuf ++ lineKept skip delim limit s'.linebuf.length buf),
        { s' with readBuffer := s'.readBuffer ++ buf.drop n, linebuf := [] }) := by
  rw [lineLoop, hread]
  simp only [scanLine_eq, hend, Option.map_some, appendToReadBuffer]

end Loop

/-! ## One call -/

/-- **What a line reader puts back comes first**: if the line ends in `read_buffer`, then in the
last 512 bytes that a read takes from it, or at the end of such a read. -/
def PutsBackInFront (end? : ℕ → Bytes → Option ℕ) (s : TcpSock) : Prop :=
  ∀ n, s.status = .connected → end? s.linebuf.length s.readBuffer = some n →
    bufSize ∣ n ∨ s.readBuffer.length ≤ (n + bufSize - 1) / bufSize * bufSize

/-- A `read_buffer` that one read empties. -/
lemma PutsBackInFront.of_length_le {skip : Byte → Bool} {delim : Byte} {limit : ℕ} {s : TcpSock}
    (h : s.readBuffer.length ≤ bufSize) : s.PutsBackInFront (lineEnd skip delim limit) := by
  intro n _ hn
  have := lineEnd_bounds hn
  simp only [bufSize] at h ⊢
  omega

/-- **What is known after a call** of a line reader: it has taken bytes off the front of the unread
ones, of those that arrive in time and not beyond the end of the line; those of the line have been
returned or are in `linebuf`, and the others are unread. -/
structure TakesLine (skip : Byte → Bool) (delim : Byte) (limit : ℕ) (s : TcpSock)
    (r : LineResult × TcpSock) (x y : Bytes) : Prop where
  unread : s.unread = x ++ y
  prompt : x <+: s.prompt
  ends : lineEnd skip delim limit s.linebuf.length x = none ∨
    lineEnd skip delim limit s.linebuf.length x = some x.length
  idle : s.status ≠ .connected → x = []
  kept : r.1.bytes ++ r.2.linebuf =
    s.linebuf ++ lineKept skip delim limit s.linebuf.length x
  length : r.2.unread.length = y.length
  inFront : s.PutsBackInFront (lineEnd skip delim limit) → r.2.unread = y

/-- A call that takes nothing. -/
lemma TakesLine.of_unread {skip : Byte → Bool} {delim : Byte} {limit : ℕ} {s : TcpSock}
    {r : LineResult × TcpSock} (h : r.2.unread = s.unread)
    (hbytes : r.1.bytes ++ r.2.linebuf = s.linebuf) :
    TakesLine skip delim limit s r [] s.unread where
  unread := rfl
  prompt := List.nil_prefix
  ends := .inl rfl
  idle _ := rfl
  kept := by simp [hbytes, lineKept]
  length := by rw [h]
  inFront _ := h

/-- If the line goes on behind the bytes of a read, what is put back comes first as it did before.

**Proof sketch.** If the bytes come from the read buffer, the end of the line in the whole buffer is
that behind them, so the condition on the whole buffer gives the one on the rest. Otherwise the
buffer is empty, and no line ends in it. -/
lemma PutsBackInFront.after_read {skip : Byte → Bool} {delim : Byte} {limit : ℕ} {s : TcpSock}
    (h : s.PutsBackInFront (lineEnd skip delim limit)) {buf : Bytes} (net : List Arrival)
    (hfrom : buf = s.readBuffer.take bufSize ∨ s.readBuffer = [])
    (hend : lineEnd skip delim limit s.linebuf.length buf = none) :
    ({ s with
        readBuffer := s.readBuffer.drop bufSize
        net
        linebuf := s.linebuf ++ lineKept skip delim limit s.linebuf.length buf } :
      TcpSock).PutsBackInFront (lineEnd skip delim limit) := by
  intro n hs hn
  dsimp only at hs hn ⊢
  rcases hfrom with rfl | hb
  · have hlong : bufSize < s.readBuffer.length := by
      have := lineEnd_bounds hn
      simp only [List.length_drop] at this
      omega
    have hwhole : lineEnd skip delim limit s.linebuf.length s.readBuffer = some (bufSize + n) := by
      have hsplit := lineEnd_append hend (s.readBuffer.drop bufSize)
      rw [List.length_append] at hn
      rw [List.take_append_drop, hn, List.length_take_of_le hlong.le] at hsplit
      exact hsplit
    have hfront := h _ hs hwhole
    simp only [bufSize, List.length_drop] at hfront ⊢
    omega
  · rw [hb, List.drop_nil, lineEnd] at hn
    simp at hn

/-- **The loop of a line reader** takes a line, or a part of it.

**Proof sketch.** Induction on what reads can still use up. A read takes bytes off the front. If the
line does not end in them, all of them are taken, and if they come from `read_buffer`, the end of
the line is so many bytes nearer. If it does, the bytes behind it are put behind `read_buffer`: in
their place, if there are none or the read has emptied `read_buffer`. -/
lemma lineLoop_spec {skip : Byte → Bool} {delim : Byte} {limit : ℕ} {s : TcpSock}
    (hs : s.status = .connected) :
    ∃ x y, TakesLine skip delim limit s (s.lineLoop (scanLine skip delim limit)) x y := by
  induction hn : s.readable using Nat.strong_induction_on generalizing s with
  | _ n ih =>
    subst hn
    rcases timedReadNolock_spec hs (show bufSize ≠ 0 by decide) with
      ⟨hread, hb, hnet⟩ | ⟨net, hread, hb, hnet⟩ | ⟨buf, net, hread, hbytes, -, hlen, hfrom⟩
    · have hclose : s.close = { s with readBuffer := [], status := .disconnected } := by
        simp [close, hs]
      have hunread : s.unread = [] := by simp [unread, hb, hnet, stream]
      rw [lineLoop, hread, hclose]
      dsimp only
      split_ifs with hl
      · exact ⟨[], _, .of_unread (by simp [unread, hb]) (by simp [LineResult.bytes])⟩
      · exact ⟨[], _, .of_unread (by simp [unread, hb]) (by simp [LineResult.bytes])⟩
    · rw [lineLoop, hread]
      exact ⟨[], _, .of_unread (by simp [unread, hnet, stream, Arrival.bytes])
        (by simp [LineResult.bytes])⟩
    · obtain ⟨hmeasure, hpos⟩ := readable_timedReadNolock hread
      have hprompt := prompt_timedReadNolock hread
      have hsource : buf = s.readBuffer.take bufSize ∨ s.readBuffer = [] :=
        hfrom.imp (fun h => h.2.1) fun h => h.1
      cases hend : lineEnd skip delim limit s.linebuf.length buf with
      | none =>
        -- the line goes on
        set s₁ : TcpSock :=
          { s with
            readBuffer := s.readBuffer.drop bufSize
            net
            linebuf := s.linebuf ++ lineKept skip delim limit s.linebuf.length buf } with hs₁
        have hloop : s.lineLoop (scanLine skip delim limit) =
            s₁.lineLoop (scanLine skip delim limit) := lineLoop_more hread hend
        have hless : s₁.readable < s.readable := by
          simp only [readable, hs₁] at hmeasure ⊢
          omega
        obtain ⟨x, y, hunread, hin, hends, -, hkept, hlength, hfront⟩ :=
          ih _ hless (s := s₁) hs rfl
        have hs₁len : s₁.linebuf.length =
            s.linebuf.length + (lineKept skip delim limit s.linebuf.length buf).length := by
          rw [hs₁, List.length_append]
        rw [hloop]
        refine ⟨buf ++ x, y, ?_, ?_, ?_, fun h => absurd hs h, ?_, hlength,
          fun h => hfront (h.after_read net hsource hend)⟩
        · rw [hbytes, List.append_assoc, ← hunread, hs₁, unread]
        · rw [hprompt]
          exact List.prefix_append_right_inj _ |>.mpr hin
        · rw [lineEnd_append hend, ← hs₁len]
          refine hends.imp (fun h => by rw [h]; rfl) fun h => ?_
          rw [h, List.length_append]
          rfl
        · rw [hkept, lineKept_append hend]
          simp [hs₁]
      | some n =>
        -- the line ends in the buffer
        have hbounds := lineEnd_bounds hend
        rw [lineLoop_end hread hend]
        refine ⟨buf.take n, buf.drop n ++ (s.readBuffer.drop bufSize ++ stream net), ?_, ?_, ?_,
          fun h => absurd hs h, ?_, ?_, fun h => ?_⟩
        · rw [hbytes, ← List.append_assoc (buf.take n), List.take_append_drop]
        · rw [hprompt]
          exact (List.take_prefix n buf).trans (List.prefix_append _ _)
        · rw [lineEnd_take hend, List.length_take_of_le hbounds.2]
          exact .inr rfl
        · rw [lineKept_take hend]
          simp [LineResult.bytes]
        · simp [unread]
          omega
        · have hnil : s.readBuffer.drop bufSize = [] ∨ buf.drop n = [] := by
            rcases hsource with rfl | hb
            · have hwhole := lineEnd_append_of_some hend (s.readBuffer.drop bufSize)
              rw [List.take_append_drop] at hwhole
              have hfront := h n hs hwhole
              simp only [List.drop_eq_nil_iff, List.length_take, bufSize] at hfront hbounds ⊢
              omega
            · exact .inl (by rw [hb, List.drop_nil])
          rcases hnil with hnil | hnil
          · simp [unread, hnil]
          · simp [unread, hnil]

/-- **One call of a line reader** takes a line, or a part of it. -/
lemma getLine_spec (skip : Byte → Bool) (delim : Byte) (limit : ℕ) (s : TcpSock) :
    ∃ x y, TakesLine skip delim limit s (s.getLine (scanLine skip delim limit)) x y := by
  rw [getLine]
  split_ifs with hs
  · exact ⟨[], _, .of_unread rfl rfl⟩
  · exact lineLoop_spec (not_not.mp hs)

end TcpSock

/-! ## Calls on one connection -/

/-- A call on a connection. -/
inductive ReadCall where
  | appendToReadBuffer (data : Bytes)
  | timedRead (size : ℕ)
  | readline (maxsize : Int32)
  | readlineDelim (delim : Byte) (maxsize : Int32)

/-- The bytes that a call should return of those that it takes: all but the delimiter of a line,
and for `readline` all but `\r` and `\0`. -/
def ReadCall.keeps : ReadCall → Byte → Bool
  | .appendToReadBuffer _ => fun _ => true
  | .timedRead _ => fun _ => true
  | .readline _ => fun c => c ≠ CR ∧ c ≠ 0 ∧ c ≠ LF
  | .readlineDelim delim _ => fun c => c ≠ delim

/-- A socket, with what has been read from it: the bytes in their right order, those that each call
has taken, and those that have been returned. The last three are not in the source; they say what
the order should be. -/
structure Reader where
  sock : TcpSock
  /-- The bytes in the order in which they should come: what is appended comes behind what
  `read_buffer` has, and before the stream. -/
  source : Bytes
  /-- The calls that have read, each with the bytes that it has taken. -/
  taken : List (ReadCall × Bytes)
  /-- The bytes that have been returned. -/
  delivered : Bytes

namespace Reader

open TcpSock

/-- A connection from which nothing has been read. -/
def connected (convS2m : Option (Bytes → Bytes)) (net : List Arrival) : Reader where
  sock := .connected convS2m net
  source := stream net
  taken := []
  delivered := []

/-- The bytes that have been taken. -/
def consumed (r : Reader) : Bytes := r.taken.flatMap fun t => t.2

/-- Those of them that should be returned. -/
def kept (r : Reader) : Bytes := r.taken.flatMap fun t => t.2.filter t.1.keeps

/-- The bytes that a call has taken off the front of the unread ones. -/
def takenBy (s s' : TcpSock) : Bytes := s.unread.take (s.unread.length - s'.unread.length)

/-- What is known after a call of a line reader: what has been taken, and the line that it returns,
before its conversion. -/
def stepLine (r : Reader) (call : ReadCall) (skip : Byte → Bool) (delim : Byte) (limit : ℕ)
    (sock : TcpSock) : Reader :=
  { sock
    source := r.source
    taken := r.taken ++ [(call, takenBy r.sock sock)]
    delivered := r.delivered ++ (r.sock.getLine (scanLine skip delim limit)).1.bytes }

/-- A call. `timed_read` is `timed_read_nolock` between `lock_read` and `unlock_read`. What a call
takes is seen by comparing what is unread before it and after it. -/
def step (r : Reader) : ReadCall → Reader
  | .appendToReadBuffer data =>
    let sent := stream r.sock.net
    { r with
      sock := r.sock.appendToReadBuffer data
      source := r.source.take (r.source.length - sent.length) ++ data ++ sent }
  | .timedRead size =>
    match r.sock.timedReadNolock size with
    | (.read buf, sock) =>
      { r with
        sock
        taken := r.taken ++ [(.timedRead size, takenBy r.sock sock)]
        delivered := r.delivered ++ buf }
    | (_, sock) => { r with sock }
  | .readline maxsize =>
    r.stepLine (.readline maxsize) isDropped LF (sizeLimit maxsize) (r.sock.readline maxsize).2
  | .readlineDelim delim maxsize =>
    r.stepLine (.readlineDelim delim maxsize) (fun _ => false) delim (sizeLimit maxsize)
      (r.sock.readlineDelim delim maxsize).2

/-- **The bytes come in order**: those that have been taken and those that are unread are the bytes
in the order in which they should come; those that have been returned and those of an unfinished
line are, of what each call has taken, all that it should return. -/
structure InOrder (r : Reader) : Prop where
  consumed : r.consumed ++ r.sock.unread = r.source
  delivered : r.delivered ++ r.sock.linebuf = r.kept

/-- No read of some size brings a byte. -/
def Silent (s : TcpSock) (size : ℕ) : Prop :=
  s.status ≠ .connected ∨ size = 0 ∨
    s.readBuffer = [] ∧ ∀ c cs net, s.net ≠ .data c cs :: net

/-- The line of which a part is in `linebuf`, as far as it arrives in time, is not too long, or
nothing more of it arrives. -/
def FitsLine (skip : Byte → Bool) (delim : Byte) (limit : ℕ) (s : TcpSock) : Prop :=
  s.status = .connected → (s.prompt.filter (!skip ·)).takeWhile (· ≠ delim) = [] ∨
    s.linebuf.length + ((s.prompt.filter (!skip ·)).takeWhile (· ≠ delim)).length ≤ limit + 1

instance (skip : Byte → Bool) (delim : Byte) (limit : ℕ) (s : TcpSock) :
    Decidable (FitsLine skip delim limit s) :=
  inferInstanceAs (Decidable (_ → _ ∨ _))

/-- **A call keeps the order**: a line reader puts nothing behind bytes that should follow it and
cuts no line, and `timed_read` brings nothing while a part of a line is in `linebuf`. -/
def KeepsOrder (r : Reader) : ReadCall → Prop
  | .appendToReadBuffer _ => True
  | .timedRead size => r.sock.linebuf = [] ∨ Silent r.sock size
  | .readline maxsize =>
    r.sock.PutsBackInFront (lineEnd isDropped LF (sizeLimit maxsize)) ∧
      FitsLine isDropped LF (sizeLimit maxsize) r.sock
  | .readlineDelim delim maxsize =>
    r.sock.PutsBackInFront (lineEnd (fun _ => false) delim (sizeLimit maxsize)) ∧
      FitsLine (fun _ => false) delim (sizeLimit maxsize) r.sock

/-- The step relation of calls. -/
abbrev Calls : Reader → ReadCall → Reader → Prop := Fun fun r c => some (r.step c)

/-! ## What a call keeps -/

/-- What is left tells what has been taken. -/
lemma takenBy_eq {s s' : TcpSock} {x y : Bytes} (h : s.unread = x ++ y)
    (hlength : s'.unread.length = y.length) : takenBy s s' = x := by
  rw [takenBy, h, hlength, List.length_append, Nat.add_sub_cancel, List.take_left]

/-- A line that fits as far as it arrives in time fits as far as it has been taken. -/
lemma FitsLine.of_prefix {skip : Byte → Bool} {delim : Byte} {limit : ℕ} {s : TcpSock}
    (h : FitsLine skip delim limit s) (hs : s.status = .connected) {x : Bytes}
    (hx : x <+: s.prompt) :
    (x.filter (!skip ·)).takeWhile (· ≠ delim) = [] ∨
      s.linebuf.length + ((x.filter (!skip ·)).takeWhile (· ≠ delim)).length ≤ limit + 1 := by
  obtain ⟨t, ht⟩ := hx
  have hfits := h hs
  rw [← ht, List.filter_append, List.takeWhile_append] at hfits
  split_ifs at hfits with hall
  · rw [List.append_eq_nil_iff, List.length_append] at hfits
    refine hfits.imp (fun hnil => ?_) fun hlen => by omega
    rw [hnil.1, List.takeWhile_nil]
  · exact hfits

/-- **A call of a line reader** that puts nothing behind bytes that should follow it, and cuts no
line, keeps the order.

**Proof sketch.** `getLine_spec` cuts what is unread into the part that was gone through and the
rest, which stays in order as the condition holds; what the line keeps of the part is what the call
is to keep, as the line has room. -/
lemma InOrder.stepLine {r : Reader} (hr : r.InOrder) {call : ReadCall} {skip : Byte → Bool}
    {delim : Byte} {limit : ℕ} (hcall : call.keeps = fun c => !skip c && c ≠ delim)
    (h : r.sock.PutsBackInFront (lineEnd skip delim limit))
    (hfits : FitsLine skip delim limit r.sock) :
    (r.stepLine call skip delim limit
      (r.sock.getLine (scanLine skip delim limit)).2).InOrder := by
  obtain ⟨x, y, hunread, hin, hends, hidle, hkept, hlength, hfront⟩ :=
    getLine_spec skip delim limit r.sock
  have htaken := takenBy_eq hunread hlength
  have hmissing : lineKept skip delim limit r.sock.linebuf.length x =
      x.filter fun c => !skip c && c ≠ delim := by
    by_cases hs : r.sock.status = .connected
    · exact lineKept_eq_filter hends (hfits.of_prefix hs hin)
    · rw [hidle hs]
      rfl
  constructor
  · simp only [Reader.stepLine, htaken, Reader.consumed, List.flatMap_append]
    rw [hfront h, List.append_assoc]
    change r.consumed ++ ((x ++ []) ++ y) = r.source
    rw [List.append_nil, ← hunread, hr.consumed]
  · simp only [Reader.stepLine, htaken, Reader.kept, List.flatMap_append]
    change _ = r.kept ++ (x.filter call.keeps ++ [])
    rw [List.append_assoc, hkept, hmissing, ← hr.delivered, hcall, List.append_nil,
      List.append_assoc]

/-- What is appended to `read_buffer` comes behind it and before the stream. -/
lemma InOrder.append {r : Reader} (hr : r.InOrder) (data : Bytes) :
    (r.step (.appendToReadBuffer data)).InOrder := by
  refine ⟨?_, hr.delivered⟩
  have hlength : r.source.length - (stream r.sock.net).length =
      (r.consumed ++ r.sock.readBuffer).length := by
    rw [← hr.consumed, unread]
    simp
    omega
  have hsource : r.source = r.consumed ++ r.sock.readBuffer ++ stream r.sock.net := by
    rw [← hr.consumed, unread, List.append_assoc]
  simp only [step]
  rw [hlength, hsource, List.take_left, unread]
  simp [TcpSock.appendToReadBuffer, Reader.consumed]

/-- A read leaves `linebuf`, and if it brings nothing also the unread bytes.

**Proof sketch.** By cases on the state and on the size, then along `timedReadNolock_spec`. Bytes
come from the buffer or from the network, so something was there to be read. -/
lemma read_cases (s : TcpSock) (size : ℕ) :
    (∃ buf s', s.timedReadNolock size = (.read buf, s') ∧ ¬ Silent s size ∧
      s.unread = buf ++ s'.unread ∧ s'.linebuf = s.linebuf) ∨
    ∃ result s', s.timedReadNolock size = (result, s') ∧ (∀ buf, result ≠ .read buf) ∧
      s'.unread = s.unread ∧ s'.linebuf = s.linebuf := by
  by_cases hs : s.status = .connected
  swap
  · exact .inr ⟨.error, s, by rw [timedReadNolock, if_pos hs], by simp, rfl, rfl⟩
  by_cases hsize : size = 0
  · exact .inr ⟨.timedOut, s, by simp [timedReadNolock, hs, hsize], by simp, rfl, rfl⟩
  rcases timedReadNolock_spec hs hsize with
    ⟨hread, hb, hnet⟩ | ⟨net, hread, hb, hnet⟩ | ⟨buf, net, hread, hbytes, -, -, hfrom⟩
  · refine .inr ⟨_, _, hread, by simp, ?_, ?_⟩
    · simp [unread, close, hs, hb]
    · simp [close, hs]
  · exact .inr ⟨_, _, hread, by simp, by simp [unread, hnet, stream, Arrival.bytes], rfl⟩
  · refine .inl ⟨buf, _, hread, fun hsilent => ?_, hbytes, rfl⟩
    rcases hsilent with hclosed | hzero | ⟨hb, hnet⟩
    · exact hclosed hs
    · exact hsize hzero
    · rcases hfrom with ⟨hne, -⟩ | ⟨-, c, cs, net', hdata, -⟩
      · exact hne hb
      · exact hnet c cs net' hdata

/-- **A call of `timed_read`** that does not get ahead of a part of a line keeps the order.

**Proof sketch.** If something is read, no part of a line is waiting, and the bytes go behind those
that have been delivered. If nothing is read, neither the unread bytes nor `linebuf` change. -/
lemma InOrder.timedRead {r : Reader} (hr : r.InOrder) {size : ℕ}
    (h : r.sock.linebuf = [] ∨ Silent r.sock size) : (r.step (.timedRead size)).InOrder := by
  rcases read_cases r.sock size with
    ⟨buf, s', hread, hbrings, hunread, hlinebuf⟩ | ⟨result, s', hread, hnone, hunread, hlinebuf⟩
  · have htaken : takenBy r.sock s' = buf := takenBy_eq hunread rfl
    have hnil : r.sock.linebuf = [] := h.resolve_right hbrings
    have hall : buf.filter (ReadCall.keeps (.timedRead size)) = buf :=
      List.filter_eq_self.mpr fun _ _ => rfl
    simp only [step, hread, htaken]
    constructor
    · simp only [Reader.consumed, List.flatMap_append]
      change r.consumed ++ (buf ++ []) ++ s'.unread = r.source
      rw [List.append_nil, List.append_assoc, ← hunread, hr.consumed]
    · simp only [Reader.kept, List.flatMap_append]
      change _ = r.kept ++ (buf.filter (ReadCall.keeps (.timedRead size)) ++ [])
      rw [hall, hlinebuf, hnil, ← hr.delivered, hnil]
      simp
  · have hstep : r.step (.timedRead size) = { r with sock := s' } := by
      rw [step, hread]
      cases result with
      | error => rfl
      | timedOut => rfl
      | read buf => exact absurd rfl (hnone buf)
    rw [hstep]
    exact ⟨(congrArg (r.consumed ++ ·) hunread).trans hr.consumed,
      (congrArg (r.delivered ++ ·) hlinebuf).trans hr.delivered⟩

/-- **A call** that keeps the order. -/
lemma InOrder.step {r : Reader} (hr : r.InOrder) {c : ReadCall} (h : r.KeepsOrder c) :
    (r.step c).InOrder := by
  cases c with
  | appendToReadBuffer data => exact hr.append data
  | timedRead size => exact hr.timedRead h
  | readline maxsize =>
    rw [Reader.step, readline_eq]
    refine hr.stepLine (funext fun c => ?_) h.1 h.2
    simp [ReadCall.keeps, isDropped, Bool.and_assoc]
  | readlineDelim delim maxsize =>
    rw [Reader.step, readlineDelim_eq]
    exact hr.stepLine (funext fun c => by simp [ReadCall.keeps]) h.1 h.2

/-- **The bytes come in order** after any calls of which each puts nothing behind bytes that should
follow it, gets ahead of no part of a line and cuts no line. The bytes that are missing are those
that the calls of `readline` and `readline_delim` should leave out. -/
theorem calls_inOrder {convS2m : Option (Bytes → Bytes)} {net : List Arrival} {calls : List ReadCall}
    {r : Reader} (h : Run (Under Calls KeepsOrder) (connected convS2m net) calls r) :
    r.InOrder := by
  refine h.preserves (I := InOrder) (fun s c t hs hstep => ?_) ⟨rfl, rfl⟩
  obtain ⟨hcall, hkeeps⟩ := hstep
  obtain rfl := Option.some.inj hcall
  exact hs.step hkeeps

/-- A call of a line reader that reads to the end of the line. -/
lemma stepLine_of_end {r : Reader} {call : ReadCall} {skip : Byte → Bool} {delim : Byte} {limit n : ℕ}
    {buf taken : Bytes} {s' : TcpSock} (hs : r.sock.status = .connected)
    (hread : r.sock.timedReadNolock bufSize = (.read buf, s'))
    (hend : lineEnd skip delim limit s'.linebuf.length buf = some n)
    (htaken : takenBy r.sock
      { s' with readBuffer := s'.readBuffer ++ buf.drop n, linebuf := [] } = taken) :
    r.stepLine call skip delim limit (r.sock.getLine (scanLine skip delim limit)).2 =
      { sock := { s' with readBuffer := s'.readBuffer ++ buf.drop n, linebuf := [] }
        source := r.source
        taken := r.taken ++ [(call, taken)]
        delivered := r.delivered ++
          (s'.linebuf ++ lineKept skip delim limit s'.linebuf.length buf) } := by
  rw [stepLine, getLine, if_neg (not_not.mpr hs), lineLoop_end hread hend]
  dsimp only
  rw [htaken]
  rfl

/-- A line is read from a buffer with a line and a half, a byte without a delimiter, and a line of
the stream with another delimiter.

**Proof sketch.** The four calls are evaluated one after the other, and each of them meets the
condition. -/
theorem calls_inOrder_mixed :
    ∃ calls r, Run (Under Calls KeepsOrder) (connected none [.data 99 [100, LF]]) calls r ∧
      r.delivered = [97, 98, 99] ∧ r.source = [97, LF, 98, 99, 100, LF] ∧ r.InOrder := by
  set r₁ : Reader := (connected none [.data 99 [100, LF]]).step (.appendToReadBuffer [97, LF, 98])
    with hr₁
  have hline : r₁.step (.readline (-1)) =
      { sock := { TcpSock.connected none [.data 99 [100, LF]] with readBuffer := [98] }
        source := [97, LF, 98, 99, 100, LF]
        taken := [(.readline (-1), [97, LF])]
        delivered := [97] } := by
    rw [step, readline_eq, stepLine_of_end (n := 2) rfl rfl rfl rfl]
    rfl
  set r₂ := r₁.step (.readline (-1)) with hr₂
  set r₃ := r₂.step (.timedRead 1) with hr₃
  have hdelim : r₃.step (.readlineDelim 100 (-1)) =
      { sock := { TcpSock.connected none [] with readBuffer := [LF] }
        source := [97, LF, 98, 99, 100, LF]
        taken := [(.readline (-1), [97, LF]), (.timedRead 1, [98]),
          (.readlineDelim 100 (-1), [99, 100])]
        delivered := [97, 98, 99] } := by
    have htimed : r₃ =
        { sock := TcpSock.connected none [.data 99 [100, LF]]
          source := [97, LF, 98, 99, 100, LF]
          taken := [(.readline (-1), [97, LF]), (.timedRead 1, [98])]
          delivered := [97, 98] } := by
      rw [hr₃, hline]
      rfl
    rw [htimed, step, readlineDelim_eq, stepLine_of_end (n := 2) rfl rfl rfl rfl]
    rfl
  have hrun : Run (Under Calls KeepsOrder) (connected none [.data 99 [100, LF]])
      [.appendToReadBuffer [97, LF, 98], .readline (-1), .timedRead 1, .readlineDelim 100 (-1)]
      (r₃.step (.readlineDelim 100 (-1))) := by
    refine .cons (t := r₁) ⟨rfl, trivial⟩ (.cons (t := r₂) ⟨rfl, ?_⟩ (.cons (t := r₃) ⟨rfl, ?_⟩
      (.cons ⟨rfl, ?_⟩ (.nil _))))
    · exact ⟨PutsBackInFront.of_length_le (by decide), by decide +kernel⟩
    · exact .inl (by rw [hline]; rfl)
    · rw [hr₃, hline]
      exact ⟨PutsBackInFront.of_length_le (by decide), by decide +kernel⟩
  exact ⟨_, _, hrun, by rw [hdelim], by rw [hdelim], calls_inOrder hrun⟩

/-- **A pushed-back byte that comes after a byte that followed it**: of 513 appended bytes a line
reader takes 512, of which the line has two, and puts the others behind the last one, which is
delivered next. **A byte that gets ahead of a line**: the `a` of `ab` is in `linebuf` when
`timed_read` brings the `b`. And **a byte that never comes**: the `b` of `ab`, where a line is cut
behind the `a`.

**Proof sketch.** Each of the three runs is evaluated call by call. In the first the byte 99 comes
before 510 others, in the second the `b` comes before the `a`, in the third the `b` is gone though
the line is `ab`. -/
theorem not_calls_inOrder :
    (∃ calls r, Run Calls (connected none []) calls r ∧ r.delivered = [97, 99] ∧
      r.source = 97 :: LF :: (List.replicate 510 98 ++ [99]) ∧ ¬ r.InOrder) ∧
    (∃ calls r,
      Run Calls (connected none [.data 97 [], .timeout, .data 98 [], .data LF []]) calls r ∧
      r.delivered = [98, 97] ∧ r.source = [97, 98, LF] ∧ ¬ r.InOrder) ∧
    ∃ calls r, Run Calls (connected none [.data 97 [98, LF]]) calls r ∧
      r.delivered = [97] ∧ r.sock.unread = [LF] ∧ ¬ r.InOrder := by
  refine ⟨?_, ?_, ?_⟩
  · generalize hw : List.replicate 510 (98 : Byte) = w
    have hlength : w.length = 510 := by rw [← hw, List.length_replicate]
    set data : Bytes := 97 :: LF :: (w ++ [99]) with hdata
    set r₁ : Reader := { connected none [] with
      sock := { TcpSock.connected none [] with readBuffer := data }
      source := data } with hr₁
    have happend : (connected none []).step (.appendToReadBuffer data) = r₁ := by
      simp [step, hr₁, connected, TcpSock.connected, appendToReadBuffer, stream]
    have hread : r₁.sock.timedReadNolock bufSize =
        (.read (97 :: LF :: w), { TcpSock.connected none [] with readBuffer := [99] }) := by
      have htake : (w ++ [99]).take 510 = w := by rw [← hlength, List.take_left]
      have hdrop : (w ++ [99]).drop 510 = [99] := by rw [← hlength, List.drop_left]
      simp [timedReadNolock, hr₁, hdata, TcpSock.connected, bufSize, htake, hdrop]
    have hline : r₁.step (.readline (-1)) =
        { sock := { TcpSock.connected none [] with readBuffer := 99 :: w }
          source := data
          taken := [(.readline (-1), [97, LF])]
          delivered := [97] } := by
      have htaken : takenBy r₁.sock
          { TcpSock.connected none [] with readBuffer := [99] ++ w, linebuf := [] } = [97, LF] := by
        refine takenBy_eq (y := w ++ [99]) ?_ ?_
        · simp [hr₁, hdata, unread, TcpSock.connected, stream]
        · simp [unread, TcpSock.connected, stream]
      rw [step, readline_eq, stepLine_of_end (n := 2) rfl hread rfl htaken]
      rfl
    have htimed : (r₁.step (.readline (-1))).step (.timedRead 1) =
        { sock := { TcpSock.connected none [] with readBuffer := w }
          source := data
          taken := [(.readline (-1), [97, LF]), (.timedRead 1, [99])]
          delivered := [97, 99] } := by
      have htaken : takenBy { TcpSock.connected none [] with readBuffer := 99 :: w }
          { TcpSock.connected none [] with readBuffer := w } = [99] :=
        takenBy_eq rfl rfl
      have hone : ({ TcpSock.connected none [] with readBuffer := 99 :: w } :
          TcpSock).timedReadNolock 1 =
            (.read [99], { TcpSock.connected none [] with readBuffer := w }) := by
        simp [timedReadNolock, TcpSock.connected]
      rw [hline, step, hone]
      dsimp only
      rw [htaken]
      rfl
    refine ⟨[.appendToReadBuffer data, .readline (-1), .timedRead 1],
      (r₁.step (.readline (-1))).step (.timedRead 1),
      .cons (t := r₁) (congrArg some happend) (.cons rfl (.cons rfl (.nil _))), by rw [htimed],
      by rw [htimed], fun h => ?_⟩
    have horder := h.consumed
    rw [htimed] at horder
    have hthird : 99 :: w = w ++ [99] := by
      simpa [hdata, unread, consumed, TcpSock.connected, stream] using horder
    rw [← hw, List.replicate_succ] at hthird
    exact absurd (List.cons.inj hthird).1 (by decide)
  · set r₁ : Reader :=
      connected none [.data 97 [], .timeout, .data 98 [], .data LF []] with hr₁
    have hpart : r₁.step (.readline (-1)) =
        { r₁ with
          sock := { TcpSock.connected none [.data 98 [], .data LF []] with linebuf := [97] }
          taken := [(.readline (-1), [97])] } := by
      rw [step, readline_eq, stepLine, getLine, if_neg (by decide), lineLoop_more rfl rfl, lineLoop]
      rfl
    set r₂ := r₁.step (.readline (-1)) with hr₂
    have hend : (r₂.step (.timedRead 1)).step (.readline (-1)) =
        { r₁ with
          sock := TcpSock.connected none []
          taken := [(.readline (-1), [97]), (.timedRead 1, [98]), (.readline (-1), [LF])]
          delivered := [98, 97] } := by
      have htimed : r₂.step (.timedRead 1) =
          { r₁ with
            sock := { TcpSock.connected none [.data LF []] with linebuf := [97] }
            taken := [(.readline (-1), [97]), (.timedRead 1, [98])]
            delivered := [98] } := by
        rw [hpart]
        rfl
      rw [htimed, step, readline_eq, stepLine_of_end (n := 1) rfl rfl rfl rfl]
      rfl
    refine ⟨[.readline (-1), .timedRead 1, .readline (-1)], _,
      .cons (t := r₂) rfl (.cons rfl (.cons rfl (.nil _))), by rw [hend], by rw [hend]; rfl,
      fun h => ?_⟩
    have hdelivered := h.delivered
    rw [hend] at hdelivered
    exact absurd hdelivered (by decide)
  · have hcut : (connected none [.data 97 [98, LF]]).step (.readline 0) =
        { sock := { TcpSock.connected none [] with readBuffer := [LF] }
          source := [97, 98, LF]
          taken := [(.readline 0, [97, 98])]
          delivered := [97] } := by
      rw [step, readline_eq, stepLine_of_end (n := 2) rfl rfl rfl rfl]
      rfl
    refine ⟨[.readline 0], _, .cons rfl (.nil _), by rw [hcut], by rw [hcut]; rfl, fun h => ?_⟩
    have hdelivered := h.delivered
    rw [hcut] at hdelivered
    exact absurd hdelivered (by decide)

end Reader

end Meowbot
