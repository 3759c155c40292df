import Meowbot.TcpSock

set_option relaxedAutoImplicit false
set_option autoImplicit false

/-!
# Using a socket again (`tcpsock.cpp`)

Input that has arrived and is not yet part of a delivered line waits in `read_buffer` and in
`linebuf`. Closing a connected socket clears the first and forgets the second, and closing one that
is closed already clears neither. What is left is read in front of the first line of the next
connection.

## Main definitions

* `Meowbot.SockOp`, `TcpSock.perform` — the operations on a socket, and what they do.
* `Meowbot.TcpSock.CleanReconnect` — the lines read after a reconnect are those of a new socket.

## Main results

* `Meowbot.TcpSock.readlineLoop_buffered` — how bytes in the buffers come before those of the peer.
* `Meowbot.TcpSock.cleanReconnect_iff` — a reconnect is clean exactly when nothing is left.
-/

namespace Meowbot

/-! ## The operations -/

/-- An operation on a socket, with what the world contributes to it: the bytes and timeouts that are
to arrive, and whether a write fails. -/
inductive SockOp where
  /-- A call of `connect`, with what is to arrive if a connection is made. -/
  | connect (net : Option (List Arrival))
  | close
  /-- `read`, which does not look at `read_buffer`. -/
  | rawRead (size : ℕ)
  | timedRead (size : ℕ)
  /-- `timed_read_acc` into a buffer with some contents, with the number of rounds that the clock
  allows after the first. -/
  | timedReadAcc (dest : Bytes) (rounds : ℕ)
  | readline (maxsize : Int32)
  | readlineDelim (delim : Byte) (maxsize : Int32)
  | appendToReadBuffer (data : Bytes)
  | clearReadBuffer
  /-- A write, which closes the socket if it fails. -/
  | timedWrite (fails : Bool)
  | setEncoding (convS2m : Option (Bytes → Bytes))

namespace TcpSock

/-- `tcpsock::tcpsock`. -/
def init : TcpSock :=
  { status := .disconnected, convS2m := none, readBuffer := [], linebuf := [], net := [] }

/-- `tcpsock::connect`, which may fail. -/
def connect (s : TcpSock) (net : Option (List Arrival)) : TcpSock :=
  if s.status = .connected then s
  else match net with
    | some net => { s with status := .connected, net }
    | none => s

/-- `tcpsock::read`: one `read` of the descriptor, at whose end the socket is not closed. -/
def rawRead (s : TcpSock) (size : ℕ) : TcpSock :=
  if s.status ≠ .connected then s
  else match s.net with
    | [] => s
    | .timeout :: net => { s with net }
    | .data c cs :: net => { s with net := putBack ((c :: cs).drop size) net }

/-- The loop of `timed_read_acc`, with the contents of the buffer and the number of bytes read so
far. Every read stores its bytes at the start of the buffer. -/
def timedReadAccLoop (size : ℕ) : ℕ → TcpSock → Bytes → ℕ → TcpSock × Bytes × ℕ
  | rounds, s, dest, total =>
    match s.timedReadNolock (size - total) with
    | (.error, s) => (s, dest, total)
    | (.timedOut, s) => (s, dest, total)
    | (.read buf, s) =>
      let dest := buf ++ dest.drop buf.length
      let total := min size (total + buf.length)
      match rounds with
      | 0 => (s, dest, total)
      | rounds + 1 =>
        if total = size then (s, dest, total) else timedReadAccLoop size rounds s dest total

/-- `tcpsock::timed_read_acc`: too few bytes are put into `read_buffer`. -/
def timedReadAcc (s : TcpSock) (dest : Bytes) (rounds : ℕ) : TcpSock :=
  if s.status ≠ .connected then s
  else
    let r := timedReadAccLoop dest.length rounds s dest 0
    if r.2.2 < dest.length ∧ r.1.status = .connected then
      r.1.appendToReadBuffer (r.2.1.take r.2.2)
    else r.1

/-- The loop of `readline_delim` over the bytes of its buffer. -/
def scanDelim (delim : Byte) (maxsize : ℕ) (linebuf : Bytes) : Bytes → Bytes × Option Bytes
  | [] => (linebuf, none)
  | c :: cs =>
    if c = delim ∨ maxsize < linebuf.length then (linebuf, some cs)
    else scanDelim delim maxsize (linebuf ++ [c]) cs

/-- The loop of `readline_delim`. It is that of `readline` with another scan, which leaves out no
byte but the delimiter. -/
def readlineDelimLoop (delim : Byte) (maxsize : ℕ) (s : TcpSock) : (ℤ × Bytes) × TcpSock :=
  match h : s.timedReadNolock bufSize with
  | (.error, s') => if s'.linebuf ≠ [] then s'.readFinished else ((-2, []), s')
  | (.timedOut, s') => ((-1, []), s')
  | (.read buf, s') =>
    match scanDelim delim maxsize s'.linebuf buf with
    | (linebuf, none) => readlineDelimLoop delim maxsize { s' with linebuf }
    | (linebuf, some remained) =>
      (({ s' with linebuf } : TcpSock).appendToReadBuffer remained).readFinished
termination_by s.readable
decreasing_by
  have := readable_timedReadNolock h
  simp only [readable] at this ⊢
  omega

/-- `tcpsock::readline_delim`. -/
def readlineDelim (s : TcpSock) (delim : Byte) (maxsize : Int32) : (ℤ × Bytes) × TcpSock :=
  if s.status ≠ .connected then ((-2, []), s) else s.readlineDelimLoop delim (sizeLimit maxsize)

/-- What an operation does to the socket, without its result. A write that fails closes it, and
setting the encoding leaves the buffers alone. -/
def perform (s : TcpSock) : SockOp → TcpSock
  | .connect net => s.connect net
  | .close => s.close
  | .rawRead size => s.rawRead size
  | .timedRead size => (s.timedReadNolock size).2
  | .timedReadAcc dest rounds => s.timedReadAcc dest rounds
  | .readline maxsize => (s.readline maxsize).2
  | .readlineDelim delim maxsize => (s.readlineDelim delim maxsize).2
  | .appendToReadBuffer data => s.appendToReadBuffer data
  | .clearReadBuffer => { s with readBuffer := [] }
  | .timedWrite fails => if fails then s.close else s
  | .setEncoding convS2m => { s with convS2m }

/-- **A clean reconnect**: after `close` and a new connection, whatever arrives on it, the results
of any number of calls of `readline` are those of a new socket with the same converter. -/
def CleanReconnect (s : TcpSock) : Prop :=
  ∀ net maxsize n, ((s.close.connect (some net)).readlines maxsize n).1 =
    ((connected s.convS2m net).readlines maxsize n).1

/-! ## What is read first -/

/-- A scan that finds no end of a line adds the line bytes to `linebuf`. -/
lemma scanBuf_none {maxsize : ℕ} {linebuf buf l : Bytes}
    (h : scanBuf maxsize linebuf buf = (l, none)) : l = linebuf ++ lineBytes buf := by
  induction buf generalizing linebuf with
  | nil =>
    obtain ⟨rfl, -⟩ := Prod.mk.inj h
    simp [lineBytes]
  | cons c cs ih =>
    rw [scanBuf] at h
    split_ifs at h with hskip hstop
    · rw [ih h, lineBytes_cons_skip hskip]
    · cases (Prod.mk.inj h).2
    · rw [ih h, lineBytes_cons_keep hskip, List.append_assoc, List.singleton_append]

/-- Bytes that are not part of a line are scanned without effect. -/
lemma scanBuf_skip {buf : Bytes} (h : lineBytes buf = []) (maxsize : ℕ) (linebuf : Bytes) :
    scanBuf maxsize linebuf buf = (linebuf, none) := by
  induction buf with
  | nil => rfl
  | cons c cs ih =>
    by_cases hskip : c = CR ∨ c = 0
    · rw [lineBytes_cons_skip hskip] at h
      rw [scanBuf, if_pos hskip, ih h]
    · rw [lineBytes_cons_keep hskip] at h
      cases h

/-- One round of the loop of `readline` while there are bytes in `read_buffer`. -/
lemma readlineLoop_of_readBuffer {s : TcpSock} (hs : s.status = .connected)
    (hrb : s.readBuffer ≠ []) (maxsize : ℕ) :
    s.readlineLoop maxsize =
      match scanBuf maxsize s.linebuf (s.readBuffer.take bufSize) with
      | (linebuf, none) =>
        readlineLoop maxsize { s with linebuf, readBuffer := s.readBuffer.drop bufSize }
      | (linebuf, some remained) =>
        (({ s with linebuf, readBuffer := s.readBuffer.drop bufSize } : TcpSock).appendToReadBuffer
          remained).readFinished := by
  have hread : s.timedReadNolock bufSize =
      (.read (s.readBuffer.take bufSize), { s with readBuffer := s.readBuffer.drop bufSize }) := by
    rw [timedReadNolock, if_neg (by simp [hs]), if_neg (by decide), if_pos hrb]
  rcases hscan : scanBuf maxsize s.linebuf (s.readBuffer.take bufSize) with ⟨linebuf, _ | remained⟩
  · rw [readlineLoop, hread]
    simp only [hscan]
  · rw [readlineLoop, hread]
    simp only [hscan]

/-- What is read of a nonempty list gets shorter. -/
lemma length_drop_lt {b : Bytes} (h : b ≠ []) : (b.drop bufSize).length < b.length := by
  have := List.length_pos_iff.mpr h
  rw [List.length_drop, bufSize]
  omega

/-- **Bytes in the buffers come first**: either a line ends among them, and the result does not
depend on what arrives, or they are the start of the first line.

**Proof sketch.** By strong induction on the bytes in the read buffer. If a line ends in the part
that is read, the loop ends there; otherwise this part is added to the line, and the rest is
shorter. -/
lemma readlineLoop_buffered (maxsize : ℕ) {s : TcpSock} (hs : s.status = .connected) :
    (∃ r, ∀ net, (({ s with net } : TcpSock).readlineLoop maxsize).1 = r) ∨
    ∀ net, ({ s with net } : TcpSock).readlineLoop maxsize =
      ({ s with net, readBuffer := [], linebuf := s.linebuf ++ lineBytes s.readBuffer } :
        TcpSock).readlineLoop maxsize := by
  induction hn : s.readBuffer.length using Nat.strong_induction_on generalizing s with
  | _ n ih =>
    subst hn
    by_cases hrb : s.readBuffer = []
    · refine .inr fun net => ?_
      rw [hrb]
      simp only [lineBytes, List.filter_nil, List.append_nil]
    · have hround := fun net =>
        readlineLoop_of_readBuffer (s := { s with net }) hs hrb maxsize
      rcases hscan : scanBuf maxsize s.linebuf (s.readBuffer.take bufSize) with ⟨l, _ | remained⟩
      · simp only [hscan] at hround
        have hl := scanBuf_none hscan
        have hrest := ih _ (length_drop_lt hrb)
          (s := { s with linebuf := l, readBuffer := s.readBuffer.drop bufSize }) hs rfl
        rcases hrest with ⟨r, hr⟩ | hrest
        · exact .inl ⟨r, fun net => by rw [hround]; exact hr net⟩
        · refine .inr fun net => ?_
          have hbytes : l ++ lineBytes (s.readBuffer.drop bufSize) =
              s.linebuf ++ lineBytes s.readBuffer := by
            rw [hl, List.append_assoc, ← lineBytes_append, List.take_append_drop]
          rw [hround, ← hbytes]
          exact hrest net
      · simp only [hscan] at hround
        exact .inl ⟨((Int32.ofNat l.length).toInt, s.output l), fun net => by rw [hround]; rfl⟩

/-- Bytes that are not part of a line may be left in `read_buffer`. -/
lemma readlineLoop_skip (maxsize : ℕ) {s : TcpSock} (hs : s.status = .connected)
    (h : lineBytes s.readBuffer = []) :
    s.readlineLoop maxsize = ({ s with readBuffer := [] } : TcpSock).readlineLoop maxsize := by
  induction hn : s.readBuffer.length using Nat.strong_induction_on generalizing s with
  | _ n ih =>
    subst hn
    by_cases hrb : s.readBuffer = []
    · rw [← hrb]
    · have hparts : lineBytes (s.readBuffer.take bufSize) = [] ∧
          lineBytes (s.readBuffer.drop bufSize) = [] := by
        rw [← List.append_eq_nil_iff, ← lineBytes_append, List.take_append_drop]
        exact h
      rw [readlineLoop_of_readBuffer hs hrb, scanBuf_skip hparts.1]
      exact ih _ (length_drop_lt hrb) (s := { s with readBuffer := s.readBuffer.drop bufSize }) hs
        hparts.2 rfl

/-! ## Clean reconnects -/

/-- The socket after `close` and a new connection. -/
lemma close_connect (s : TcpSock) (net : List Arrival) :
    s.close.connect (some net) = { s.close with status := .connected, net } := by
  have hclosed : s.close.status ≠ .connected := by
    unfold close
    split_ifs with h
    · exact h
    · exact fun h => by cases h
  rw [connect, if_neg hclosed]

/-- Closing a socket keeps the converter and `linebuf`, and clears `read_buffer` if it was open. -/
lemma close_fields (s : TcpSock) :
    s.close.convS2m = s.convS2m ∧ s.close.linebuf = s.linebuf ∧
      s.close.readBuffer = if s.status = .connected then [] else s.readBuffer := by
  unfold close
  by_cases h : s.status = .connected
  · rw [if_neg (not_not.mpr h), if_pos h]
    exact ⟨rfl, rfl, rfl⟩
  · rw [if_pos h, if_neg h]
    exact ⟨rfl, rfl, rfl⟩

/-- The first result of `readline` on a connected socket without a size limit. -/
lemma readlines_one {s : TcpSock} (hs : s.status = .connected) :
    (s.readlines (-1) 1).1 = [(s.readlineLoop int32Max).1] := by
  have hlimit : sizeLimit (-1) = int32Max := rfl
  simp only [readlines, readline, hs, hlimit, ne_eq, not_true_eq_false, if_false]

/-- The end of the connection hands out `linebuf`. -/
lemma readlineLoop_end {s : TcpSock} (hs : s.status = .connected) (hrb : s.readBuffer = [])
    (hnet : s.net = []) (hl : s.linebuf ≠ []) (maxsize : ℕ) :
    (s.readlineLoop maxsize).1.1 = (Int32.ofNat s.linebuf.length).toInt := by
  have hread : s.timedReadNolock bufSize = (.error, s.close) := by
    rw [timedReadNolock, if_neg (by simp [hs]), if_neg (by decide), if_neg (by simp [hrb]), hnet]
  have hclose : s.close.linebuf = s.linebuf := s.close_fields.2.1
  rw [readlineLoop, hread]
  simp only [hclose, if_pos hl, readFinished]

/-- A terminator hands out `linebuf`. -/
lemma readlineLoop_terminator {s : TcpSock} (hs : s.status = .connected) (hrb : s.readBuffer = [])
    (hnet : s.net = [.data LF []]) (maxsize : ℕ) :
    (s.readlineLoop maxsize).1.1 = (Int32.ofNat s.linebuf.length).toInt := by
  have hread : s.timedReadNolock bufSize = (.read [LF], { s with net := [] }) := by
    rw [timedReadNolock, if_neg (by simp [hs]), if_neg (by decide), if_neg (by simp [hrb]), hnet]
    rfl
  have hscan : scanBuf maxsize s.linebuf [LF] = (s.linebuf, some []) := by
    rw [scanBuf, if_neg (by decide), if_pos (.inl rfl)]
  rw [readlineLoop, hread]
  simp only [hscan, readFinished, appendToReadBuffer]

/-- The socket to whose peer everything comes. -/
lemma fst_readlineLoop_connected (conv : Option (Bytes → Bytes)) :
    ((connected conv []).readlineLoop int32Max).1.1 = -2 ∧
      ((connected conv [.timeout]).readlineLoop int32Max).1.1 = -1 ∧
      ((connected conv [.data LF []]).readlineLoop int32Max).1.1 = 0 := by
  refine ⟨?_, ?_, readlineLoop_terminator rfl rfl rfl _⟩
  · rw [readlineLoop]
    rfl
  · rw [readlineLoop]
    rfl

/-- **Bytes that are left** are seen on some connection: either they hold the end of a line, and
then they hide a timeout, or they are part of the first line, whose length tells.

**Proof sketch.** By contradiction. If the result does not depend on what arrives, the end of a
connection and a timeout give the same result, which they do not on a fresh socket. Otherwise the
bytes are the start of the first line, and an empty line is not empty. -/
lemma CleanReconnect.nothing_left {s : TcpSock} (h : s.CleanReconnect) :
    s.close.linebuf ++ lineBytes s.close.readBuffer = [] := by
  obtain ⟨hend, htimeout, hline⟩ := fst_readlineLoop_connected s.convS2m
  set t : TcpSock := { s.close with status := .connected }
  have hresult : ∀ net, (({ t with net } : TcpSock).readlineLoop int32Max).1 =
      ((connected s.convS2m net).readlineLoop int32Max).1 := by
    intro net
    have hone := h net (-1) 1
    rw [close_connect, readlines_one rfl, readlines_one rfl] at hone
    exact (List.cons.inj hone).1
  by_contra hne
  rcases readlineLoop_buffered int32Max (s := t) rfl with ⟨r, hr⟩ | hrest
  · -- the result does not depend on what arrives
    have heq : ((connected s.convS2m []).readlineLoop int32Max).1 =
        ((connected s.convS2m [.timeout]).readlineLoop int32Max).1 := by
      rw [← hresult, ← hresult, hr, hr]
    rw [heq, htimeout] at hend
    omega
  · -- the length of the line is `-2` at the end of the connection and `0` at a terminator
    have hlast := readlineLoop_end (s := { t with
      net := [], readBuffer := [], linebuf := t.linebuf ++ lineBytes t.readBuffer }) rfl rfl rfl hne
      int32Max
    have hfirst := readlineLoop_terminator (s := { t with
      net := [.data LF []], readBuffer := [], linebuf := t.linebuf ++ lineBytes t.readBuffer })
      rfl rfl rfl int32Max
    rw [← hrest, hresult, hend] at hlast
    rw [← hrest, hresult, hline] at hfirst
    have hsame : (-2 : ℤ) = 0 := hlast.trans hfirst.symm
    omega

/-- **Nothing left** makes a reconnect clean. -/
lemma cleanReconnect_of_nothing_left {s : TcpSock}
    (h : s.close.linebuf ++ lineBytes s.close.readBuffer = []) : s.CleanReconnect := by
  obtain ⟨hlb, hrb⟩ := List.append_eq_nil_iff.mp h
  intro net maxsize n
  rw [close_connect]
  have hnew : connected s.convS2m net =
      { s.close with status := .connected, net, readBuffer := [] } := by
    simp only [connected, hlb, s.close_fields.1]
  rw [hnew]
  cases n with
  | zero => rfl
  | succ n =>
    have hcall : ({ s.close with status := .connected, net } : TcpSock).readline maxsize =
        ({ s.close with status := .connected, net, readBuffer := [] } : TcpSock).readline maxsize := by
      rw [readline, readline, if_neg (by simp), if_neg (by simp)]
      exact readlineLoop_skip _ rfl hrb
    simp only [readlines, hcall]

/-- **A reconnect is clean** exactly when no part of a line is left in `linebuf` and, in case the
socket has been closed before, no bytes of a line have been put into `read_buffer` since.

**Proof sketch.** What is in the buffers is read in front of what arrives. If a line ends in it,
that line is returned even if nothing arrives. If not, it is the start of the first line, whose
length would have to be `-2` when the connection ends and `0` when a terminator comes first. -/
theorem cleanReconnect_iff (ops : List SockOp) :
    (ops.foldl perform init).CleanReconnect ↔
      (ops.foldl perform init).linebuf = [] ∧
        ((ops.foldl perform init).status = .connected ∨
          lineBytes (ops.foldl perform init).readBuffer = []) := by
  generalize ops.foldl perform init = s
  obtain ⟨-, hlb, hrb⟩ := s.close_fields
  have hleft : s.close.linebuf ++ lineBytes s.close.readBuffer = [] ↔
      s.linebuf = [] ∧ (s.status = .connected ∨ lineBytes s.readBuffer = []) := by
    rw [List.append_eq_nil_iff, hlb, hrb]
    split_ifs with hs
    · simp [hs, lineBytes]
    · simp [hs]
  rw [← hleft]
  exact ⟨fun h => h.nothing_left, cleanReconnect_of_nothing_left⟩

/-- A connection that times out in the middle of a line. -/
def partialLine : List SockOp := [.connect (some [.data 97 [98], .timeout]), .readline (-1)]

/-- The socket after the timeout. -/
lemma foldl_partialLine :
    partialLine.foldl perform init =
      { status := .connected, convS2m := none, readBuffer := [], linebuf := [97, 98], net := [] } := by
  change (readlineLoop int32Max (connected none [.data 97 [98], .timeout])).2 = _
  rw [readlineLoop]
  change (readlineLoop int32Max { connected none [.timeout] with linebuf := [97, 98] }).2 = _
  rw [readlineLoop]
  rfl

/-- **A line of two connections**: `ab` is left by the first one, and the second one, on which `x`
and a terminator arrive, begins with the line `abx`. -/
theorem not_cleanReconnect :
    ¬ (partialLine.foldl perform init).CleanReconnect ∧
      (((partialLine.foldl perform init).close.connect (some [.data 120 [LF]])).readlines (-1) 1).1 =
        [(3, [97, 98, 120])] := by
  rw [foldl_partialLine]
  constructor
  · intro h
    cases h.nothing_left
  · rw [close_connect, readlines_one rfl, readlineLoop]
    rfl

end TcpSock

end Meowbot
