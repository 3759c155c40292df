import Meowbot.Basic
import Meowbot.Lib.Lines

set_option relaxedAutoImplicit false
set_option autoImplicit false

/-!
# Reading lines from a socket (`tcpsock.cpp`)

Three buffers carry the bytes of a connection to the caller of `readline`: the 512-byte buffer
of one call, `read_buffer` with the bytes put back after the end of a line, and `linebuf` with
the line read so far, which survives a timeout.

The peer is a list of arrivals. Each call of `poll` that finds nothing to do uses up one
`timeout`; a segment is handed out by `read` in pieces no longer than asked for, and the end of
the list is the end of the connection, orderly or not, on which the socket is closed.

## Main definitions

* `Meowbot.TcpSock` — the socket; `TcpSock.timedReadNolock`, `TcpSock.readline` — the source's
  functions; `TcpSock.readlines` — the results of repeated calls.
* `Meowbot.streamLines` — the lines of a byte stream.

## Main results

* `Meowbot.TcpSock.readline_spec` — what one call does to the lines still to be delivered.
* `Meowbot.TcpSock.readlines_deliver_lines` — repeated calls deliver exactly the lines.
-/

namespace Meowbot

/-! ## The stream and its lines -/

/-- The bytes of a stream that can be part of a line: `\r` and `\0` are removed. -/
def lineBytes (s : Bytes) : Bytes := s.filter fun c => c ≠ CR ∧ c ≠ 0

/-- The lines of a byte stream. -/
def streamLines (s : Bytes) : List Bytes := LineStream.lines LF (lineBytes s)

/-- What one `poll` of the socket finds. -/
inductive Arrival where
  /-- Nothing within the time limit, or an interrupted call. -/
  | timeout
  /-- A segment, which is not empty. -/
  | data (first : Byte) (rest : Bytes)
  deriving DecidableEq

/-- The bytes of an arrival. -/
def Arrival.bytes : Arrival → Bytes
  | .timeout => []
  | .data c cs => c :: cs

/-- What an arrival lets `read` and `poll` do: each byte can be read once, a timeout happens
once. -/
def Arrival.weight : Arrival → ℕ
  | .timeout => 1
  | .data _ cs => cs.length + 1

@[simp] lemma Arrival.weight_timeout : Arrival.timeout.weight = 1 := rfl

@[simp] lemma Arrival.weight_data (c : Byte) (cs : Bytes) :
    (Arrival.data c cs).weight = cs.length + 1 := rfl

/-- The byte stream of a connection. -/
def stream (net : List Arrival) : Bytes := net.flatMap Arrival.bytes

/-- `SOCKSTATUS_*`. -/
inductive SockStatus where
  | disconnected | connected
  deriving DecidableEq

/-- `tcpsock`, with what its peer is still to send. Bytes are first in `net`, then in `readBuffer`
if a read has brought more than was used, and those of a line that is not complete in `linebuf`. -/
structure TcpSock where
  /-- `status`. -/
  status : SockStatus
  /-- `conv_s2m`, the converter applied to complete lines. -/
  convS2m : Option (Bytes → Bytes)
  /-- `read_buffer`. -/
  readBuffer : Bytes
  /-- `linebuf`. -/
  linebuf : Bytes
  /-- What arrives from the peer from now on. -/
  net : List Arrival

/-- The result of `timed_read_nolock`: `-1`, `0` or a positive number of bytes with the bytes. -/
inductive ReadResult where
  | error
  | timedOut
  | read (buf : Bytes)

namespace TcpSock

/-- A socket right after `connect`. -/
def connected (convS2m : Option (Bytes → Bytes)) (net : List Arrival) : TcpSock :=
  { status := .connected, convS2m, readBuffer := [], linebuf := [], net }

/-- `tcpsock::close`. -/
def close (s : TcpSock) : TcpSock :=
  if s.status ≠ .connected then s else { s with readBuffer := [], status := .disconnected }

/-- The arrivals after a `read` that left `unread` of a segment. -/
def putBack (unread : Bytes) (net : List Arrival) : List Arrival :=
  match unread with
  | [] => net
  | c :: cs => .data c cs :: net

/-- `tcpsock::timed_read_nolock`: bytes of `read_buffer` if there are any, else one `poll` and
one `read` of at most `size` bytes. -/
def timedReadNolock (s : TcpSock) (size : ℕ) : ReadResult × TcpSock :=
  if s.status ≠ .connected then (.error, s)
  else if size = 0 then (.timedOut, s)
  else if s.readBuffer ≠ [] then
    (.read (s.readBuffer.take size), { s with readBuffer := s.readBuffer.drop size })
  else match s.net with
    | [] => (.error, s.close)
    | .timeout :: net => (.timedOut, { s with net })
    | .data c cs :: net =>
      (.read ((c :: cs).take size), { s with net := putBack ((c :: cs).drop size) net })

/-- `tcpsock::append_to_read_buffer`. -/
def appendToReadBuffer (s : TcpSock) (data : Bytes) : TcpSock :=
  { s with readBuffer := s.readBuffer ++ data }

/-- The loop of `readline` over the bytes of its buffer: `linebuf` afterwards, and if the line is
finished the bytes that remain in the buffer. -/
def scanBuf (maxsize : ℕ) (linebuf : Bytes) : Bytes → Bytes × Option Bytes
  | [] => (linebuf, none)
  | c :: cs =>
    if c = CR ∨ c = 0 then scanBuf maxsize linebuf cs
    else if c = LF ∨ maxsize < linebuf.length then (linebuf, some cs)
    else scanBuf maxsize (linebuf ++ [c]) cs

/-- What `readline` stores in `*dest` for a line. -/
def output (s : TcpSock) (line : Bytes) : Bytes :=
  match s.convS2m with
  | some convert => convert line
  | none => line

/-- `read_finished`: hand out `linebuf` and clear it. The result is the size as an `int`. -/
def readFinished (s : TcpSock) : (ℤ × Bytes) × TcpSock :=
  (((Int32.ofNat s.linebuf.length).toInt, s.output s.linebuf), { s with linebuf := [] })

/-- The number of bytes and timeouts that reads can still use up. -/
def readable (s : TcpSock) : ℕ := s.readBuffer.length + (s.net.map Arrival.weight).sum

/-- The size of the buffer on the stack of `readline`. -/
def bufSize : ℕ := 512

/-- The unread part of a segment weighs as much as it has bytes. -/
lemma sum_weight_putBack (unread : Bytes) (net : List Arrival) :
    ((putBack unread net).map Arrival.weight).sum =
      unread.length + (net.map Arrival.weight).sum := by
  cases unread with
  | nil => simp [putBack]
  | cons c cs => simp [putBack]

/-- Each successful read uses up as many bytes as it returns, and at least one.

**Proof sketch.** By cases as in the source: the bytes come from `read_buffer`, or from the data
that has arrived, of which the rest is put back. There is at least one, as the size is not zero and
neither is empty. -/
lemma readable_timedReadNolock {s s' : TcpSock} {size : ℕ} {buf : Bytes}
    (h : s.timedReadNolock size = (.read buf, s')) :
    s'.readable + buf.length = s.readable ∧ 0 < buf.length := by
  simp only [timedReadNolock] at h
  split_ifs at h with hst hsz hrb
  · simp at h
  · simp at h
  · obtain ⟨hbuf, rfl⟩ := Prod.mk.inj h
    obtain rfl := ReadResult.read.inj hbuf
    have := List.length_pos_iff.mpr hrb
    simp only [readable, List.length_drop, List.length_take]
    omega
  · rcases hnet : s.net with _ | ⟨_ | ⟨c, cs⟩, net⟩
    · simp [hnet] at h
    · simp [hnet] at h
    · simp only [hnet] at h
      obtain ⟨hbuf, rfl⟩ := Prod.mk.inj h
      obtain rfl := ReadResult.read.inj hbuf
      simp only [readable, hnet, sum_weight_putBack, List.map_cons, List.sum_cons,
        Arrival.weight_data, List.length_drop, List.length_take, List.length_cons]
      omega

/-- The loop of `readline`. Each round reads a buffer and goes through it; what is behind the end of
a line is put back into the read buffer. It ends, since a read that brings something leaves less to
read. -/
def readlineLoop (maxsize : ℕ) (s : TcpSock) : (ℤ × Bytes) × TcpSock :=
  match h : s.timedReadNolock bufSize with
  | (.error, s') => if s'.linebuf ≠ [] then s'.readFinished else ((-2, []), s')
  | (.timedOut, s') => ((-1, []), s')
  | (.read buf, s') =>
    match scanBuf maxsize s'.linebuf buf with
    | (linebuf, none) => readlineLoop maxsize { s' with linebuf }
    | (linebuf, some remained) =>
      (({ s' with linebuf } : TcpSock).appendToReadBuffer remained).readFinished
termination_by s.readable
decreasing_by
  have := readable_timedReadNolock h
  simp only [readable] at this ⊢
  omega

/-- The line size beyond which `readline` stops, a negative `maxsize` meaning `INT_MAX`. -/
def sizeLimit (maxsize : Int32) : ℕ := if maxsize < 0 then int32Max else maxsize.toInt.toNat

/-- `tcpsock::readline`. -/
def readline (s : TcpSock) (maxsize : Int32) : (ℤ × Bytes) × TcpSock :=
  if s.status ≠ .connected then ((-2, []), s) else s.readlineLoop (sizeLimit maxsize)

/-- The results of `n` calls of `readline`, and the socket after them. -/
def readlines (maxsize : Int32) : ℕ → TcpSock → List (ℤ × Bytes) × TcpSock
  | 0, s => ([], s)
  | n + 1, s =>
    let r := s.readline maxsize
    let rs := readlines maxsize n r.2
    (r.1 :: rs.1, rs.2)

/-! ## What is still to be delivered -/

/-- The bytes that have arrived or will arrive and are not yet part of a delivered line. -/
def undelivered (s : TcpSock) : Bytes := s.linebuf ++ lineBytes (s.readBuffer ++ stream s.net)

/-- The lines still to be delivered. -/
def remaining (s : TcpSock) : List Bytes := LineStream.lines LF s.undelivered

/-- The invariant of a socket between two calls of `readline`. The bound on `read_buffer` is what
makes it sound to append the bytes after a line at its end: every read empties it. -/
structure Ready (limit : ℕ) (s : TcpSock) : Prop where
  /-- `linebuf` holds a part of one line. -/
  linebuf : LF ∉ s.linebuf
  /-- One read empties `read_buffer`. -/
  readBuffer : s.readBuffer.length ≤ bufSize
  /-- No line is longer than the limit. -/
  fits : LineStream.Fits LF limit s.undelivered
  /-- A closed socket has delivered everything. -/
  closed : s.status ≠ .connected → s.undelivered = []

/-- The possible outcomes of `readline`, in terms of the lines still to be delivered. A timeout may
leave bytes in other buffers than before, but none of them is lost. -/
inductive Delivery (s : TcpSock) : ℤ × Bytes → TcpSock → Prop
  /-- The next line, with its length. -/
  | line {l : Bytes} {s' : TcpSock} (h : s.remaining = l :: s'.remaining) :
      Delivery s (l.length, s.output l) s'
  /-- A timeout, after which the same bytes are to be delivered. -/
  | timedOut {s' : TcpSock} (h : s'.undelivered = s.undelivered) : Delivery s (-1, []) s'
  /-- The end, when there is nothing to be delivered. -/
  | closed {s' : TcpSock} (h : s.undelivered = []) (h' : s'.undelivered = []) :
      Delivery s (-2, []) s'

/-- The stream of the arrivals left by a `read`. -/
lemma stream_putBack (unread : Bytes) (net : List Arrival) :
    stream (putBack unread net) = unread ++ stream net := by
  cases unread with
  | nil => rfl
  | cons c cs => rfl

@[simp] lemma lineBytes_append (s t : Bytes) :
    lineBytes (s ++ t) = lineBytes s ++ lineBytes t := by
  simp [lineBytes]

/-- `\r` and `\0` are not part of a line. -/
lemma lineBytes_cons_skip {c : Byte} {cs : Bytes} (h : c = CR ∨ c = 0) :
    lineBytes (c :: cs) = lineBytes cs := by
  rcases h with rfl | rfl <;> simp [lineBytes]

/-- Every other byte is. -/
lemma lineBytes_cons_keep {c : Byte} {cs : Bytes} (h : ¬ (c = CR ∨ c = 0)) :
    lineBytes (c :: cs) = c :: lineBytes cs := by
  rw [not_or] at h
  simp [lineBytes, h]

/-- **One read** hands out the first of the bytes to come, in order, and empties
`read_buffer`.

**Proof sketch.** If `read_buffer` is not empty, all of it is handed out, as it fits. Otherwise what
arrives next decides: nothing more, a timeout, or data, of which the rest is put back in front. -/
lemma timedReadNolock_cases {s : TcpSock} (hs : s.status = .connected)
    (hrb : s.readBuffer.length ≤ bufSize) :
    (s.timedReadNolock bufSize = (.error, s.close) ∧ s.readBuffer = [] ∧ s.net = []) ∨
    (∃ net, s.timedReadNolock bufSize = (.timedOut, { s with net }) ∧ s.readBuffer = [] ∧
      s.net = .timeout :: net) ∨
    (∃ buf net, s.timedReadNolock bufSize = (.read buf, { s with readBuffer := [], net }) ∧
      s.readBuffer ++ stream s.net = buf ++ stream net ∧ buf.length ≤ bufSize) := by
  have hpos : bufSize ≠ 0 := by decide
  by_cases hb : s.readBuffer = []
  · rcases hnet : s.net with _ | ⟨_ | ⟨c, cs⟩, net⟩
    · exact .inl ⟨by simp [timedReadNolock, hs, hpos, hb, hnet], hb, rfl⟩
    · exact .inr (.inl ⟨net, by simp [timedReadNolock, hs, hpos, hb, hnet], hb, rfl⟩)
    · refine .inr (.inr ⟨(c :: cs).take bufSize, putBack ((c :: cs).drop bufSize) net, ?_, ?_, ?_⟩)
      · rw [← hb]
        simp [timedReadNolock, hs, hpos, hb, hnet]
      · rw [stream_putBack, ← List.append_assoc, List.take_append_drop, hb]
        simp [stream, Arrival.bytes]
      · exact List.length_take_le _ _
  · refine .inr (.inr ⟨s.readBuffer, s.net, ?_, rfl, hrb⟩)
    simp [timedReadNolock, hs, hpos, hb, List.take_of_length_le hrb,
      List.drop_eq_nil_of_le hrb]

/-! ## The scan of the buffer -/

/-- **The scan of one buffer.** Without a terminator, `linebuf` grows by the line bytes of the
buffer; otherwise it ends up holding the line, and what remains is what follows the terminator.
The size limit is never the reason to stop, by the bound on the lines.

**Proof sketch.** By induction on the buffer. A byte that is skipped changes nothing; a terminator
ends the line; any other byte is added, and the line is not full, since it is part of a line that
fits. -/
lemma scanBuf_spec {limit : ℕ} {linebuf buf : Bytes} (rest : Bytes) (hlb : LF ∉ linebuf)
    (hfits : LineStream.Fits LF limit (linebuf ++ lineBytes buf ++ rest)) :
    (scanBuf limit linebuf buf = (linebuf ++ lineBytes buf, none) ∧
      LF ∉ linebuf ++ lineBytes buf) ∨
    (∃ l remained, scanBuf limit linebuf buf = (l, some remained) ∧ LF ∉ l ∧
      linebuf ++ lineBytes buf = l ++ LF :: lineBytes remained ∧
      remained.length < buf.length) := by
  induction buf generalizing linebuf with
  | nil => exact .inl (by simp [scanBuf, lineBytes, hlb])
  | cons c cs ih =>
    by_cases hskip : c = CR ∨ c = 0
    · rw [lineBytes_cons_skip hskip] at hfits ⊢
      rcases ih hlb hfits with ⟨h1, h2⟩ | ⟨l, remained, h1, h2, h3, h4⟩
      · exact .inl ⟨by simpa [scanBuf, hskip] using h1, h2⟩
      · exact .inr ⟨l, remained, by simpa [scanBuf, hskip] using h1, h2, h3, Nat.lt_succ_of_lt h4⟩
    · rw [lineBytes_cons_keep hskip] at hfits ⊢
      by_cases hc : c = LF
      · subst hc
        exact .inr ⟨linebuf, cs, by simp [scanBuf, hskip], hlb, rfl, Nat.lt_succ_self _⟩
      · have hlen : ¬ limit < linebuf.length := by
          have := LineStream.Fits.length_lt
            (s := lineBytes cs ++ rest) (by simpa using hfits) hlb hc
          omega
        rw [List.append_cons] at hfits ⊢
        rcases ih (by simp [hlb, Ne.symm hc]) hfits with ⟨h1, h2⟩ | ⟨l, remained, h1, h2, h3, h4⟩
        · exact .inl ⟨by simpa [scanBuf, hskip, hc, hlen] using h1, h2⟩
        · exact .inr ⟨l, remained, by simpa [scanBuf, hskip, hc, hlen] using h1, h2, h3,
            Nat.lt_succ_of_lt h4⟩

/-! ## One call -/

/-- The limit is the largest size an `int` can tell apart. -/
lemma sizeLimit_le (maxsize : Int32) : sizeLimit maxsize ≤ int32Max := by
  unfold sizeLimit
  split_ifs
  · exact le_rfl
  · have := maxsize.toInt_lt
    simp only [int32Max]
    omega

/-- Reading part of a line, then the rest of it or a timeout, is reading it at once. -/
lemma Delivery.of_eq {s s₁ s' : TcpSock} {r : ℤ × Bytes} (h : Delivery s₁ r s')
    (hu : s₁.undelivered = s.undelivered) (hc : s₁.convS2m = s.convS2m) : Delivery s r s' := by
  have hrem : s₁.remaining = s.remaining := by rw [remaining, remaining, hu]
  have hout : s₁.output = s.output := by
    funext l
    simp only [output, hc]
  cases h with
  | line hl => exact hout ▸ .line (hrem ▸ hl)
  | timedOut ht => exact .timedOut (ht.trans hu)
  | closed hn hn' => exact .closed (hu ▸ hn) hn'

/-- Handing out a complete `linebuf` delivers the next line. -/
lemma readFinished_delivery {s s₁ : TcpSock} {limit : ℕ} (hlimit : limit ≤ int32Max)
    (hfits : LineStream.Fits LF limit s.undelivered)
    (hrem : s.remaining = s₁.linebuf :: s₁.readFinished.2.remaining)
    (hc : s₁.convS2m = s.convS2m) : Delivery s s₁.readFinished.1 s₁.readFinished.2 := by
  have hlen : s₁.linebuf.length ≤ limit := hfits _ (by rw [← remaining, hrem]; simp)
  have hcast : (Int32.ofNat s₁.linebuf.length).toInt = s₁.linebuf.length := by
    simp only [int32Max] at hlimit
    exact Int32.toInt_ofNat_of_lt (by omega)
  have hout : s₁.output s₁.linebuf = s.output s₁.linebuf := by simp only [output, hc]
  simp only [readFinished, hcast, hout]
  exact .line hrem

/-- The bytes that reads can still use up and those of the unfinished line. -/
def weight (s : TcpSock) : ℕ := s.linebuf.length + s.readable

/-- What is known after a call that started at `s`. -/
structure Outcome (limit : ℕ) (s : TcpSock) (r : (ℤ × Bytes) × TcpSock) : Prop where
  delivery : Delivery s r.1 r.2
  ready : r.2.Ready limit
  convS2m : r.2.convS2m = s.convS2m
  /-- Except at the end, a byte or a timeout has been used up. -/
  weight : r.1.1 ≠ -2 → r.2.weight < s.weight

/-- A socket that has delivered everything keeps the invariant. -/
lemma Ready.of_undelivered_eq_nil {limit : ℕ} {s : TcpSock} (h : s.undelivered = [])
    (hrb : s.readBuffer.length ≤ bufSize) : s.Ready limit where
  linebuf := by simp [(List.append_eq_nil_iff.mp h).1]
  readBuffer := hrb
  fits := by simp [LineStream.Fits, h]
  closed _ := h

/-- **The end of the connection**: the unfinished line is the last one.

**Proof sketch.** Closing empties the read buffer, so what is undelivered is `linebuf`. If it is
empty the call reports the end; otherwise it is the last line, and nothing is left behind it. -/
lemma outcome_of_end {limit : ℕ} (hlimit : limit ≤ int32Max) {s : TcpSock} (hr : s.Ready limit)
    (hs : s.status = .connected) (hb : s.readBuffer = []) (hnet : s.net = []) :
    Outcome limit s (if s.close.linebuf ≠ [] then s.close.readFinished else ((-2, []), s.close)) := by
  have hclose : s.close = { s with readBuffer := [], status := .disconnected } := by
    simp [close, hs]
  have hund : s.undelivered = s.linebuf := by simp [undelivered, hb, hnet, stream, lineBytes]
  have hund' : ∀ s' : TcpSock, s'.linebuf = [] → s'.readBuffer = [] → s'.net = [] →
      s'.undelivered = [] := by
    intro s' h1 h2 h3
    simp [undelivered, h1, h2, h3, stream, lineBytes]
  rw [hclose]
  by_cases hl : s.linebuf = []
  · have hnil := hund' { s with readBuffer := [], status := .disconnected } hl rfl hnet
    rw [if_neg (by simpa using hl)]
    exact ⟨.closed (hund.trans hl) hnil, .of_undelivered_eq_nil hnil (by simp), rfl,
      fun h => absurd rfl h⟩
  · rw [if_pos hl]
    have hnil := hund' { s with linebuf := [], readBuffer := [], status := .disconnected }
      rfl rfl hnet
    refine ⟨?_, .of_undelivered_eq_nil hnil (by simp [readFinished]), rfl, fun _ => ?_⟩
    · refine readFinished_delivery hlimit hr.fits ?_ rfl
      rw [remaining, hund, LineStream.lines_of_notMem hr.linebuf, if_neg hl]
      simp only [readFinished, remaining, hnil, LineStream.lines_nil]
    · have := List.length_pos_iff.mpr hl
      simp only [readFinished, TcpSock.weight, readable, hnet, hb, List.length_nil]
      omega

/-- **The loop of `readline`** returns with one of the outcomes of `Delivery`, keeps the
invariant, and except at the end uses up a byte or a timeout.

**Proof sketch.** Induction on what reads can still use up. A read moves bytes from the stream to
the local buffer; the scan of the buffer either moves all of them to `linebuf`, and the loop goes
on with the same bytes to be delivered, or finds the end of the line and puts the bytes behind it
into `read_buffer`, which the read has just emptied. -/
lemma readlineLoop_spec {limit : ℕ} (hlimit : limit ≤ int32Max) {s : TcpSock}
    (hs : s.status = .connected) (hr : s.Ready limit) :
    Outcome limit s (s.readlineLoop limit) := by
  induction hn : s.readable using Nat.strong_induction_on generalizing s with
  | _ n ih =>
    subst hn
    rcases timedReadNolock_cases hs hr.readBuffer with
      ⟨hread, hb, hnet⟩ | ⟨net, hread, hb, hnet⟩ | ⟨buf, net, hread, hstream, hbuf⟩
    · rw [readlineLoop, hread]
      exact outcome_of_end hlimit hr hs hb hnet
    · rw [readlineLoop, hread]
      have hund : ({ s with net } : TcpSock).undelivered = s.undelivered := by
        simp [undelivered, hnet, stream, Arrival.bytes]
      refine ⟨.timedOut hund, ⟨hr.linebuf, hr.readBuffer, hund ▸ hr.fits, fun h => ?_⟩, rfl,
        fun _ => ?_⟩
      · exact absurd hs h
      · simp only [weight, readable, hnet, List.map_cons, List.sum_cons, Arrival.weight_timeout]
        omega
    · have hund : s.undelivered = s.linebuf ++ lineBytes buf ++ lineBytes (stream net) := by
        rw [undelivered, hstream, lineBytes_append, List.append_assoc]
      obtain ⟨hmeasure, hpos⟩ := readable_timedReadNolock hread
      have hfits := hr.fits
      rw [hund] at hfits
      rcases scanBuf_spec _ hr.linebuf hfits with ⟨hscan, hlb⟩ | ⟨l, remained, hscan, hl, hcut, hlen⟩
      · -- the line goes on: the loop continues with a longer `linebuf`
        set s₁ : TcpSock := { s with readBuffer := [], net, linebuf := s.linebuf ++ lineBytes buf }
          with hs₁
        have hund₁ : s₁.undelivered = s.undelivered := by rw [hund, hs₁, undelivered, List.nil_append]
        have hweight : s₁.weight ≤ s.weight ∧ s₁.readable < s.readable := by
          have := List.length_filter_le (fun c : Byte => c ≠ CR ∧ c ≠ 0) buf
          simp only [weight, readable, hs₁, List.length_append, lineBytes] at hmeasure this ⊢
          omega
        have hloop : s.readlineLoop limit = s₁.readlineLoop limit := by
          rw [readlineLoop, hread]
          simp only [hscan, hs₁]
        have hr₁ : s₁.Ready limit :=
          ⟨hlb, by simp [hs₁], hund₁ ▸ hr.fits, fun h => absurd hs h⟩
        have hout := ih _ hweight.2 (s := s₁) hs hr₁ rfl
        rw [hloop]
        exact ⟨hout.delivery.of_eq hund₁ rfl, hout.ready, hout.convS2m,
          fun h => lt_of_lt_of_le (hout.weight h) hweight.1⟩
      · -- the line ends in this buffer
        set s₁ : TcpSock := { s with readBuffer := [] ++ remained, net, linebuf := l } with hs₁
        have hloop : s.readlineLoop limit = s₁.readFinished := by
          rw [readlineLoop, hread]
          simp only [hscan, hs₁, appendToReadBuffer]
        have hund₁ : s₁.readFinished.2.undelivered = lineBytes remained ++ lineBytes (stream net) := by
          simp [readFinished, undelivered, hs₁]
        have hsplit : s.undelivered = l ++ LF :: s₁.readFinished.2.undelivered := by
          rw [hund, hcut, hund₁, List.append_assoc, List.cons_append]
        have hfits₁ := hr.fits
        rw [hsplit] at hfits₁
        rw [hloop]
        refine ⟨readFinished_delivery hlimit hr.fits ?_ rfl, ⟨?_, ?_, ?_, ?_⟩, rfl, fun _ => ?_⟩
        · rw [remaining, hsplit, LineStream.lines_append_cons hl, remaining]
        · simp [readFinished]
        · simp only [readFinished, hs₁, List.nil_append]
          omega
        · exact hfits₁.of_append_cons hl
        · exact fun h => absurd hs h
        · simp only [weight, readable, readFinished, hs₁, List.nil_append, List.length_nil] at hmeasure ⊢
          omega

/-- **One call of `readline`** has one of the outcomes of `Delivery` and keeps the invariant. -/
lemma readline_spec (maxsize : Int32) {s : TcpSock} (hr : s.Ready (sizeLimit maxsize)) :
    Outcome (sizeLimit maxsize) s (s.readline maxsize) := by
  rw [readline]
  split_ifs with hs
  · exact ⟨.closed (hr.closed hs) (hr.closed hs), hr, rfl, fun h => absurd rfl h⟩
  · exact readlineLoop_spec (sizeLimit_le maxsize) (not_not.mp hs) hr

/-! ## Repeated calls -/

/-- The results of the lines still to be delivered. -/
def lineResults (s : TcpSock) : List (ℤ × Bytes) :=
  s.remaining.map fun l => ((l.length : ℤ), s.output l)

/-- The results other than timeouts. -/
def withoutTimeouts (rs : List (ℤ × Bytes)) : List (ℤ × Bytes) := rs.filter (·.1 ≠ -1)

/-- Any other result counts. -/
lemma withoutTimeouts_cons {r : ℤ × Bytes} {rs : List (ℤ × Bytes)} (h : r.1 ≠ -1) :
    withoutTimeouts (r :: rs) = r :: withoutTimeouts rs := by
  simp [withoutTimeouts, h]

/-- A timeout does not count. -/
lemma withoutTimeouts_timeout (out : Bytes) (rs : List (ℤ × Bytes)) :
    withoutTimeouts ((-1, out) :: rs) = withoutTimeouts rs := by
  simp [withoutTimeouts]

/-- Sockets with the same converter and the same lines to deliver have the same results. -/
lemma lineResults_eq {s s' : TcpSock} (h : s'.convS2m = s.convS2m) :
    s'.lineResults = s'.remaining.map fun l => ((l.length : ℤ), s.output l) := by
  simp only [lineResults, output, h]

/-- The invariant holds after any number of calls. -/
lemma ready_readlines (maxsize : Int32) (n : ℕ) {s : TcpSock} (hr : s.Ready (sizeLimit maxsize)) :
    (s.readlines maxsize n).2.Ready (sizeLimit maxsize) := by
  induction n generalizing s with
  | zero => exact hr
  | succ n ih => exact ih (readline_spec maxsize hr).ready

/-- Any number of calls deliver lines from the first on, and after the last line report the end.

**Proof sketch.** By induction on the number of calls. By `readline_spec` a call returns the first
line of those undelivered, or a timeout, which is left out, or the end, after which every call
reports it again. -/
lemma readlines_prefix (maxsize : Int32) (n : ℕ) {s : TcpSock}
    (hr : s.Ready (sizeLimit maxsize)) :
    withoutTimeouts (s.readlines maxsize n).1 <+:
      s.lineResults ++ List.replicate n (-2, []) := by
  induction n generalizing s with
  | zero => simp [readlines, withoutTimeouts]
  | succ n ih =>
    have hout := readline_spec maxsize hr
    rcases hcall : s.readline maxsize with ⟨r, s'⟩
    rw [hcall] at hout
    have ih' := ih hout.ready
    rw [lineResults_eq hout.convS2m] at ih'
    simp only [readlines, hcall]
    cases hout.delivery with
    | line hl =>
      rw [withoutTimeouts_cons (by omega), lineResults, hl, List.map_cons, List.cons_append,
        List.prefix_cons_inj]
      refine ih'.trans ((List.prefix_append_right_inj _).mpr ?_)
      rw [List.replicate_succ']
      exact List.prefix_append _ _
    | timedOut ht =>
      rw [withoutTimeouts_timeout, lineResults, remaining, ← ht]
      refine ih'.trans ((List.prefix_append_right_inj _).mpr ?_)
      rw [List.replicate_succ']
      exact List.prefix_append _ _
    | closed hn hn' =>
      rw [withoutTimeouts_cons (by omega), lineResults, remaining, hn, LineStream.lines_nil,
        List.map_nil, List.nil_append, List.replicate_succ, List.prefix_cons_inj]
      simpa [remaining, hn'] using ih'

/-- Enough calls deliver all the lines and report the end.

**Proof sketch.** By induction on the number of calls. Each call that does not report the end makes
the socket lighter, so the calls do not run out before it is reported. -/
lemma prefix_readlines (maxsize : Int32) (n : ℕ) {s : TcpSock}
    (hr : s.Ready (sizeLimit maxsize)) (hn : s.weight < n) :
    s.lineResults ++ [(-2, [])] <+: withoutTimeouts (s.readlines maxsize n).1 := by
  induction n generalizing s with
  | zero => omega
  | succ n ih =>
    have hout := readline_spec maxsize hr
    rcases hcall : s.readline maxsize with ⟨r, s'⟩
    rw [hcall] at hout
    have hlt : r.1 ≠ -2 → s'.weight < n := fun h =>
      lt_of_lt_of_le (hout.weight h) (Nat.le_of_lt_succ hn)
    have ih' := fun h => ih hout.ready (hlt h)
    rw [lineResults_eq hout.convS2m] at ih'
    simp only [readlines, hcall]
    cases hout.delivery with
    | line hl =>
      rw [withoutTimeouts_cons (by omega), lineResults, hl, List.map_cons, List.cons_append,
        List.prefix_cons_inj]
      exact ih' (by omega)
    | timedOut ht =>
      rw [withoutTimeouts_timeout, lineResults, remaining, ← ht]
      exact ih' (by omega)
    | closed hn hn' =>
      rw [withoutTimeouts_cons (by omega), lineResults, remaining, hn, LineStream.lines_nil]
      simp

/-- A fresh socket satisfies the invariant if no line of its stream is too long. -/
lemma ready_connected {limit : ℕ} {conv : Option (Bytes → Bytes)} {net : List Arrival}
    (h : ∀ l ∈ streamLines (stream net), l.length ≤ limit) : (connected conv net).Ready limit where
  linebuf := by simp [connected]
  readBuffer := by simp [connected]
  fits := by simpa [LineStream.Fits, undelivered, connected, streamLines] using h
  closed := by simp [connected]

/-- **The lines of a connection.** However the stream is cut into arrivals and whatever timeouts
lie between them, the results of repeated calls of `readline` on a fresh socket, timeouts left
out, are the lines of the stream in order, each with its length, and then `-2` for ever: any
number of calls gives an initial part of this sequence, and enough calls give all the lines and
the first `-2`. A call that times out leaves the bytes to be delivered as they were.

**Proof sketch.** `readline_spec` says what one call does to the lines to be delivered; both
halves are inductions on the number of calls, the second with the bytes and timeouts still to be
used up as the measure. -/
theorem readlines_deliver_lines (conv : Option (Bytes → Bytes)) (net : List Arrival)
    (maxsize : Int32)
    (hfit : ∀ l ∈ streamLines (stream net), l.length ≤ sizeLimit maxsize) :
    let s := connected conv net
    let results := fun n => (s.readlines maxsize n).1
    let lines := (streamLines (stream net)).map fun l => ((l.length : ℤ), s.output l)
    (∀ n, withoutTimeouts (results n) <+: lines ++ List.replicate n (-2, [])) ∧
    (∃ N, ∀ n, N ≤ n → lines ++ [(-2, [])] <+: withoutTimeouts (results n)) ∧
    ∀ n, let s' := (s.readlines maxsize n).2
      (s'.readline maxsize).1.1 = -1 → (s'.readline maxsize).2.undelivered = s'.undelivered := by
  have hr : (connected conv net).Ready (sizeLimit maxsize) := ready_connected hfit
  have hlines : (connected conv net).lineResults =
      (streamLines (stream net)).map fun l => ((l.length : ℤ), (connected conv net).output l) := by
    simp [lineResults, remaining, undelivered, streamLines, connected]
  intro s results lines
  have hlines' : lines = s.lineResults := hlines.symm
  rw [hlines']
  refine ⟨fun n => readlines_prefix maxsize n hr,
    ⟨s.weight + 1, fun n hn => prefix_readlines maxsize n hr hn⟩, ?_⟩
  intro n s' htimeout
  have hout := readline_spec maxsize (ready_readlines maxsize n hr)
  have hd := hout.delivery
  change Delivery s' (s'.readline maxsize).1 (s'.readline maxsize).2 at hd
  generalize s'.readline maxsize = r at hd htimeout
  obtain ⟨⟨result, dest⟩, s''⟩ := r
  cases hd with
  | line hl =>
    simp only at htimeout
    omega
  | timedOut ht => exact ht
  | closed hn hn' => cases htimeout

/-- A stream in five arrivals with two timeouts, one of them between `\r` and `\n`. -/
theorem readlines_deliver_lines_pieces :
    let s := connected none [.data 97 [], .timeout, .data 98 [13], .timeout, .data 10 [10, 99]]
    (∀ n, withoutTimeouts (s.readlines (-1) n).1 <+:
      [(2, [97, 98]), (0, []), (1, [99])] ++ List.replicate n (-2, [])) :=
  (readlines_deliver_lines none
    [.data 97 [], .timeout, .data 98 [13], .timeout, .data 10 [10, 99]] (-1) (by decide)).1

end TcpSock

end Meowbot
