import Meowbot.Unread

set_option relaxedAutoImplicit false
set_option autoImplicit false

/-!
# Lines over the size limit (`tcpsock::readline`)

A line over the size limit is returned in pieces. The branch that ends a piece is the one that ends
a line: it skips the byte at which it is taken. At the end of a line that byte is the terminator; at
the limit it is a byte of the line, which is lost.

## Main definitions

* `Meowbot.forcedSplit` — what is left of a line.
* `Meowbot.TcpSock.KeepsLine` — the pieces that are returned for a line are, together, the line.

## Main results

* `Meowbot.TcpSock.readline_inLine` — what one call does in the middle of a line.
* `Meowbot.TcpSock.keepsLine_iff` — a line is kept exactly when it is not split.
-/

namespace Meowbot

/-! ## What is left of a line -/

/-- What is left of the rest of a line, where `linebuf` has so many bytes: whenever it is over the
limit, a byte is skipped. -/
def forcedSplit (limit : ℕ) : ℕ → Bytes → Bytes
  | _, [] => []
  | k, c :: cs =>
    if limit < k then forcedSplit limit 0 cs else c :: forcedSplit limit (k + 1) cs

/-- Bytes within the limit are kept. -/
lemma forcedSplit_append (limit k : ℕ) (x l : Bytes) (h : k + x.length ≤ limit + 1) :
    forcedSplit limit k (x ++ l) = x ++ forcedSplit limit (k + x.length) l := by
  induction x generalizing k with
  | nil => rfl
  | cons c x ih =>
    rw [List.length_cons] at h ⊢
    rw [List.cons_append, forcedSplit, if_neg (by omega), ih _ (by omega), List.cons_append,
      show k + 1 + x.length = k + (x.length + 1) by omega]

/-- A full `linebuf` makes the next byte be skipped. -/
lemma forcedSplit_full (limit : ℕ) (c : Byte) (l : Bytes) :
    forcedSplit limit (limit + 1) (c :: l) = forcedSplit limit 0 l := by
  rw [forcedSplit, if_pos (by omega)]

/-- No bytes are added. -/
lemma length_forcedSplit_le (limit k : ℕ) (l : Bytes) : (forcedSplit limit k l).length ≤ l.length := by
  induction l generalizing k with
  | nil => simp [forcedSplit]
  | cons c l ih =>
    rw [forcedSplit]
    split_ifs
    · exact (ih 0).trans (by simp)
    · simpa using ih (k + 1)

/-- **A line is kept** exactly when it does not come over the limit.

**Proof sketch.** If the line is longer, a byte of it is skipped behind the first `limit + 1` ones,
and what is left is shorter than the line. If it is not, no byte is skipped. -/
lemma forcedSplit_eq_self_iff (limit : ℕ) (l : Bytes) :
    forcedSplit limit 0 l = l ↔ l.length ≤ limit + 1 := by
  constructor
  · intro h
    by_contra hlong
    have hlen : (l.take (limit + 1)).length = limit + 1 := by simp; omega
    have hcut := forcedSplit_append limit 0 (l.take (limit + 1)) (l.drop (limit + 1)) (by omega)
    rw [List.take_append_drop, h, hlen, Nat.zero_add] at hcut
    obtain ⟨c, cs, hdrop⟩ : ∃ c cs, l.drop (limit + 1) = c :: cs :=
      List.exists_cons_of_ne_nil (by simp; omega)
    rw [hdrop, forcedSplit_full] at hcut
    have hle := length_forcedSplit_le limit 0 cs
    have heq := congrArg List.length hcut
    have hrest := congrArg List.length hdrop
    simp only [List.length_append, List.length_cons, List.length_drop, hlen] at heq hrest
    omega
  · intro h
    have hkeep := forcedSplit_append limit 0 l [] (by omega)
    simpa [forcedSplit] using hkeep

namespace TcpSock

/-- A byte of a line, which is no terminator and is not skipped. -/
def IsLineByte (c : Byte) : Prop := c ≠ LF ∧ c ≠ CR ∧ c ≠ 0

/-- **The scan of one buffer** in the middle of a line: all of it belongs to the line and fits into
`linebuf`, or the piece ends because `linebuf` is over the limit, or the line ends.

**Proof sketch.** By induction on the buffer. A byte of the line goes to `linebuf`, unless this is
over the limit, where the byte is skipped and the piece ends; the LF at the end of the line ends the
piece as well. -/
lemma scanBuf_inLine {limit : ℕ} {linebuf buf todo rest more : Bytes}
    (hfull : linebuf.length ≤ limit + 1) (htodo : ∀ c ∈ todo, IsLineByte c)
    (h : buf ++ more = todo ++ LF :: rest) :
    (∃ todo', scanBuf limit linebuf buf = (linebuf ++ buf, none) ∧ todo = buf ++ todo' ∧
      more = todo' ++ LF :: rest ∧ (linebuf ++ buf).length ≤ limit + 1) ∨
    (∃ x c todo' remained, scanBuf limit linebuf buf = (linebuf ++ x, some remained) ∧
      todo = x ++ c :: todo' ∧ remained ++ more = todo' ++ LF :: rest ∧
      (linebuf ++ x).length = limit + 1 ∧ remained.length < buf.length) ∨
    (∃ remained, scanBuf limit linebuf buf = (linebuf ++ todo, some remained) ∧
      remained ++ more = rest ∧ (linebuf ++ todo).length ≤ limit + 1 ∧
      remained.length < buf.length) := by
  induction buf generalizing linebuf todo with
  | nil => exact .inl ⟨todo, by simp [scanBuf], rfl, h, by simpa using hfull⟩
  | cons b buf ih =>
    cases todo with
    | nil =>
      obtain ⟨rfl, hrest⟩ := List.cons.inj h
      refine .inr (.inr ⟨buf, ?_, hrest, by simpa using hfull, by simp⟩)
      rw [scanBuf, if_neg (by decide), if_pos (.inl rfl), List.append_nil]
    | cons c todo =>
      obtain ⟨rfl, hrest⟩ := List.cons.inj h
      obtain ⟨⟨hlf, hcr, hnul⟩, htodo⟩ := List.forall_mem_cons.mp htodo
      rw [scanBuf, if_neg (by simp [hcr, hnul])]
      by_cases hover : limit < linebuf.length
      · refine .inr (.inl ⟨[], b, todo, buf, ?_, rfl, hrest, by simp; omega, by simp⟩)
        rw [if_pos (.inr hover), List.append_nil]
      · rw [if_neg (by simp [hlf, hover])]
        have hfits : (linebuf ++ [b]).length ≤ limit + 1 := by simp; omega
        rcases ih hfits htodo hrest with
          ⟨todo', h1, rfl, h3, h4⟩ | ⟨x, c, todo', remained, h1, rfl, h3, h4, h5⟩ |
          ⟨remained, h1, h2, h3, h4⟩
        · exact .inl ⟨todo', by simpa using h1, rfl, h3, by simpa using h4⟩
        · exact .inr (.inl ⟨b :: x, c, todo', remained, by simpa using h1, rfl, h3,
            by simpa using h4, Nat.lt_succ_of_lt h5⟩)
        · exact .inr (.inr ⟨remained, by simpa using h1, h2, by simpa using h3,
            Nat.lt_succ_of_lt h4⟩)

/-! ## One call -/

/-- **The invariant in the middle of a line**: with what has been returned so far, what is in
`linebuf` and what will be left of the rest of the line, there is as much as will be left of the
line. -/
structure InLine (limit : ℕ) (line rest out : Bytes) (s : TcpSock) : Prop where
  status : s.status = .connected
  convS2m : s.convS2m = none
  readBuffer : s.readBuffer.length ≤ bufSize
  linebuf : s.linebuf.length ≤ limit + 1
  todo : ∃ todo, s.unread = todo ++ LF :: rest ∧ (∀ c ∈ todo, IsLineByte c) ∧
    out ++ (s.linebuf ++ forcedSplit limit s.linebuf.length todo) = forcedSplit limit 0 line

/-- The line has been read, and no byte behind it. -/
structure LineRead (limit : ℕ) (line rest out : Bytes) (s : TcpSock) : Prop where
  unread : s.unread = rest
  linebuf : s.linebuf = []
  out : out = forcedSplit limit 0 line

/-- **A call in the middle of a line** stays in the line and uses up a byte or a timeout, or it
reads the line to its end.

**Proof sketch.** Induction on what reads can still use up. The buffer of a read is scanned: if it
has neither the end of the line nor makes `linebuf` too long, the loop goes on with a longer
`linebuf`. Otherwise `linebuf` is returned, a byte is skipped, and what remains of the buffer is put
into `read_buffer`, which the read has emptied. -/
lemma readlineLoop_inLine {limit : ℕ} {line rest out : Bytes} {s : TcpSock}
    (h : InLine limit line rest out s) :
    (InLine limit line rest (out ++ (s.readlineLoop limit).1.2) (s.readlineLoop limit).2 ∧
      (s.readlineLoop limit).2.readable < s.readable) ∨
    LineRead limit line rest (out ++ (s.readlineLoop limit).1.2) (s.readlineLoop limit).2 := by
  induction hn : s.readable using Nat.strong_induction_on generalizing s with
  | _ n ih =>
    subst hn
    obtain ⟨hstatus, hconv, hrb, hfull, todo, hunread, htodo, hout⟩ := h
    rcases timedReadNolock_spec hstatus (show bufSize ≠ 0 by decide) with
      ⟨-, hb, hnet⟩ | ⟨net, hread, hb, hnet⟩ | ⟨buf, net, hread, hbytes, -, hlen, -⟩
    · simp [unread, hb, hnet, stream] at hunread
    · -- a timeout
      rw [readlineLoop, hread]
      refine .inl ⟨⟨hstatus, hconv, hrb, hfull, todo, ?_, htodo, by simpa using hout⟩, ?_⟩
      · rw [← hunread, unread, unread, hnet]
        rfl
      · simp only [readable, hnet, List.map_cons, List.sum_cons, Arrival.weight_timeout]
        omega
    · rw [List.drop_eq_nil_of_le hrb] at hread hbytes
      rw [List.nil_append] at hbytes
      obtain ⟨hmeasure, hpos⟩ := readable_timedReadNolock hread
      simp only [readable, List.length_nil] at hmeasure
      have hstream : buf ++ stream net = todo ++ LF :: rest := hbytes.symm.trans hunread
      rcases scanBuf_inLine hfull htodo hstream with
        ⟨todo', hscan, rfl, hrest, hlb⟩ | ⟨x, c, todo', remained, hscan, rfl, hrest, hlb, hlt⟩ |
        ⟨remained, hscan, hrest, hlb, hlt⟩
      · -- the line goes on
        set s₁ : TcpSock := { s with readBuffer := [], net, linebuf := s.linebuf ++ buf } with hs₁
        have hloop : s.readlineLoop limit = s₁.readlineLoop limit := by
          rw [readlineLoop, hread]
          simp only [hscan, hs₁]
        have hless : s₁.readable < s.readable := by
          simp only [readable, hs₁, List.length_nil]
          omega
        have hin : InLine limit line rest out s₁ := by
          refine ⟨hstatus, hconv, Nat.zero_le _, hlb, todo', ?_, ?_, ?_⟩
          · rw [hs₁, unread, hrest]
            rfl
          · exact fun c hc => htodo c (List.mem_append_right _ hc)
          · rw [← hout, forcedSplit_append _ _ _ _ (by simpa using hlb)]
            simp [hs₁]
        rw [hloop]
        exact (ih _ hless hin rfl).imp_left fun hr => ⟨hr.1, hr.2.trans hless⟩
      · -- `linebuf` is over the limit
        set s₁ : TcpSock := { s with readBuffer := [] ++ remained, net, linebuf := s.linebuf ++ x }
          with hs₁
        have hloop : s.readlineLoop limit = s₁.readFinished := by
          rw [readlineLoop, hread]
          simp only [hscan, hs₁, appendToReadBuffer]
        have hret : s₁.readFinished.1.2 = s.linebuf ++ x := by
          simp [readFinished, output, hs₁, hconv]
        rw [hloop, hret]
        refine .inl ⟨⟨hstatus, hconv, ?_, Nat.zero_le _, todo', ?_, ?_, ?_⟩, ?_⟩
        · simp only [readFinished, hs₁, List.nil_append]
          omega
        · simpa [readFinished, hs₁, unread] using hrest
        · exact fun c hc => htodo c (List.mem_append_right _ (List.mem_cons_of_mem _ hc))
        · rw [List.length_append] at hlb
          rw [← hout, forcedSplit_append _ _ _ _ (by omega), hlb, forcedSplit_full]
          simp [readFinished, hs₁]
        · simp only [readable, readFinished, hs₁, List.nil_append]
          omega
      · -- the line ends
        set s₁ : TcpSock :=
          { s with readBuffer := [] ++ remained, net, linebuf := s.linebuf ++ todo } with hs₁
        have hloop : s.readlineLoop limit = s₁.readFinished := by
          rw [readlineLoop, hread]
          simp only [hscan, hs₁, appendToReadBuffer]
        have hret : s₁.readFinished.1.2 = s.linebuf ++ todo := by
          simp [readFinished, output, hs₁, hconv]
        rw [hloop, hret]
        refine .inr ⟨by simpa [readFinished, hs₁, unread] using hrest, by simp [readFinished], ?_⟩
        have hkeep := forcedSplit_append limit s.linebuf.length todo [] (by simpa using hlb)
        rw [List.append_nil] at hkeep
        rw [← hout, hkeep]
        simp [forcedSplit]

/-! ## Repeated calls -/

/-- What remains of a buffer behind the end of a line is shorter than the buffer. -/
lemma length_remained_lt {limit : ℕ} {linebuf buf l remained : Bytes}
    (h : scanBuf limit linebuf buf = (l, some remained)) : remained.length < buf.length := by
  induction buf generalizing linebuf with
  | nil => cases h
  | cons c buf ih =>
    rw [scanBuf] at h
    split_ifs at h
    · exact Nat.lt_succ_of_lt (ih h)
    · obtain ⟨-, hrest⟩ := Prod.mk.inj h
      obtain rfl := Option.some.inj hrest
      exact Nat.lt_succ_self _
    · exact Nat.lt_succ_of_lt (ih h)

/-- **A call reads on**, or it reads nothing and then returns what is in `linebuf` at the most.

**Proof sketch.** By induction on what can be read. A read brings some bytes, of which at least one
is used up by the scan, or it brings nothing, and then the loop ends with what is in `linebuf`. -/
lemma readline_unread (maxsize : Int32) (s : TcpSock) :
    (s.readline maxsize).2.unread.length < s.unread.length ∨
      (s.readline maxsize).2.unread = s.unread ∧
        (s.linebuf = [] → (s.readline maxsize).1.2 = [] ∧ (s.readline maxsize).2.linebuf = []) := by
  rw [readline]
  split_ifs with hs
  · exact .inr ⟨rfl, fun h => ⟨rfl, h⟩⟩
  have hconn : s.status = .connected := not_not.mp hs
  clear hs
  generalize sizeLimit maxsize = limit
  induction hn : s.readable using Nat.strong_induction_on generalizing s with
  | _ n ih =>
    subst hn
    rcases timedReadNolock_spec hconn (show bufSize ≠ 0 by decide) with
      ⟨hread, hb, hnet⟩ | ⟨net, hread, hb, hnet⟩ | ⟨buf, net, hread, hbytes, hne, hlen, -⟩
    · have hclose : s.close = { s with readBuffer := [], status := .disconnected } := by
        simp [close, hconn]
      rw [readlineLoop, hread, hclose]
      by_cases hl : s.linebuf = []
      · exact .inr (by simp [hl, unread, hb])
      · exact .inr (by simp [hl, unread, hb, readFinished])
    · rw [readlineLoop, hread]
      exact .inr ⟨by simp [unread, hnet, stream, Arrival.bytes], fun h => ⟨rfl, h⟩⟩
    · have hpos := List.length_pos_iff.mpr hne
      have hlength := congrArg List.length hbytes
      rw [List.length_append] at hlength
      have hless := (readable_timedReadNolock hread).1
      rcases hscan : scanBuf limit s.linebuf buf with ⟨l, _ | remained⟩
      · set s₁ : TcpSock := { s with readBuffer := s.readBuffer.drop bufSize, net, linebuf := l }
          with hs₁
        have hloop : s.readlineLoop limit = s₁.readlineLoop limit := by
          rw [readlineLoop, hread]
          simp only [hscan, hs₁]
        have hunread : s₁.unread.length < s.unread.length := by
          simp only [unread, hs₁] at hlength ⊢
          omega
        rw [hloop]
        refine .inl ?_
        rcases ih s₁.readable (by simp only [readable, hs₁] at hless ⊢; omega) s₁ hconn rfl with
          hlt | ⟨heq, -⟩
        · omega
        · rwa [heq]
      · have hremained := length_remained_lt hscan
        have hloop : s.readlineLoop limit = (({ s with
            readBuffer := s.readBuffer.drop bufSize, net, linebuf := l } :
              TcpSock).appendToReadBuffer remained).readFinished := by
          rw [readlineLoop, hread]
          simp only [hscan]
        rw [hloop]
        refine .inl ?_
        simp only [readFinished, appendToReadBuffer, unread, List.length_append] at hlength ⊢
        omega

/-- What has been returned by some calls. -/
def returned (maxsize : Int32) (n : ℕ) (s : TcpSock) : Bytes :=
  ((s.readlines maxsize n).1.map Prod.snd).flatten

/-- The first of some calls. -/
lemma returned_succ (maxsize : Int32) (n : ℕ) (s : TcpSock) :
    returned maxsize (n + 1) s =
      (s.readline maxsize).1.2 ++ returned maxsize n (s.readline maxsize).2 := by
  simp [returned, readlines]

/-- No call makes read bytes unread. -/
lemma length_unread_readlines_le (maxsize : Int32) (n : ℕ) (s : TcpSock) :
    (s.readlines maxsize n).2.unread.length ≤ s.unread.length := by
  induction n generalizing s with
  | zero => exact le_rfl
  | succ n ih =>
    refine (ih (s.readline maxsize).2).trans ?_
    rcases readline_unread maxsize s with hlt | ⟨heq, -⟩
    · exact hlt.le
    · rw [heq]

/-- Behind a line nothing is returned without reading on. -/
lemma returned_of_linebuf_eq_nil (maxsize : Int32) (n : ℕ) {s : TcpSock} (hl : s.linebuf = []) :
    (s.readlines maxsize n).2.unread.length < s.unread.length ∨ returned maxsize n s = [] := by
  induction n generalizing s with
  | zero => exact .inr rfl
  | succ n ih =>
    rcases readline_unread maxsize s with hlt | ⟨heq, hnil⟩
    · exact .inl ((length_unread_readlines_le maxsize n _).trans_lt hlt)
    · obtain ⟨hret, hlb⟩ := hnil hl
      rw [returned_succ, hret, List.nil_append, ← heq]
      exact ih hlb

/-- One call in the middle of a line. -/
lemma readline_inLine {maxsize : Int32} {line rest out : Bytes} {s : TcpSock}
    (h : InLine (sizeLimit maxsize) line rest out s) :
    (InLine (sizeLimit maxsize) line rest (out ++ (s.readline maxsize).1.2)
        (s.readline maxsize).2 ∧ (s.readline maxsize).2.readable < s.readable) ∨
    LineRead (sizeLimit maxsize) line rest (out ++ (s.readline maxsize).1.2)
      (s.readline maxsize).2 := by
  rw [readline, if_neg (not_not.mpr h.status)]
  exact readlineLoop_inLine h

/-- In the middle of a line there is more to read than what is behind it. -/
lemma InLine.unread_ne {limit : ℕ} {line rest out : Bytes} {s : TcpSock}
    (h : InLine limit line rest out s) : s.unread ≠ rest := by
  obtain ⟨todo, hunread, -⟩ := h.todo
  intro heq
  have hlen := congrArg List.length (heq.symm.trans hunread)
  simp at hlen
  omega

/-- **Some calls**: once the line has been read to its end and nothing behind it, what has been
returned is what is left of the line.

**Proof sketch.** By induction on the number of calls. As long as a call stops in the middle of the
line there is more to read; the call that reads its end leaves `linebuf` empty. A later call then
returns nothing, or it reads behind the line, which it has not. -/
lemma returned_of_inLine {maxsize : Int32} {line rest out : Bytes} (n : ℕ) {s : TcpSock}
    (h : InLine (sizeLimit maxsize) line rest out s)
    (hread : (s.readlines maxsize n).2.unread = rest) :
    out ++ returned maxsize n s = forcedSplit (sizeLimit maxsize) 0 line := by
  induction n generalizing s out with
  | zero => exact absurd hread h.unread_ne
  | succ n ih =>
    rw [returned_succ, ← List.append_assoc]
    rcases readline_inLine h with ⟨hin, -⟩ | hline
    · exact ih hin hread
    · rcases returned_of_linebuf_eq_nil maxsize n hline.linebuf with hlt | hnil
      · rw [hline.unread] at hlt
        exact absurd (congrArg List.length hread) hlt.ne
      · rw [hnil, List.append_nil, hline.out]

/-- Enough calls read the line to its end. -/
lemma exists_unread_eq {maxsize : Int32} {line rest out : Bytes} {s : TcpSock}
    (h : InLine (sizeLimit maxsize) line rest out s) :
    ∃ n, (s.readlines maxsize n).2.unread = rest := by
  induction hn : s.readable using Nat.strong_induction_on generalizing s out with
  | _ m ih =>
    subst hn
    rcases readline_inLine h with ⟨hin, hlt⟩ | hline
    · obtain ⟨n, hread⟩ := ih _ hlt hin rfl
      exact ⟨n + 1, hread⟩
    · exact ⟨1, hline.unread⟩

/-- **The pieces of a line are the line**: the calls that read the first line of a connection to its
end return its bytes, in pieces or not. -/
structure KeepsLine (maxsize : Int32) (net : List Arrival) (line rest : Bytes) : Prop where
  read : ∃ n, ((connected none net).readlines maxsize n).2.unread = rest
  whole : ∀ n, ((connected none net).readlines maxsize n).2.unread = rest →
    returned maxsize n (connected none net) = line

/-- **A line is kept** exactly when it is longer than the limit by one byte at the most, however it
arrives.

**Proof sketch.** The calls return what is left of the line when a byte is skipped at every forced
end. A line that is not split loses nothing, and every other line gets shorter. -/
theorem keepsLine_iff (maxsize : Int32) {net : List Arrival} {line rest : Bytes}
    (hnet : stream net = line ++ LF :: rest) (hline : ∀ c ∈ line, c ≠ LF ∧ c ≠ CR ∧ c ≠ 0) :
    KeepsLine maxsize net line rest ↔ line.length ≤ sizeLimit maxsize + 1 := by
  have hstart : InLine (sizeLimit maxsize) line rest [] (connected none net) :=
    ⟨rfl, rfl, Nat.zero_le _, Nat.zero_le _, line, hnet, hline, rfl⟩
  rw [← forcedSplit_eq_self_iff]
  constructor
  · rintro ⟨⟨n, hread⟩, hwhole⟩
    rw [← returned_of_inLine n hstart hread]
    exact hwhole n hread
  · intro hkept
    refine ⟨exists_unread_eq hstart, fun n hread => ?_⟩
    rw [← hkept, ← returned_of_inLine n hstart hread]
    rfl

/-- A line that arrives in pieces, with a timeout, and fits. -/
theorem keepsLine_fits :
    KeepsLine 2 [.data 97 [98], .timeout, .data 99 [LF, 100]] [97, 98, 99] [100] :=
  (keepsLine_iff 2 (by rfl) (by simp [LF, CR])).mpr (by decide)

/-- **A line that is split**: of `abc`, with a limit of one byte, the pieces are `ab` and nothing.

**Proof sketch.** The two calls are evaluated: the second one finds the terminator alone. -/
theorem not_keepsLine :
    ((connected none [.data 97 [98, 99, LF]]).readlines 1 2).1 = [(2, [97, 98]), (0, [])] ∧
      ¬ KeepsLine 1 [.data 97 [98, 99, LF]] [97, 98, 99] [] := by
  have hfirst : (connected none [.data 97 [98, 99, LF]]).readline 1 =
      ((2, [97, 98]), { connected none [] with readBuffer := [LF] }) := by
    rw [readline, if_neg (by simp [connected]), readlineLoop]
    rfl
  have hsecond : ({ connected none [] with readBuffer := [LF] } : TcpSock).readline 1 =
      ((0, []), connected none []) := by
    rw [readline, if_neg (by simp [connected]), readlineLoop]
    rfl
  have hcalls : (connected none [.data 97 [98, 99, LF]]).readlines 1 2 =
      ([(2, [97, 98]), (0, [])], connected none []) := by
    simp only [readlines, hfirst, hsecond]
  refine ⟨congrArg Prod.fst hcalls, fun h => ?_⟩
  have hline := h.whole 2 (by rw [hcalls]; rfl)
  rw [returned, hcalls] at hline
  cases hline

end TcpSock

end Meowbot
