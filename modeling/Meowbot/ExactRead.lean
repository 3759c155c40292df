import Meowbot.Reconnect
import Meowbot.Unread

set_option relaxedAutoImplicit false
set_option autoImplicit false

/-!
# Reading a number of bytes (`tcpsock::timed_read_acc`)

`timed_read_acc` reads until it has so many bytes, and puts what it has back into `read_buffer` if
they are too few. Every read stores its bytes at the start of the destination, over those of the
read before, and the result is that of the last read. So the function is right as long as one read
brings all the bytes, or all that come in time.

## Main definitions

* `Meowbot.TcpSock.timedReadAccResult` — the function with its result and its destination.
* `Meowbot.TcpSock.ExactRead` — all the bytes are read, or none.
* `Meowbot.TcpSock.OnePiece`, `Meowbot.TcpSock.EndsFirst` — conditions on what arrives.

## Main results

* `Meowbot.TcpSock.accRun_later` — what the reads behind the first one do.
* `Meowbot.TcpSock.exactRead_iff` — the function is right exactly when the bytes come in one piece,
  or when the connection ends.
-/

namespace Meowbot

namespace TcpSock

/-! ## The function with its result -/

/-- The loop of `timed_read_acc`, with the result of its last read. Each read is written to the
start of the destination, and what was read before it is counted, but overwritten. -/
def timedReadAccRun (size : ℕ) : ℕ → TcpSock → Bytes → ℕ → ℤ × TcpSock × Bytes × ℕ
  | rounds, s, dest, total =>
    match s.timedReadNolock (size - total) with
    | (.error, s) => (-1, s, dest, total)
    | (.timedOut, s) => (0, s, dest, total)
    | (.read buf, s) =>
      let ret := (Int32.ofNat buf.length).toInt
      let dest := buf ++ dest.drop buf.length
      let total := min size (total + buf.length)
      match rounds with
      | 0 => (ret, s, dest, total)
      | rounds + 1 =>
        if total = size then (ret, s, dest, total) else timedReadAccRun size rounds s dest total

/-- It is the loop of `timed_read_acc`. -/
lemma timedReadAccRun_snd (size rounds : ℕ) (s : TcpSock) (dest : Bytes) (total : ℕ) :
    (timedReadAccRun size rounds s dest total).2 = timedReadAccLoop size rounds s dest total := by
  induction rounds generalizing s dest total with
  | zero =>
    rw [timedReadAccRun, timedReadAccLoop]
    rcases s.timedReadNolock (size - total) with ⟨_ | _ | buf, s'⟩ <;> rfl
  | succ rounds ih =>
    rw [timedReadAccRun, timedReadAccLoop]
    rcases s.timedReadNolock (size - total) with ⟨_ | _ | buf, s'⟩
    · rfl
    · rfl
    · dsimp only
      split_ifs
      · rfl
      · exact ih _ _ _

/-- `tcpsock::timed_read_acc`: the result, the destination and the socket. When the loop ends before
the size is reached, the start of the destination is put into the read buffer, as many bytes of it
as have been read. -/
def timedReadAccResult (s : TcpSock) (dest : Bytes) (rounds : ℕ) : ℤ × Bytes × TcpSock :=
  if s.status ≠ .connected then (-1, dest, s)
  else
    match timedReadAccRun dest.length rounds s dest 0 with
    | (ret, s, dest', total) =>
      if total < dest.length then
        if s.status = .connected then (0, dest', s.appendToReadBuffer (dest'.take total))
        else (-1, dest', s)
      else (ret, dest', s)

/-- It does to the socket what `timed_read_acc` does. -/
lemma timedReadAccResult_socket (s : TcpSock) (dest : Bytes) (rounds : ℕ) :
    (s.timedReadAccResult dest rounds).2.2 = s.timedReadAcc dest rounds := by
  rw [timedReadAccResult, timedReadAcc]
  split_ifs with hs
  · rfl
  · have hloop := timedReadAccRun_snd dest.length rounds s dest 0
    rcases hrun : timedReadAccRun dest.length rounds s dest 0 with ⟨ret, s', dest', total⟩
    rw [hrun] at hloop
    simp only [← hloop]
    split_ifs <;> simp_all

/-- **An exact read**: if the connection is up afterwards, either the size is returned and the next
bytes of the stream are in the destination, or `0` is returned and the same bytes are unread as
before; whatever has been in the destination before. -/
def ExactRead (s : TcpSock) (size rounds : ℕ) : Prop :=
  ∀ dest ret dest' s', dest.length = size → s.timedReadAccResult dest rounds = (ret, dest', s') →
    s'.status = .connected →
    (ret = size ∧ s.unread = dest' ++ s'.unread ∧ dest'.length = size) ∨
      (ret = 0 ∧ s'.unread = s.unread)

/-! ## What arrives -/

/-- **The bytes come in one piece**: the first read brings all of them, in a number that an `int`
can hold, or it brings some, and then time is up or a second read would bring nothing. -/
def OnePiece (s : TcpSock) (size rounds : ℕ) : Prop :=
  ∀ buf s', s.timedReadNolock size = (.read buf, s') →
    if buf.length = size then size ≤ int32Max
    else rounds = 0 ∨ ∀ buf' s'', s'.timedReadNolock (size - buf.length) ≠ (.read buf', s'')

/-- **The connection ends first**: all that is still to come is too short, comes without a timeout,
and there is time to read it and to see the end. -/
def EndsFirst (s : TcpSock) (missing rounds : ℕ) : Prop :=
  .timeout ∉ s.net ∧ s.unread.length < missing ∧
    s.net.length + (if s.readBuffer = [] then 0 else 1) ≤ rounds

/-- What is known when a read brings some bytes: they are the first ones that are unread, as many as
asked for at most, and fewer only if the read buffer is empty now. -/
structure Brings (s : TcpSock) (size : ℕ) (buf : Bytes) (s' : TcpSock) : Prop where
  unread : s.unread = buf ++ s'.unread
  pos : 0 < buf.length
  le : buf.length ≤ size
  status : s'.status = .connected
  /-- A read that brings too few bytes empties `read_buffer`. -/
  readBuffer : buf.length < size ∨ s.readBuffer = [] → s'.readBuffer = []
  ends : buf.length < size → ∀ rounds,
    s'.EndsFirst (size - buf.length) rounds ↔ s.EndsFirst size (rounds + 1)

/-- What is known when a read brings nothing: either the connection has ended, or nothing comes in
time. -/
structure BringsNothing (s : TcpSock) (size : ℕ) (s' : TcpSock) : Prop where
  unread : s'.unread = s.unread
  readBuffer : s'.readBuffer = []
  ends : s'.status ≠ .connected ∧ (∀ rounds, s.EndsFirst size rounds) ∨
    s'.status = .connected ∧ ∀ rounds, ¬ s.EndsFirst size rounds

/-- **One read** brings some bytes or none.

**Proof sketch.** By the cases of a read: the connection has ended, or the time is up, or some bytes
come. Bytes come from `read_buffer` first, and only if it is empty from the network. -/
lemma timedReadNolock_brings {s : TcpSock} (hs : s.status = .connected) {size : ℕ}
    (hsize : size ≠ 0) :
    (∃ s', (s.timedReadNolock size = (.error, s') ∨ s.timedReadNolock size = (.timedOut, s')) ∧
      s.BringsNothing size s') ∨
    ∃ buf s', s.timedReadNolock size = (.read buf, s') ∧ s.Brings size buf s' := by
  rcases timedReadNolock_spec hs hsize with
    ⟨hread, hb, hnet⟩ | ⟨net, hread, hb, hnet⟩ | ⟨buf, net, hread, hbytes, hne, hle, hfrom⟩
  · have hclose : s.close = { s with readBuffer := [], status := .disconnected } := by
      simp [close, hs]
    refine .inl ⟨s.close, .inl hread, ?_, ?_, .inl ⟨?_, fun rounds => ⟨?_, ?_, ?_⟩⟩⟩
    · simp [hclose, unread, hb]
    · simp [hclose]
    · simp [hclose]
    · simp [hnet]
    · simp [unread, hb, hnet, stream, Nat.pos_of_ne_zero hsize]
    · simp [hb, hnet]
  · refine .inl ⟨{ s with net }, .inr hread, ?_, hb, .inr ⟨hs, fun rounds h => ?_⟩⟩
    · simp [unread, hnet, stream, Arrival.bytes]
    · exact h.1 (by simp [hnet])
  · refine .inr ⟨buf, _, hread, hbytes, List.length_pos_iff.mpr hne, hle, hs, ?_, ?_⟩
    · rintro (hlt | hb)
      · rcases hfrom with ⟨-, rfl, -⟩ | ⟨hb, -⟩
        · exact List.drop_eq_nil_of_le (by simp at hlt; omega)
        · simp [hb]
      · simp [hb]
    · intro hlt rounds
      have hlength := congrArg List.length hbytes
      rw [List.length_append] at hlength
      rcases hfrom with ⟨hb, rfl, rfl⟩ | ⟨hb, c, cs, net', hnet, rfl, rfl⟩
      · have hdrop : s.readBuffer.drop size = [] :=
          List.drop_eq_nil_of_le (by simp at hlt; omega)
        simp only [EndsFirst, unread, hdrop, hb, if_true, if_false] at hlength ⊢
        refine and_congr_right' (and_congr ?_ ?_) <;> omega
      · have hdrop : (c :: cs).drop size = [] := List.drop_eq_nil_of_le (by simp at hlt ⊢; omega)
        simp only [EndsFirst, unread, hb, hnet, hdrop, putBack, List.drop_nil, if_true] at hlength ⊢
        refine and_congr (by simp) (and_congr ?_ ?_)
        · omega
        · simp

/-- What is known when the reads behind the first one have brought `got`: the bytes are taken off
the front of the unread ones, the destination is untouched from its last byte on, and the number
that is returned is that of the last read alone. -/
structure LaterReads (size rounds : ℕ) (s : TcpSock) (dest : Bytes) (total : ℕ) (got : Bytes)
    (r : ℤ × TcpSock × Bytes × ℕ) : Prop where
  unread : s.unread = got ++ r.2.1.unread
  readBuffer : r.2.1.readBuffer = []
  totalread : r.2.2.2 = total + got.length
  le : total + got.length ≤ size
  /-- From the last byte on, the destination is not written. -/
  untouched : ∀ i, total + got.length ≤ i + 1 → r.2.2.1[i]? = dest[i]?
  /-- The last read has brought fewer bytes than have been asked for. -/
  ret : total + got.length = size → ∃ k, 0 < k ∧ k < size ∧ r.1 = (Int32.ofNat k).toInt
  status : r.2.1.status ≠ .connected ↔ s.EndsFirst (size - total) rounds
  got : ∀ buf s', s.timedReadNolock (size - total) = (.read buf, s') → got ≠ []

/-- The bytes of a read are stored in front of the byte with which it ends. -/
lemma getElem?_store {buf dest : Bytes} {i : ℕ} (h : buf.length ≤ i) :
    (buf ++ dest.drop buf.length)[i]? = dest[i]? := by
  rw [List.getElem?_append_right h, List.getElem?_drop, Nat.add_sub_cancel' h]

/-- A read brings some bytes, and is the last one. -/
lemma Brings.last {size rounds : ℕ} {s s' : TcpSock} {dest buf : Bytes} {total : ℕ}
    (h : s.Brings (size - total) buf s') (hrb : s.readBuffer = []) (hpos : 0 < total)
    (hlt : total < size) (hends : ¬ s.EndsFirst (size - total) rounds) :
    LaterReads size rounds s dest total buf ((Int32.ofNat buf.length).toInt, s',
      buf ++ dest.drop buf.length, min size (total + buf.length)) where
  unread := h.unread
  readBuffer := h.readBuffer (.inr hrb)
  totalread := Nat.min_eq_right (by have := h.le; omega)
  le := by have := h.le; omega
  untouched i hi := getElem?_store (by omega)
  ret _ := ⟨buf.length, h.pos, by have := h.le; omega, rfl⟩
  status := iff_of_false (not_not.mpr h.status) hends
  got _ _ _ := List.length_pos_iff.mp h.pos

/-- A read brings some bytes, and there are others behind it.

**Proof sketch.** Field by field. The bytes of the read come in front of the later ones, and the
later ones are written over the start of the destination, so its end stays as it was. -/
lemma Brings.cons {size rounds : ℕ} {s s' : TcpSock} {dest buf got : Bytes} {total : ℕ}
    {r : ℤ × TcpSock × Bytes × ℕ} (h : s.Brings (size - total) buf s') (hpos : 0 < total)
    (hlt : buf.length < size - total)
    (hlater : LaterReads size rounds s' (buf ++ dest.drop buf.length) (total + buf.length) got r) :
    LaterReads size (rounds + 1) s dest total (buf ++ got) r where
  unread := by rw [h.unread, hlater.unread, List.append_assoc]
  readBuffer := hlater.readBuffer
  totalread := by rw [hlater.totalread, List.length_append, Nat.add_assoc]
  le := by
    have := hlater.le
    rw [List.length_append]
    omega
  untouched i hi := by
    rw [List.length_append] at hi
    rw [hlater.untouched i (by omega), getElem?_store (by omega)]
  ret hfull := hlater.ret (by rwa [List.length_append, ← Nat.add_assoc] at hfull)
  status := by
    rw [hlater.status, ← h.ends hlt rounds, Nat.sub_sub]
  got _ _ _ := by simp [List.length_pos_iff.mp h.pos]

/-- **The reads behind the first one**, as long as bytes are missing, whatever the destination is.

**Proof sketch.** Induction on the rounds. A read brings a segment, or as much of it as is missing,
which is less than what has been read in all. -/
lemma accRun_later {size : ℕ} (rounds : ℕ) {s : TcpSock} (hs : s.status = .connected)
    (hrb : s.readBuffer = []) {total : ℕ} (hpos : 0 < total) (hlt : total < size) :
    ∃ got, ∀ dest,
      LaterReads size rounds s dest total got (timedReadAccRun size rounds s dest total) := by
  induction rounds using Nat.strong_induction_on generalizing s total with
  | _ rounds ih =>
    rcases timedReadNolock_brings hs (show size - total ≠ 0 by omega) with
      ⟨s₁, hread, hnothing⟩ | ⟨buf, s₁, hread, hbrings⟩
    · refine ⟨[], fun dest => ?_⟩
      have hlater : ∀ ret, LaterReads size rounds s dest total [] (ret, s₁, dest, total) := by
        refine fun ret => ⟨hnothing.unread.symm, hnothing.readBuffer, rfl, hlt.le, fun _ _ => rfl,
          fun h => ?_, ?_, fun buf s' hbuf => ?_⟩
        · simp at h
          omega
        · rcases hnothing.ends with ⟨hstatus, hends⟩ | ⟨hstatus, hends⟩
          · exact iff_of_true hstatus (hends rounds)
          · exact iff_of_false (not_not.mpr hstatus) (hends rounds)
        · rw [hbuf] at hread
          rcases hread with h | h <;> cases h
      rw [timedReadAccRun]
      rcases hread with hread | hread
      · rw [hread]
        exact hlater _
      · rw [hread]
        exact hlater _
    · have hle := hbrings.le
      have htotal : min size (total + buf.length) = total + buf.length :=
        Nat.min_eq_right (by omega)
      have hbytes := congrArg List.length hbrings.unread
      rw [List.length_append] at hbytes
      have hpos' := hbrings.pos
      by_cases hstop : rounds = 0 ∨ total + buf.length = size
      · -- the last read
        have hends : ¬ s.EndsFirst (size - total) rounds := by
          rintro ⟨-, hshort, htime⟩
          rcases hstop with rfl | hfull
          · have hnet : s.net = [] := List.length_eq_zero_iff.mp (by omega)
            simp [unread, hrb, hnet, stream] at hbytes
            omega
          · omega
        refine ⟨buf, fun dest => ?_⟩
        rw [timedReadAccRun, hread]
        cases rounds with
        | zero => exact hbrings.last hrb hpos hlt hends
        | succ rounds =>
          have hfull : min size (total + buf.length) = size := by omega
          dsimp only
          rw [if_pos hfull]
          exact hbrings.last hrb hpos hlt hends
      · -- there are others
        rw [not_or] at hstop
        obtain ⟨rounds, rfl⟩ := Nat.exists_eq_succ_of_ne_zero hstop.1
        obtain ⟨got, hgot⟩ := ih rounds (Nat.lt_succ_self _) hbrings.status
          (hbrings.readBuffer (.inr hrb)) (show 0 < total + buf.length by omega) (by omega)
        refine ⟨buf ++ got, fun dest => ?_⟩
        rw [timedReadAccRun, hread]
        simp only [htotal, if_neg hstop.2]
        exact hbrings.cons hpos (by omega) (hgot _)

/-! ## The function -/

/-- A run of the loop that leaves the connection up and brings too few bytes. -/
lemma timedReadAccResult_few {s s' : TcpSock} (hs : s.status = .connected) {dest dest' : Bytes}
    {rounds total : ℕ} {ret : ℤ}
    (hrun : timedReadAccRun dest.length rounds s dest 0 = (ret, s', dest', total))
    (hlt : total < dest.length) (hs' : s'.status = .connected) :
    s.timedReadAccResult dest rounds = (0, dest', s'.appendToReadBuffer (dest'.take total)) := by
  rw [timedReadAccResult, if_neg (not_not.mpr hs), hrun]
  simp only [if_pos hlt, if_pos hs']

/-- A run of the loop that brings all the bytes. -/
lemma timedReadAccResult_all {s s' : TcpSock} (hs : s.status = .connected) {dest dest' : Bytes}
    {rounds total : ℕ} {ret : ℤ}
    (hrun : timedReadAccRun dest.length rounds s dest 0 = (ret, s', dest', total))
    (hle : dest.length ≤ total) : s.timedReadAccResult dest rounds = (ret, dest', s') := by
  rw [timedReadAccResult, if_neg (not_not.mpr hs), hrun]
  simp only [if_neg (Nat.not_lt.mpr hle)]

/-- A run of the loop that ends with the connection. -/
lemma timedReadAccResult_closed {s s' : TcpSock} (hs : s.status = .connected) {dest dest' : Bytes}
    {rounds total : ℕ} {ret : ℤ}
    (hrun : timedReadAccRun dest.length rounds s dest 0 = (ret, s', dest', total))
    (hlt : total < dest.length) (hs' : s'.status ≠ .connected) :
    s.timedReadAccResult dest rounds = (-1, dest', s') := by
  rw [timedReadAccResult, if_neg (not_not.mpr hs), hrun]
  simp only [if_pos hlt, if_neg hs']

/-- **Nothing comes**: the same bytes are unread as before, or the connection has ended.

**Proof sketch.** The loop ends at its first read with nothing in `dest`, so what is put back is
nothing, and the result is zero unless the connection has ended. -/
lemma exactRead_of_nothing {s s' : TcpSock} (hs : s.status = .connected) {size rounds : ℕ}
    (hsize : size ≠ 0)
    (hread : s.timedReadNolock size = (.error, s') ∨ s.timedReadNolock size = (.timedOut, s'))
    (hnothing : s.BringsNothing size s') : s.ExactRead size rounds := by
  rintro dest ret dest' s'' rfl hresult hconn
  have hrun : ∃ ret', timedReadAccRun dest.length rounds s dest 0 = (ret', s', dest, 0) := by
    rw [timedReadAccRun, Nat.sub_zero]
    rcases hread with hread | hread
    · exact ⟨-1, by rw [hread]⟩
    · exact ⟨0, by rw [hread]⟩
  obtain ⟨ret', hrun⟩ := hrun
  have hlt : 0 < dest.length := Nat.pos_of_ne_zero hsize
  by_cases hs' : s'.status = .connected
  · rw [timedReadAccResult_few hs hrun hlt hs'] at hresult
    obtain ⟨rfl, -, rfl⟩ : 0 = ret ∧ _ := by simpa using hresult
    refine .inr ⟨rfl, ?_⟩
    rw [← hnothing.unread]
    simp [appendToReadBuffer, unread]
  · rw [timedReadAccResult_closed hs hrun hlt hs'] at hresult
    obtain ⟨-, -, rfl⟩ : -1 = ret ∧ _ := by simpa using hresult
    exact absurd hconn hs'

/-- **The first read brings all the bytes**: the result is right as far as it is an `int`.

**Proof sketch.** The loop ends behind its first read, with all bytes in `dest`, and the result is
their number as an `int`. This is the number itself exactly if it is in the range of `int`. -/
lemma exactRead_of_all {s s' : TcpSock} (hs : s.status = .connected) {size rounds : ℕ}
    (hsize : size ≠ 0) {buf : Bytes} (hread : s.timedReadNolock size = (.read buf, s'))
    (hbrings : s.Brings size buf s') (hfull : buf.length = size) :
    s.ExactRead size rounds ↔ size ≤ int32Max := by
  have hresult : ∀ dest : Bytes, dest.length = size →
      s.timedReadAccResult dest rounds = ((Int32.ofNat size).toInt, buf, s') := by
    rintro dest rfl
    refine timedReadAccResult_all hs ?_ (le_refl dest.length)
    rw [timedReadAccRun, Nat.sub_zero, hread]
    cases rounds <;> simp [hfull]
  have hlength := congrArg List.length hbrings.unread
  rw [List.length_append] at hlength
  constructor
  · intro h
    rcases h (List.replicate size 0) _ _ _ (List.length_replicate ..)
      (hresult _ (List.length_replicate ..)) hbrings.status with ⟨hret, -⟩ | ⟨-, hsame⟩
    · have := (Int32.ofNat size).toInt_lt
      simp only [int32Max]
      omega
    · rw [hsame] at hlength
      omega
  · rintro hle dest ret dest' s'' hdest heq -
    have hcast : (Int32.ofNat size).toInt = size := by
      simp only [int32Max] at hle
      exact Int32.toInt_ofNat_of_lt (by omega)
    rw [hresult dest hdest, hcast] at heq
    simp only [Prod.mk.injEq] at heq
    obtain ⟨hret, rfl, rfl⟩ := heq
    exact .inl ⟨hret.symm, hbrings.unread, hfull⟩

/-- **The first read is the only one**: what it has brought is put back.

**Proof sketch.** The loop ends with what the first read has brought at the start of `dest`, and
puts it back in front of the bytes that are unread; these are then the same as before. -/
lemma exactRead_of_onePiece {s s' : TcpSock} (hs : s.status = .connected) {size rounds : ℕ}
    {buf : Bytes} (hread : s.timedReadNolock size = (.read buf, s'))
    (hbrings : s.Brings size buf s') (hlt : buf.length < size)
    (hone : rounds = 0 ∨
      ∀ buf' s'', s'.timedReadNolock (size - buf.length) ≠ (.read buf', s'')) :
    s.ExactRead size rounds := by
  rintro dest ret dest' s'' rfl hresult hconn
  have htotal : min dest.length (0 + buf.length) = buf.length := by omega
  have hrun : ∃ ret' s₂, timedReadAccRun dest.length rounds s dest 0 =
      (ret', s₂, buf ++ dest.drop buf.length, buf.length) ∧ s₂.unread = s'.unread ∧
        s₂.readBuffer = [] := by
    have hrb := hbrings.readBuffer (.inl hlt)
    rw [timedReadAccRun, Nat.sub_zero, hread]
    cases rounds with
    | zero => exact ⟨(Int32.ofNat buf.length).toInt, s', by simp only [htotal], rfl, hrb⟩
    | succ rounds =>
      simp only [htotal, if_neg hlt.ne]
      have hmore : dest.length - buf.length ≠ 0 := by omega
      rcases timedReadNolock_brings hbrings.status hmore with
        ⟨s₂, hread₂, hnothing⟩ | ⟨buf', s₂, hread₂, -⟩
      · rw [timedReadAccRun]
        rcases hread₂ with hread₂ | hread₂
        · exact ⟨_, s₂, by rw [hread₂], hnothing.unread, hnothing.readBuffer⟩
        · exact ⟨_, s₂, by rw [hread₂], hnothing.unread, hnothing.readBuffer⟩
      · exact absurd hread₂ ((hone.resolve_left (Nat.succ_ne_zero _)) buf' s₂)
  obtain ⟨ret', s₂, hrun, hunread, hrb⟩ := hrun
  by_cases hs₂ : s₂.status = .connected
  · rw [timedReadAccResult_few hs hrun hlt hs₂, List.take_left] at hresult
    obtain ⟨rfl, -, rfl⟩ : _ ∧ _ ∧ _ := by simpa using hresult
    refine .inr ⟨rfl, ?_⟩
    rw [hbrings.unread, ← hunread]
    simp [appendToReadBuffer, unread, hrb]
  · rw [timedReadAccResult_closed hs hrun hlt hs₂] at hresult
    obtain ⟨-, -, rfl⟩ : _ ∧ _ ∧ _ := by simpa using hresult
    exact absurd hconn hs₂

/-- The result of a read of some but not all bytes is not the size. -/
lemma toInt_ofNat_ne {k size : ℕ} (h : k < size) : (Int32.ofNat k).toInt ≠ size := by
  by_cases hk : k < 2 ^ 31
  · rw [Int32.toInt_ofNat_of_lt hk]
    omega
  · have := (Int32.ofNat k).toInt_lt
    omega

/-- **The last of several pieces** is not where it is taken from: with another byte there in the
destination, other bytes are put back.

**Proof sketch.** The place of the last byte is not written, so it has the byte that the destination
had there, and this is another one. -/
lemma LaterReads.take_ne {size rounds : ℕ} {s : TcpSock} {buf got : Bytes} {b : Byte}
    {r : ℤ × TcpSock × Bytes × ℕ}
    (h : LaterReads size rounds s (buf ++ (List.replicate size (b + 1)).drop buf.length) buf.length
      (got ++ [b]) r) :
    r.2.2.1.take r.2.2.2 ≠ buf ++ (got ++ [b]) := by
  intro heq
  have hle := h.le
  have htotal := h.totalread
  rw [List.length_append, List.length_singleton] at hle htotal
  have hlast : r.2.2.1[buf.length + got.length]? = some (b + 1) := by
    rw [h.untouched _ (by simp; omega), getElem?_store (by omega), List.getElem?_replicate]
    exact if_pos (by omega)
  have hread : (buf ++ (got ++ [b]))[buf.length + got.length]? = some b := by
    rw [← List.append_assoc, List.getElem?_append_right (by simp)]
    simp
  rw [← heq, List.getElem?_take_of_lt (by omega), hlast] at hread
  have hsame := Option.some.inj hread
  simp at hsame

/-- **There are more reads than one**: bytes are lost, unless the connection ends.

**Proof sketch.** If the connection stays up and all the bytes come, the result is the number of
bytes of the last piece. If they do not, what is put back ends with a byte that has been in the
destination before. -/
lemma exactRead_of_later {s s' s'' : TcpSock} (hs : s.status = .connected) {size rounds : ℕ}
    {buf buf' : Bytes} (hread : s.timedReadNolock size = (.read buf, s'))
    (hbrings : s.Brings size buf s') (hlt : buf.length < size)
    (hread' : s'.timedReadNolock (size - buf.length) = (.read buf', s'')) :
    s.ExactRead size (rounds + 1) ↔ s.EndsFirst size (rounds + 1) := by
  have hpos := hbrings.pos
  have hrun : ∀ dest : Bytes, dest.length = size →
      timedReadAccRun dest.length (rounds + 1) s dest 0 =
        timedReadAccRun size rounds s' (buf ++ dest.drop buf.length) buf.length := by
    rintro dest rfl
    have htotal : min dest.length (0 + buf.length) = buf.length := by omega
    rw [timedReadAccRun, Nat.sub_zero, hread]
    simp only [htotal, if_neg hlt.ne]
  obtain ⟨got, hlater⟩ := accRun_later rounds hbrings.status (hbrings.readBuffer (.inl hlt)) hpos hlt
  rw [← hbrings.ends hlt]
  constructor
  · intro h
    by_contra hlive
    obtain ⟨got, b, rfl⟩ :=
      (List.eq_nil_or_concat' got).resolve_left ((hlater []).got _ _ hread')
    have hdest : (List.replicate size (b + 1)).length = size := List.length_replicate
    have hrun := hrun _ hdest
    have hgot := hlater (buf ++ (List.replicate size (b + 1)).drop buf.length)
    have hne := hgot.take_ne
    rcases hr : timedReadAccRun size rounds s' (buf ++ (List.replicate size (b + 1)).drop buf.length)
      buf.length with ⟨ret, s₂, dest₂, total⟩
    rw [hr] at hrun hgot hne
    have hstatus : s₂.status = .connected := not_not.mp (mt hgot.status.mp hlive)
    have htotal : total = buf.length + (got ++ [b]).length := hgot.totalread
    have hunread : s'.unread = got ++ [b] ++ s₂.unread := hgot.unread
    have hbytes : s.unread = buf ++ (got ++ [b]) ++ s₂.unread := by
      simp only [hbrings.unread, hunread, List.append_assoc]
    rcases Nat.lt_or_ge total size with hfew | hall
    · -- what is put back is not what has been read
      rcases h _ _ _ _ hdest (timedReadAccResult_few hs hrun (by rwa [hdest]) hstatus) hstatus with
        ⟨hret, -⟩ | ⟨-, hsame⟩
      · omega
      · rw [hbytes] at hsame
        have hrb : s₂.readBuffer = [] := hgot.readBuffer
        simp only [appendToReadBuffer, unread, hrb, List.nil_append] at hsame
        exact hne (List.append_cancel_right hsame)
    · -- the result is that of the last read
      obtain ⟨k, -, hk, hret⟩ := hgot.ret (le_antisymm hgot.le (htotal ▸ hall))
      rcases h _ _ _ _ hdest (timedReadAccResult_all hs hrun (by rwa [hdest])) hstatus with
        ⟨hret', -⟩ | ⟨-, hsame⟩
      · exact toInt_ofNat_ne hk (hret.symm.trans hret')
      · have hlength := congrArg List.length (hsame.trans hbytes)
        simp at hlength
        omega
  · rintro hends dest ret dest' t hdest hresult hconn
    have hgot := hlater (buf ++ dest.drop buf.length)
    have hstatus := hgot.status.mpr hends
    have hbytes := congrArg List.length hgot.unread
    have hfew := hends.2.1
    rw [List.length_append] at hbytes
    have hclosed := timedReadAccResult_closed hs (hrun dest hdest)
      (by rw [hgot.totalread, hdest]; omega) hstatus
    rw [hclosed] at hresult
    simp only [Prod.mk.injEq] at hresult
    obtain ⟨-, -, rfl⟩ := hresult
    exact absurd hconn hstatus

/-- **The function is right** exactly when the bytes come in one piece or the connection ends.

**Proof sketch.** If one read brings all the bytes, the result and the destination are right. If one
read brings all that comes, it is put back. Every read behind that stores its bytes over those
before. -/
theorem exactRead_iff {s : TcpSock} (hs : s.status = .connected) (size rounds : ℕ) :
    s.ExactRead size rounds ↔ s.OnePiece size rounds ∨ s.EndsFirst size rounds := by
  by_cases hsize : size = 0
  · subst hsize
    have hread : s.timedReadNolock 0 = (.timedOut, s) := by simp [timedReadNolock, hs]
    refine iff_of_true ?_ (.inl fun buf s' hbuf => ?_)
    · rintro dest ret dest' s' hdest hresult -
      obtain rfl := List.length_eq_zero_iff.mp hdest
      have hrun : timedReadAccRun ([] : Bytes).length rounds s [] 0 = (0, s, [], 0) := by
        rw [timedReadAccRun, List.length_nil, Nat.sub_zero, hread]
      rw [timedReadAccResult_all hs hrun le_rfl] at hresult
      simp only [Prod.mk.injEq] at hresult
      obtain ⟨rfl, rfl, rfl⟩ := hresult
      exact .inl ⟨rfl, rfl, rfl⟩
    · rw [hread] at hbuf
      cases hbuf
  rcases timedReadNolock_brings hs hsize with
    ⟨s', hread, hnothing⟩ | ⟨buf, s', hread, hbrings⟩
  · refine iff_of_true (exactRead_of_nothing hs hsize hread hnothing) (.inl fun buf s'' hbuf => ?_)
    rw [hbuf] at hread
    rcases hread with h | h <;> cases h
  · have hone : s.OnePiece size rounds ↔ if buf.length = size then size ≤ int32Max
        else rounds = 0 ∨ ∀ buf' s'', s'.timedReadNolock (size - buf.length) ≠ (.read buf', s'') := by
      refine ⟨fun h => h buf s' hread, fun h buf' s'' hread' => ?_⟩
      obtain ⟨hbuf, rfl⟩ := Prod.mk.inj (hread.symm.trans hread')
      obtain rfl := ReadResult.read.inj hbuf
      exact h
    rw [hone]
    split_ifs with hfull
    · have hends : ¬ s.EndsFirst size rounds := by
        rintro ⟨-, hshort, -⟩
        rw [hbrings.unread, List.length_append] at hshort
        omega
      rw [or_iff_left hends]
      exact exactRead_of_all hs hsize hread hbrings hfull
    · have hlt : buf.length < size := lt_of_le_of_ne hbrings.le hfull
      by_cases honce : rounds = 0 ∨
          ∀ buf' s'', s'.timedReadNolock (size - buf.length) ≠ (.read buf', s'')
      · exact iff_of_true (exactRead_of_onePiece hs hread hbrings hlt honce) (.inl honce)
      · rw [or_iff_right honce]
        push Not at honce
        obtain ⟨hrounds, buf', s'', hread'⟩ := honce
        obtain ⟨rounds, rfl⟩ := Nat.exists_eq_succ_of_ne_zero hrounds
        exact exactRead_of_later hs hread hbrings hlt hread'

/-- A part in `read_buffer` and a timeout. -/
theorem exactRead_timeout :
    ExactRead { connected none [.timeout, .data 99 []] with readBuffer := [97, 98] } 3 10 := by
  refine (exactRead_iff rfl 3 10).mpr (.inl fun buf s' hread => ?_)
  obtain ⟨hbuf, rfl⟩ := Prod.mk.inj hread
  obtain rfl := ReadResult.read.inj hbuf
  exact .inr fun buf' s'' hread' => by cases hread'

/-- **Two pieces**: of `abc`, which comes as `ab` and `c`, the destination gets `cb`, and the result
is `1`; if it is followed by a timeout, `cb` and a byte of the destination are put back.

**Proof sketch.** The calls are evaluated. In the first the result is not the size that was asked
for, in the second the bytes that are put back are not those that were read. -/
theorem not_exactRead :
    ((connected none [.data 97 [98], .data 99 []]).timedReadAccResult [0, 0, 0] 10).1 = 1 ∧
      ((connected none [.data 97 [98], .data 99 []]).timedReadAccResult [0, 0, 0] 10).2.1 =
        [99, 98, 0] ∧
      ¬ (connected none [.data 97 [98], .data 99 []]).ExactRead 3 10 ∧
      ((connected none [.data 97 [98], .data 99 [], .timeout]).timedReadAccResult [0, 0, 0, 0]
        10).2.2.unread = [99, 98, 0] ∧
      ¬ (connected none [.data 97 [98], .data 99 [], .timeout]).ExactRead 4 10 := by
  refine ⟨by decide, by decide, fun h => ?_, by decide, fun h => ?_⟩
  · rcases h [0, 0, 0] _ _ _ rfl rfl (by decide) with ⟨hret, -⟩ | ⟨hret, -⟩
    · revert hret
      decide
    · revert hret
      decide
  · rcases h [0, 0, 0, 0] _ _ _ rfl rfl (by decide) with ⟨hret, -⟩ | ⟨-, hsame⟩
    · revert hret
      decide
    · revert hsame
      decide

end TcpSock

end Meowbot
