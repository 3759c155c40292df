import Meowbot.Irc

set_option relaxedAutoImplicit false
set_option autoImplicit false

/-!
# What `quote` reports (`irc.cpp`)

`quote` copies at most 510 bytes of a line. Its result is taken from the last byte that the loop has
read: the terminator means that the line has been copied as a whole. When the buffer is full the
loop ends without another look at the line, so the last byte is one that has been copied, whether
bytes are left or not.

## Main definitions

* `Meowbot.keptBytes` — the bytes of a line that are to be sent.
* `Meowbot.Irc.ReportsTruncation` — the result tells whether bytes have been dropped.

## Main results

* `Meowbot.Irc.reportsTruncation_iff` — it does except when the buffer is exactly full.
-/

namespace Meowbot

/-- The bytes of a line that are to be sent. -/
def keptBytes (s : Bytes) : Bytes := s.filter fun c => c ≠ LF ∧ c ≠ CR

namespace Irc

/-- The terminator is read exactly when the copied bytes leave room in the buffer. -/
lemma quoteCopy_snd (n : ℕ) (s : Bytes) : (quoteCopy n s).2 = true ↔ (keptBytes s).length < n := by
  induction s generalizing n with
  | nil => cases n <;> simp [quoteCopy, keptBytes]
  | cons c cs ih =>
    cases n with
    | zero => simp [quoteCopy]
    | succ n =>
      by_cases hc : c = LF ∨ c = CR
      · have hkept : keptBytes (c :: cs) = keptBytes cs :=
          List.filter_cons_of_neg (by simpa [← not_or] using hc)
        rw [quoteCopy, if_pos hc, hkept, ih]
      · have hkept : keptBytes (c :: cs) = c :: keptBytes cs :=
          List.filter_cons_of_pos (by simpa [← not_or] using hc)
        rw [quoteCopy, if_neg hc, hkept, List.length_cons, Nat.succ_lt_succ_iff]
        exact ih n

/-- `quote` queues one line, made of these bytes. -/
def Sends (c : Irc) (line : Bytes) (priority : ℤ) (convertEnc : Bool) (sent : Bytes) : Prop :=
  (c.quote line priority convertEnc).2.outgoing = c.outgoing ++ [(sent ++ [CR, LF], priority)]

/-- **The result of `quote` tells whether bytes have been dropped**: it is `0` if and only if the
line that is queued has all the bytes to be sent, and `-1` if and only if some are missing. -/
structure ReportsTruncation (c : Irc) (line : Bytes) (priority : ℤ) (convertEnc : Bool) :
    Prop where
  complete : (c.quote line priority convertEnc).1 = 0 ↔
    c.Sends line priority convertEnc (keptBytes (c.quoteSource line convertEnc))
  dropped : (c.quote line priority convertEnc).1 = -1 ↔
    ∃ k < (keptBytes (c.quoteSource line convertEnc)).length,
      c.Sends line priority convertEnc ((keptBytes (c.quoteSource line convertEnc)).take k)

/-- What is queued. -/
lemma sends_iff {c : Irc} (hc : c.status ≠ .disconnected) (line : Bytes) (priority : ℤ)
    (convertEnc : Bool) (sent : Bytes) :
    c.Sends line priority convertEnc sent ↔
      (keptBytes (c.quoteSource line convertEnc)).take ircMaxLineSize = sent := by
  rw [Sends, quote_snd hc, wireLine]
  simp [keptBytes]

/-- The result. -/
lemma quote_fst {c : Irc} (hc : c.status ≠ .disconnected) (line : Bytes) (priority : ℤ)
    (convertEnc : Bool) :
    (c.quote line priority convertEnc).1 =
      if (keptBytes (c.quoteSource line convertEnc)).length < ircMaxLineSize then 0 else -1 := by
  simp only [quote, if_neg hc, quoteCopy_snd]

/-- **The result is right** exactly when the bytes to be sent do not fill the buffer to the last
byte.

**Proof sketch.** What is queued are the first 510 of the bytes to be sent, and the result is `0` if
there are fewer of them. These agree unless there are 510. -/
theorem reportsTruncation_iff {c : Irc} (hc : c.status ≠ .disconnected) (line : Bytes)
    (priority : ℤ) (convertEnc : Bool) :
    c.ReportsTruncation line priority convertEnc ↔
      (keptBytes (c.quoteSource line convertEnc)).length ≠ ircMaxLineSize := by
  have hsends := sends_iff hc line priority convertEnc
  have hresult := quote_fst hc line priority convertEnc
  generalize hkept : keptBytes (c.quoteSource line convertEnc) = kept at hsends hresult ⊢
  have hzero : (c.quote line priority convertEnc).1 = 0 ↔ kept.length < ircMaxLineSize := by
    rw [hresult]
    split_ifs with h <;> simp [h]
  have hminus : (c.quote line priority convertEnc).1 = -1 ↔ ircMaxLineSize ≤ kept.length := by
    rw [hresult]
    split_ifs with h
    · simp [h]
    · simp [Nat.le_of_not_lt h]
  have hall : c.Sends line priority convertEnc kept ↔ kept.length ≤ ircMaxLineSize := by
    rw [hsends]
    exact ⟨fun h => h ▸ List.length_take_le _ _, List.take_of_length_le⟩
  have hsome : (∃ k < kept.length, c.Sends line priority convertEnc (kept.take k)) ↔
      ircMaxLineSize < kept.length := by
    constructor
    · rintro ⟨k, hk, hk'⟩
      have hlen := congrArg List.length ((hsends _).mp hk')
      rw [List.length_take, List.length_take] at hlen
      omega
    · exact fun h => ⟨ircMaxLineSize, h, (hsends _).mpr rfl⟩
  constructor
  · rintro ⟨hcomplete, -⟩ hfull
    rw [hkept, hzero, hall] at hcomplete
    omega
  · intro hne
    refine ⟨?_, ?_⟩
    · rw [hkept, hzero, hall]
      omega
    · rw [hkept, hminus, hsome]
      omega

/-- A short line. -/
theorem reportsTruncation_ping :
    (fresh (bytes "bot")).ReportsTruncation (bytes "PING :x\n") 0 true :=
  (reportsTruncation_iff (by decide) _ _ _).mpr (by decide)

/-- **A line that fits exactly**: all of its 510 bytes are sent, and the result is `-1`.

**Proof sketch.** The line has no byte that is left out, so all of it fills the size exactly: it is
sent as it is, and the loop has ended for the size, which is what `-1` says. -/
theorem not_reportsTruncation :
    let line := List.replicate 510 (97 : Byte)
    let r := (fresh (bytes "bot")).quote line 0 false
    r.1 = -1 ∧ r.2.outgoing = [(line ++ [CR, LF], 0)] ∧
      ¬ (fresh (bytes "bot")).ReportsTruncation line 0 false := by
  intro line
  have hlen : line.length = ircMaxLineSize := List.length_replicate
  have hbytes : ∀ b ∈ line, b = 97 := fun b hb => List.eq_of_mem_replicate hb
  clear_value line
  intro r
  have hsource : (fresh (bytes "bot")).quoteSource line false = line :=
    cstr_eq_self fun h => by cases hbytes 0 h
  have hkept : keptBytes line = line := List.filter_eq_self.mpr fun b hb => by
    rw [hbytes b hb]
    decide
  have hresult : r.1 = -1 := by
    rw [quote_fst (by decide), hsource, hkept, hlen]
    rfl
  have hsent : (fresh (bytes "bot")).Sends line 0 false line := by
    rw [sends_iff (by decide), hsource, hkept]
    exact List.take_of_length_le hlen.le
  refine ⟨hresult, hsent, fun h => ?_⟩
  have hzero : r.1 = 0 := h.complete.mpr (by rw [hsource, hkept]; exact hsent)
  rw [hresult] at hzero
  omega

end Irc

end Meowbot
