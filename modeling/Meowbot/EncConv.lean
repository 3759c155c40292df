import Meowbot.Basic

set_option relaxedAutoImplicit false
set_option autoImplicit false

/-!
# Conversion of encodings (`encoding_converter.cpp`)

`encconv::convert` converts a text with `iconv`, to a buffer with four bytes for each byte of the
text and some more. Where `iconv` stops at an invalid or unfinished sequence, a byte of the text is
skipped and a fill character is written, and `iconv` goes on behind it.

`iconv` is a parameter, with a state of its own (`IconvDocumented` is what its manual says of it).
`errno` is only given for a negative result. A write outside of the buffer, or a byte skipped behind
the end of the text, is a result of its own.

## Main definitions

* `Meowbot.Iconv`, `Meowbot.IconvDocumented` — the library.
* `Meowbot.convertLoop`, `Meowbot.EncConv.convert` — the source.
* `Meowbot.Piece`, `Meowbot.Converts` — the stretches of a text that are converted, and the bytes
  that are skipped between them.

## Main results

* `Meowbot.convertLoop_ends` — the loop ends within the buffer, and has converted the stretches in
  order.
* `Meowbot.convert_ends` — so does the conversion, with the terminator.
-/

namespace Meowbot

/-! ## The library -/

/-- `errno`, behind `iconv`. -/
inductive IconvErrno where
  | eilseq
  | einval
  | e2big
  | ebadf
  | other
  deriving DecidableEq

/-- What a call of `iconv` does: the state of the descriptor, the number of bytes that have been
taken, what has been written, and `errno` if the result is below zero. -/
structure IconvResult (σ : Type) where
  state : σ
  consumed : ℕ
  out : Bytes
  errno : Option IconvErrno

/-- `iconv`: the state of the descriptor, the bytes from `*inbuf` on, and `*outbytesleft`. -/
abbrev Iconv (σ : Type) := σ → Bytes → ℕ → IconvResult σ

/-- What is documented, for an encoding with at most four bytes for a byte of the text: a part of
the text from its start on is taken, the whole of it if there is no error; a byte of an invalid or
unfinished sequence is left; the room is not enough only if it is less than needed at most. -/
structure IconvDocumented {σ : Type} (iconv : Iconv σ) : Prop where
  consumed_le : ∀ st inbuf room, (iconv st inbuf room).consumed ≤ inbuf.length
  length_out_le : ∀ st inbuf room,
    (iconv st inbuf room).out.length ≤ 4 * (iconv st inbuf room).consumed
  consumed_eq : ∀ st inbuf room, (iconv st inbuf room).errno = none →
    (iconv st inbuf room).consumed = inbuf.length
  consumed_lt : ∀ st inbuf room,
    (iconv st inbuf room).errno = some .eilseq ∨ (iconv st inbuf room).errno = some .einval →
      (iconv st inbuf room).consumed < inbuf.length
  room_lt : ∀ st inbuf room, (iconv st inbuf room).errno = some .e2big → room < 4 * inbuf.length

/-! ## The source -/

/-- An `encconv`: the state of the descriptor if there is one, and `fill_char`. -/
structure EncConv (σ : Type) where
  converter : Option σ
  fillChar : Byte

/-- The end of the loop: behind it, in a `return`, or in an access out of range. -/
inductive ConvLoopEnd (σ : Type) where
  | done (state : σ) (written : Bytes)
  | ret (code : ℤ)
  | outside
  deriving DecidableEq

section Source

variable {σ : Type} (iconv : Iconv σ) (fillChar : Byte) (failOnInvalidSeq : Bool) (size : ℕ)

/-- A round of the loop of `encconv::convert`, with the text that is left and what has been written:
the loop ends, or it goes on. -/
def convertRound (st : σ) (inbuf written : Bytes) : ConvLoopEnd σ ⊕ (σ × Bytes × Bytes) :=
  if inbuf = [] then .inl (.done st written)
  else
    let r := iconv st inbuf (size - written.length)
    let written := written ++ r.out
    if size < written.length then .inl .outside
    else
      match r.errno with
      | none => .inr (r.state, inbuf.drop r.consumed, written)
      | some errno =>
        if errno = .eilseq ∨ errno = .einval then
          if failOnInvalidSeq then .inl (.ret (-2))
          else if written.length < size ∧ r.consumed < inbuf.length then
            .inr (r.state, inbuf.drop (r.consumed + 1), written ++ [fillChar])
          else .inl .outside
        else if errno = .e2big then .inl (.done r.state written)
        else if errno = .ebadf then .inl (.ret (-3))
        else .inl (.done r.state written)

/-- The loop, for a number of rounds. There is no result if they are not enough. -/
def convertLoop : ℕ → σ → Bytes → Bytes → Option (ConvLoopEnd σ)
  | 0, _, _, _ => none
  | rounds + 1, st, inbuf, written =>
    match convertRound iconv fillChar failOnInvalidSeq size st inbuf written with
    | .inl r => some r
    | .inr (st, inbuf, written) => convertLoop rounds st inbuf written

end Source

/-- The result of a conversion: `*resultp` up to and including the terminator, with `*cvlen`, or an
error, or an access out of range. -/
inductive ConvResult where
  | ok (buf : Bytes) (cvlen : ℕ)
  | error (code : ℤ)
  | outside
  deriving DecidableEq

/-- `size`, computed in 32 bits. -/
def convSize (len : ℕ) : ℕ := (UInt32.ofNat len * 4 + 16).toNat

/-- What is behind the loop: the terminator is written. -/
def ConvLoopEnd.result {σ : Type} (size : ℕ) : ConvLoopEnd σ → ConvResult
  | .done _ written =>
    if written.length < size then .ok (written ++ [0]) written.length else .outside
  | .ret code => .error code
  | .outside => .outside

/-- `encconv::convert`, for a number of rounds. -/
def EncConv.convert {σ : Type} (iconv : Iconv σ) (conv : EncConv σ) (rounds : ℕ) (data : Bytes)
    (failOnInvalidSeq : Bool) : Option ConvResult :=
  match conv.converter with
  | none => some (.error (-1))
  | some st =>
    (convertLoop iconv conv.fillChar failOnInvalidSeq (convSize data.length) rounds st data []).map
      (ConvLoopEnd.result (convSize data.length))

/-! ## Stretches -/

/-- A stretch that is converted with its conversion, and the byte that is skipped behind it. -/
structure Piece where
  stretch : Bytes
  out : Bytes
  skipped : Option Byte

/-- The bytes of a piece in the text. -/
def Piece.input (p : Piece) : Bytes := p.stretch ++ p.skipped.toList

/-- The bytes of a piece in the result. -/
def Piece.output (fillChar : Byte) (p : Piece) : Bytes :=
  p.out ++ (p.skipped.map fun _ => fillChar).toList

/-- The pieces of a text: `iconv`, with room enough, takes a stretch, and stops at an invalid or
unfinished sequence, of which a byte is skipped, until the text is at its end or there is an error
of another kind. -/
inductive Converts {σ : Type} (iconv : Iconv σ) :
    σ → Bytes → List Piece → Option IconvErrno → Prop where
  | nil (st : σ) : Converts iconv st [] [] none
  | last {st st' : σ} {stretch out : Bytes} {room : ℕ} (hroom : 4 * stretch.length ≤ room)
      (hcall : iconv st stretch room = ⟨st', stretch.length, out, none⟩) :
      Converts iconv st stretch [⟨stretch, out, none⟩] none
  | skip {st st' : σ} {stretch out rest : Bytes} {c : Byte} {room : ℕ} {errno : IconvErrno}
      {ps : List Piece} {stop : Option IconvErrno}
      (hroom : 4 * (stretch ++ c :: rest).length ≤ room)
      (hcall : iconv st (stretch ++ c :: rest) room = ⟨st', stretch.length, out, some errno⟩)
      (herrno : errno = .eilseq ∨ errno = .einval) (hrest : Converts iconv st' rest ps stop) :
      Converts iconv st (stretch ++ c :: rest) (⟨stretch, out, some c⟩ :: ps) stop
  | stop {st st' : σ} {stretch out rest : Bytes} {room : ℕ}
      (hroom : 4 * (stretch ++ rest).length ≤ room)
      (hcall : iconv st (stretch ++ rest) room = ⟨st', stretch.length, out, some .other⟩) :
      Converts iconv st (stretch ++ rest) [⟨stretch, out, none⟩] (some .other)

/-- The pieces are the text, up to an error of another kind. -/
lemma Converts.input_prefix {σ : Type} {iconv : Iconv σ} {st : σ} {inbuf : Bytes}
    {ps : List Piece} {stop : Option IconvErrno} (h : Converts iconv st inbuf ps stop) :
    ∃ rest, inbuf = ps.flatMap Piece.input ++ rest ∧ (stop = none → rest = []) := by
  induction h with
  | nil st => exact ⟨[], rfl, fun _ => rfl⟩
  | last => exact ⟨[], by simp [Piece.input], fun _ => rfl⟩
  | skip hroom hcall herrno hrest ih =>
    obtain ⟨rest', heq, hstop⟩ := ih
    refine ⟨rest', ?_, hstop⟩
    conv_lhs => rw [heq]
    simp [Piece.input]
  | @stop st st' stretch out rest room hroom hcall =>
    exact ⟨rest, by simp [Piece.input], nofun⟩

/-- A call of `iconv` and the byte that is skipped behind it.

**Proof sketch.** The input is cut into what `iconv` has consumed, the byte that is skipped, and the
rest, for which the conversion goes on; the room is enough for what was put out. -/
lemma Converts.skip_of_call {σ : Type} {iconv : Iconv σ} {st st' : σ} {inbuf out : Bytes}
    {room consumed : ℕ} {errno : IconvErrno} {ps : List Piece} {stop : Option IconvErrno}
    (hroom : 4 * inbuf.length ≤ room) (hlt : consumed < inbuf.length)
    (hcall : iconv st inbuf room = ⟨st', consumed, out, some errno⟩)
    (herrno : errno = .eilseq ∨ errno = .einval)
    (hrest : Converts iconv st' (inbuf.drop (consumed + 1)) ps stop) :
    Converts iconv st inbuf (⟨inbuf.take consumed, out, some inbuf[consumed]⟩ :: ps) stop := by
  have hsplit : inbuf.take consumed ++ inbuf[consumed] :: inbuf.drop (consumed + 1) = inbuf := by
    rw [← List.drop_eq_getElem_cons hlt, List.take_append_drop]
  have hlen : (inbuf.take consumed).length = consumed := by
    rw [List.length_take]
    omega
  have h : Converts iconv st (inbuf.take consumed ++ inbuf[consumed] :: inbuf.drop (consumed + 1))
      (⟨inbuf.take consumed, out, some inbuf[consumed]⟩ :: ps) stop := by
    refine @Converts.skip σ iconv st st' _ out _ _ room errno ps stop ?_ ?_ herrno hrest
    · rwa [hsplit]
    · rwa [hsplit, hlen]
  rwa [hsplit] at h

/-- A call of `iconv` with an error of another kind. -/
lemma Converts.stop_of_call {σ : Type} {iconv : Iconv σ} {st st' : σ} {inbuf out : Bytes}
    {room consumed : ℕ} (hroom : 4 * inbuf.length ≤ room) (hle : consumed ≤ inbuf.length)
    (hcall : iconv st inbuf room = ⟨st', consumed, out, some .other⟩) :
    Converts iconv st inbuf [⟨inbuf.take consumed, out, none⟩] (some .other) := by
  have hlen : (inbuf.take consumed).length = consumed := by
    rw [List.length_take]
    omega
  have h : Converts iconv st (inbuf.take consumed ++ inbuf.drop consumed)
      [⟨inbuf.take consumed, out, none⟩] (some .other) := by
    refine @Converts.stop σ iconv st st' _ out _ room ?_ ?_
    · rwa [List.take_append_drop]
    · rwa [List.take_append_drop, hlen]
  rwa [List.take_append_drop] at h

/-! ## The loop -/

section Loop

variable {σ : Type} {iconv : Iconv σ} {fillChar : Byte} {failOnInvalidSeq : Bool} {size : ℕ}

/-- The first call of `iconv` stops at an invalid or unfinished sequence. -/
def StopsAtInvalid (iconv : Iconv σ) (st : σ) (inbuf : Bytes) (room : ℕ) : Prop :=
  (iconv st inbuf room).errno = some .eilseq ∨ (iconv st inbuf room).errno = some .einval

/-- What the loop comes to from some state on: it stays in the buffer, and behind it the pieces of
the text have been written. It returns early only at an invalid sequence, if it is told to, or when
the descriptor is not valid any more. -/
structure EndsWell (iconv : Iconv σ) (fillChar : Byte) (failOnInvalidSeq : Bool) (size : ℕ) (st : σ)
    (inbuf written : Bytes) (r : ConvLoopEnd σ) : Prop where
  ne_outside : r ≠ .outside
  done : ∀ st' written', r = .done st' written' → written'.length < size ∧ ∃ ps stop,
    Converts iconv st inbuf ps stop ∧ written' = written ++ ps.flatMap (Piece.output fillChar) ∧
      (failOnInvalidSeq = true → ∀ p ∈ ps, p.skipped = none)
  ret : ∀ code, r = .ret code →
    (code = -2 ∧ failOnInvalidSeq = true ∧
      StopsAtInvalid iconv st inbuf (size - written.length)) ∨
    (code = -3 ∧ ∃ st inbuf room, (iconv st inbuf room).errno = some .ebadf)

/-- **The loop ends** after a round for each byte of the text at most, within a buffer with four
bytes for each of them and one more.

**Proof sketch.** By induction on the rounds. A call takes at most all of the text, and writes at
most four bytes for each byte that it takes; a skipped byte gives one. So what has been written and
four times what is left do not get more. -/
lemma convertLoop_ends (hic : IconvDocumented iconv) (rounds : ℕ) (st : σ) (inbuf written : Bytes)
    (hrounds : inbuf.length < rounds) (hsize : written.length + 4 * inbuf.length < size) :
    ∃ r, convertLoop iconv fillChar failOnInvalidSeq size rounds st inbuf written = some r ∧
      EndsWell iconv fillChar failOnInvalidSeq size st inbuf written r := by
  induction rounds generalizing st inbuf written with
  | zero => omega
  | succ rounds ih =>
    rw [convertLoop, convertRound]
    by_cases hempty : inbuf = []
    · subst hempty
      rw [if_pos rfl]
      refine ⟨_, rfl, nofun, fun st' written' h => ?_, nofun⟩
      obtain ⟨-, rfl⟩ := by simpa only [ConvLoopEnd.done.injEq] using h
      exact ⟨by simpa using hsize, [], none, .nil st, by simp, by simp⟩
    rw [if_neg hempty]
    have hpos : 0 < inbuf.length := List.length_pos_iff.mpr hempty
    have hroom : 4 * inbuf.length ≤ size - written.length := by omega
    have hle := hic.consumed_le st inbuf (size - written.length)
    have hout := hic.length_out_le st inbuf (size - written.length)
    have hall := hic.consumed_eq st inbuf (size - written.length)
    have hleft := hic.consumed_lt st inbuf (size - written.length)
    have hbig := hic.room_lt st inbuf (size - written.length)
    generalize hr : iconv st inbuf (size - written.length) = r at hle hout hall hleft hbig ⊢
    obtain ⟨st', consumed, out, errno⟩ := r
    dsimp only at hle hout hall hleft hbig ⊢
    have hwritten : (written ++ out).length = written.length + out.length := List.length_append
    rw [if_neg (by omega)]
    cases errno with
    | none =>
      -- all of the text has been taken
      obtain rfl := hall rfl
      obtain ⟨rounds, rfl⟩ : ∃ k, rounds = k + 1 := ⟨rounds - 1, by omega⟩
      dsimp only
      rw [List.drop_length, convertLoop, convertRound, if_pos rfl]
      refine ⟨_, rfl, nofun, fun st'' written' h => ?_, nofun⟩
      obtain ⟨-, rfl⟩ := by simpa only [ConvLoopEnd.done.injEq] using h
      refine ⟨by omega, [⟨inbuf, out, none⟩], none, .last hroom hr, ?_, by simp⟩
      simp [Piece.output]
    | some errno =>
      dsimp only
      by_cases hskip : errno = .eilseq ∨ errno = .einval
      · rw [if_pos hskip]
        have hlt : consumed < inbuf.length := hleft (by simpa using hskip)
        cases failOnInvalidSeq with
        | true =>
          refine ⟨_, rfl, nofun, nofun, fun code h => .inl ⟨?_, rfl, ?_⟩⟩
          · exact (ConvLoopEnd.ret.inj h).symm
          · rw [StopsAtInvalid, hr]
            simpa using hskip
        | false =>
          have hdrop : (inbuf.drop (consumed + 1)).length = inbuf.length - (consumed + 1) :=
            List.length_drop
          have hfill : (written ++ out ++ [fillChar]).length = written.length + out.length + 1 := by
            rw [List.length_append, hwritten]
            rfl
          rw [if_neg (by simp), if_pos ⟨by omega, hlt⟩]
          obtain ⟨res, hloop, hends⟩ := ih st' (inbuf.drop (consumed + 1))
            (written ++ out ++ [fillChar]) (by omega) (by omega)
          refine ⟨res, hloop, hends.ne_outside, fun st'' written' h => ?_, fun code h => ?_⟩
          · obtain ⟨hin, ps, stop, hconv, hps, -⟩ := hends.done st'' written' h
            refine ⟨hin, _, stop, .skip_of_call hroom hlt hr hskip hconv, ?_, by simp⟩
            rw [hps]
            simp [Piece.output]
          · exact .inr ((hends.ret code h).resolve_left fun h => absurd h.2.1 (by decide))
      · rw [if_neg hskip]
        by_cases hfull : errno = .e2big
        · have := hbig (by rw [hfull])
          omega
        rw [if_neg hfull]
        by_cases hbadf : errno = .ebadf
        · rw [if_pos hbadf]
          refine ⟨_, rfl, nofun, nofun, fun code h =>
            .inr ⟨?_, st, inbuf, size - written.length, ?_⟩⟩
          · exact (ConvLoopEnd.ret.inj h).symm
          · rw [hr, hbadf]
        · rw [if_neg hbadf]
          have hother : errno = .other := by
            cases errno <;> simp_all
          subst hother
          refine ⟨_, rfl, nofun, fun st'' written' h => ?_, nofun⟩
          obtain ⟨-, rfl⟩ := by simpa only [ConvLoopEnd.done.injEq] using h
          exact ⟨by omega, _, _, .stop_of_call hroom hle hr, by simp [Piece.output], by simp⟩

end Loop

/-! ## The conversion -/

/-- More rounds do not change the result. -/
lemma convertLoop_of_le {σ : Type} {iconv : Iconv σ} {fillChar : Byte} {failOnInvalidSeq : Bool}
    {size rounds rounds' : ℕ} {st : σ} {inbuf written : Bytes} {r : ConvLoopEnd σ}
    (hle : rounds ≤ rounds')
    (h : convertLoop iconv fillChar failOnInvalidSeq size rounds st inbuf written = some r) :
    convertLoop iconv fillChar failOnInvalidSeq size rounds' st inbuf written = some r := by
  induction rounds generalizing rounds' st inbuf written with
  | zero => cases h
  | succ rounds ih =>
    obtain ⟨rounds', rfl⟩ : ∃ k, rounds' = k + 1 := ⟨rounds' - 1, by omega⟩
    rw [convertLoop] at h ⊢
    cases hround : convertRound iconv fillChar failOnInvalidSeq size st inbuf written with
    | inl r' =>
      rw [hround] at h
      exact h
    | inr next =>
      rw [hround] at h
      exact ih (by omega) h

/-- The size of the buffer, if it is computed without wrapping around. -/
lemma convSize_eq {len : ℕ} (h : len < 2 ^ 29) : convSize len = 4 * len + 16 := by
  rw [convSize, UInt32.toNat_add, UInt32.toNat_mul, UInt32.toNat_ofNat']
  simp only [UInt32.reduceToNat]
  omega

/-- What a conversion should give: no access out of range, and if there is no error, the pieces of
the text in order, with the terminator behind them in the buffer. There is an error only without a
descriptor, at an invalid sequence if these are not to be skipped, and where `iconv` says that its
descriptor is not valid; so a conversion with a descriptor that skips invalid bytes succeeds. -/
structure ConvertsWell {σ : Type} (iconv : Iconv σ) (conv : EncConv σ) (data : Bytes)
    (failOnInvalidSeq : Bool) (r : ConvResult) : Prop where
  ne_outside : r ≠ .outside
  ok : ∀ buf cvlen, r = .ok buf cvlen → buf.length ≤ convSize data.length ∧
    ∃ st ∈ conv.converter, ∃ ps stop, Converts iconv st data ps stop ∧
      buf = ps.flatMap (Piece.output conv.fillChar) ++ [0] ∧ cvlen + 1 = buf.length ∧
      (stop = none → ps.flatMap Piece.input = data) ∧
      (failOnInvalidSeq = true → ∀ p ∈ ps, p.skipped = none)
  error : ∀ code, r = .error code →
    (code = -1 ∧ conv.converter = none) ∨
    (code = -2 ∧ failOnInvalidSeq = true ∧
      ∃ st ∈ conv.converter, StopsAtInvalid iconv st data (convSize data.length)) ∨
    (code = -3 ∧ ∃ st inbuf room, (iconv st inbuf room).errno = some .ebadf)

/-- **A conversion ends within its buffer**, and converts the stretches of the text in order; it
succeeds unless there is a reason not to.

**Proof sketch.** The buffer has four bytes for each byte of the text and some more, so the loop
ends in it (`convertLoop_ends`), with room for the terminator. -/
theorem convert_ends {σ : Type} {iconv : Iconv σ} (hic : IconvDocumented iconv) (conv : EncConv σ)
    {data : Bytes} (hlen : data.length < 2 ^ 29) (failOnInvalidSeq : Bool) :
    ∃ r, (∀ rounds > data.length, conv.convert iconv rounds data failOnInvalidSeq = some r) ∧
      ConvertsWell iconv conv data failOnInvalidSeq r := by
  cases hconv : conv.converter with
  | none =>
    refine ⟨.error (-1), fun rounds _ => ?_, nofun, nofun, fun code h => .inl ⟨?_, hconv⟩⟩
    · rw [EncConv.convert, hconv]
    · exact (ConvResult.error.inj h).symm
  | some st =>
    have hsize := convSize_eq hlen
    obtain ⟨r, hloop, hends⟩ := @convertLoop_ends σ iconv conv.fillChar failOnInvalidSeq
      (convSize data.length) hic (data.length + 1) st data [] (Nat.lt_succ_self _)
      (by rw [hsize, List.length_nil]; omega)
    refine ⟨r.result (convSize data.length), fun rounds hrounds => ?_, ?_⟩
    · rw [EncConv.convert, hconv]
      dsimp only
      rw [convertLoop_of_le hrounds hloop, Option.map_some]
    cases r with
    | ret code =>
      refine ⟨nofun, nofun, fun code' h => ?_⟩
      obtain rfl := ConvResult.error.inj h
      rcases hends.ret _ rfl with ⟨hcode, hfail, hstops⟩ | hbadf
      · exact .inr (.inl ⟨hcode, hfail, st, hconv, hstops⟩)
      · exact .inr (.inr hbadf)
    | outside => exact absurd rfl hends.ne_outside
    | done st' written =>
      obtain ⟨hin, ps, stop, hps, hwritten, hskipped⟩ := hends.done st' written rfl
      rw [ConvLoopEnd.result, if_pos hin]
      refine ⟨nofun, fun buf cvlen h => ?_, nofun⟩
      obtain ⟨rfl, rfl⟩ := by simpa only [ConvResult.ok.injEq] using h
      refine ⟨?_, st, hconv, ps, stop, hps, ?_, ?_, fun hstop => ?_, hskipped⟩
      · rw [List.length_append]
        exact hin
      · rw [hwritten, List.nil_append]
      · rw [List.length_append]
        rfl
      · obtain ⟨rest, heq, hrest⟩ := hps.input_prefix
        rw [heq, hrest hstop, List.append_nil]

/-- A converter from ASCII, which has no bytes from `0x80` on. -/
def asciiIconv : Iconv Unit := fun _ inbuf room =>
  let s := inbuf.takeWhile (· < (0x80 : Byte))
  if room < s.length then ⟨(), room, s.take room, some .e2big⟩
  else ⟨(), s.length, s, if s.length < inbuf.length then some .eilseq else none⟩

/-- It is as documented. -/
lemma asciiIconv_documented : IconvDocumented asciiIconv := by
  have hle : ∀ inbuf : Bytes, (inbuf.takeWhile (· < (0x80 : Byte))).length ≤ inbuf.length :=
    fun inbuf => (List.takeWhile_prefix _).length_le
  constructor <;> intro st inbuf room <;> have := hle inbuf <;> rw [asciiIconv]
  · split_ifs <;> dsimp only <;> omega
  · split_ifs <;> simp only [List.length_take] <;> omega
  · split_ifs <;> intro h <;> cases h
    dsimp only
    omega
  · split_ifs with hroom hlt <;> intro h
    · simp at h
    · exact hlt
    · simp at h
  · split_ifs with hroom hlt <;> intro h
    · omega
    · cases h
    · cases h

/-- An invalid byte between two letters. -/
theorem convert_ends_ascii :
    ∃ r, (∀ rounds > [(97 : Byte), 255, 98].length,
        EncConv.convert asciiIconv ⟨some (), 63⟩ rounds [97, 255, 98] false = some r) ∧
      ConvertsWell asciiIconv ⟨some (), 63⟩ [97, 255, 98] false r :=
  convert_ends asciiIconv_documented ⟨some (), 63⟩ (by decide) false

example : EncConv.convert asciiIconv ⟨some (), 63⟩ 4 [97, 255, 98] false =
    some (.ok [97, 63, 98, 0] 3) := by decide

end Meowbot
