import Meowbot.ReadOrder

set_option relaxedAutoImplicit false
set_option autoImplicit false

/-!
# What arrives in time (`tcpsock.cpp`)

A peer that is waited for sends its bytes in pieces, and at some point it sends nothing for longer
than the time limit, or it closes the connection. What the calls of `timed_read` and `readline`
return until then depends only on the bytes that arrive before that point and on which of the two
it is, and not on the pieces.

## Main definitions

* `Meowbot.TcpSock.ends` — the connection is closed behind the bytes that arrive in time.

## Main results

* `Meowbot.TcpSock.read_prompt` — one call of `timed_read`.
* `Meowbot.TcpSock.getLine_prompt` — one call of a line reader.
-/

namespace Meowbot

namespace TcpSock

/-- Whether the end of the connection is behind the bytes that arrive in time. -/
def ends (s : TcpSock) : Bool := !s.net.contains .timeout

/-- The end of the connection is behind what a `read` left when it was before. -/
lemma contains_putBack (unread : Bytes) (net : List Arrival) :
    (putBack unread net).contains .timeout = net.contains .timeout := by
  cases unread with
  | nil => rfl
  | cons c cs => rfl

/-- What is left of a socket by a read that brings bytes: they are the first ones of those that
arrive in time, and how the stream ends is as before. -/
structure Leaves (s : TcpSock) (buf : Bytes) (s' : TcpSock) : Prop where
  ne_nil : buf ≠ []
  prompt : s.prompt = buf ++ s'.prompt
  ends : s'.ends = s.ends
  status : s'.status = .connected
  linebuf : s'.linebuf = s.linebuf
  convS2m : s'.convS2m = s.convS2m
  readable : s'.readable < s.readable

/-- **One read** fails at the end of the connection, or meets a timeout, or brings some of the bytes
that arrive in time.

**Proof sketch.** The three cases of `timedReadNolock_spec`. In the first two nothing is there; in
the third the bytes are those that come next, and less is left to read. -/
lemma read_prompt {s : TcpSock} (hs : s.status = .connected) {size : ℕ} (hsize : size ≠ 0) :
    (s.prompt = [] ∧ s.ends = true ∧ s.timedReadNolock size = (.error, s.close)) ∨
    (s.prompt = [] ∧ s.ends = false ∧
      ∃ net, s.timedReadNolock size = (.timedOut, { s with net })) ∨
    ∃ buf s', s.timedReadNolock size = (.read buf, s') ∧ s.Leaves buf s' ∧ buf.length ≤ size ∧
      s'.readBuffer = s.readBuffer.drop size := by
  rcases timedReadNolock_spec hs hsize with
    ⟨hread, hb, hnet⟩ | ⟨net, hread, hb, hnet⟩ | ⟨buf, net, hread, -, hne, hlen, hfrom⟩
  · exact .inl ⟨by simp [prompt, hb, hnet, untilTimeout, stream], by simp [ends, hnet], hread⟩
  · exact .inr (.inl ⟨by simp [prompt, hb, hnet, untilTimeout, stream], by simp [ends, hnet], net,
      hread⟩)
  · obtain ⟨hless, hpos⟩ := readable_timedReadNolock hread
    refine .inr (.inr ⟨buf, _, hread, ?_, hlen, rfl⟩)
    have hends : net.contains .timeout = s.net.contains .timeout := by
      rcases hfrom with ⟨-, -, rfl⟩ | ⟨-, c, cs, net', hnet, -, rfl⟩
      · rfl
      · rw [contains_putBack, hnet]
        rfl
    exact ⟨hne, prompt_timedReadNolock hread, congrArg (! ·) hends, hs, rfl, rfl, by omega⟩

end TcpSock

/-! ## The next line -/

section Line

variable (skip : Byte → Bool) (delim : Byte) (limit : ℕ)

/-- The next line of a text that has begun with some bytes, and the text behind it. What is left at
the end of the connection is a line when it is not empty. -/
def nextLine (ended : Bool) (linebuf text : Bytes) : Option (Bytes × Bytes) :=
  let line := linebuf ++ lineKept skip delim limit linebuf.length text
  match lineEnd skip delim limit linebuf.length text with
  | some n => some (line, text.drop n)
  | none => if ended ∧ line ≠ [] then some (line, []) else none

variable {skip delim limit} {ended : Bool} {linebuf buf : Bytes}

/-- What is kept of a text is not longer than the text. -/
lemma length_lineKept_le_length (k : ℕ) (text : Bytes) :
    (lineKept skip delim limit k text).length ≤ text.length := by
  induction text generalizing k with
  | nil => exact le_rfl
  | cons c cs ih =>
    rw [lineKept]
    split_ifs
    · exact (ih k).trans (Nat.le_succ _)
    · exact Nat.zero_le _
    · exact Nat.succ_le_succ (ih (k + 1))

/-- A line is not much longer than the limit: the byte that is over it is skipped. -/
lemma length_lineKept_le (k : ℕ) (text : Bytes) :
    (lineKept skip delim limit k text).length ≤ limit + 1 - k := by
  induction text generalizing k with
  | nil => exact Nat.zero_le _
  | cons c cs ih =>
    rw [lineKept]
    split_ifs with hskip hend
    · exact ih k
    · exact Nat.zero_le _
    · have := ih (k + 1)
      rw [List.length_cons]
      omega

/-- The text behind the next line is shorter.

**Proof sketch.** If the line has an end, it takes the delimiter at least, and what it keeps is
within the limit. If it has none, the text is not empty and all of it is taken. -/
lemma length_of_nextLine {text line rest : Bytes}
    (h : nextLine skip delim limit ended [] text = some (line, rest)) :
    line.length ≤ limit + 1 ∧ rest.length < text.length := by
  simp only [nextLine, List.nil_append, List.length_nil] at h
  have hkept : (lineKept skip delim limit 0 text).length ≤ limit + 1 := length_lineKept_le 0 text
  cases hend : lineEnd skip delim limit 0 text with
  | none =>
    rw [hend] at h
    dsimp only at h
    split_ifs at h with hne
    obtain ⟨rfl, rfl⟩ := Prod.mk.inj (Option.some.inj h)
    refine ⟨hkept, List.length_pos_iff.mpr fun hnil => hne.2 ?_⟩
    rw [hnil, lineKept]
  | some n =>
    rw [hend] at h
    obtain ⟨rfl, rfl⟩ := Prod.mk.inj (Option.some.inj h)
    have hbounds := lineEnd_bounds hend
    rw [List.length_drop]
    exact ⟨hkept, by omega⟩

/-- Without more text the line that has begun is the next one, at the end of the connection. -/
lemma nextLine_nil : nextLine skip delim limit ended linebuf [] =
    if ended ∧ linebuf ≠ [] then some (linebuf, []) else none := by
  simp only [nextLine, lineEnd, lineKept, List.append_nil]

/-- The next line when it does not end in the first bytes. -/
lemma nextLine_more (h : lineEnd skip delim limit linebuf.length buf = none) (text : Bytes) :
    nextLine skip delim limit ended linebuf (buf ++ text) =
      nextLine skip delim limit ended
        (linebuf ++ lineKept skip delim limit linebuf.length buf) text := by
  simp only [nextLine, lineEnd_append h, lineKept_append h, List.length_append, List.append_assoc]
  cases lineEnd skip delim limit (linebuf.length +
      (lineKept skip delim limit linebuf.length buf).length) text with
  | none => rfl
  | some n =>
    simp only [Option.map_some]
    rw [List.drop_append, List.drop_eq_nil_of_le (Nat.le_add_right _ _), Nat.add_sub_cancel_left,
      List.nil_append]

/-- The next line when it ends in the first bytes. -/
lemma nextLine_end {n : ℕ} (h : lineEnd skip delim limit linebuf.length buf = some n)
    (text : Bytes) :
    nextLine skip delim limit ended linebuf (buf ++ text) =
      some (linebuf ++ lineKept skip delim limit linebuf.length buf, buf.drop n ++ text) := by
  have hend := lineEnd_append_of_some h text
  have hle := (lineEnd_bounds h).2
  have hkept := lineKept_take hend
  rw [List.take_append_of_le_length hle, lineKept_take h] at hkept
  simp only [nextLine, hend, ← hkept, List.drop_append_of_le_length hle]

end Line

namespace TcpSock

variable {skip : Byte → Bool} {delim : Byte} {limit : ℕ} {s : TcpSock} {text : Bytes} {ended : Bool}

/-- What a socket is still to deliver in time, and whether the connection ends behind it. -/
structure Delivers (s : TcpSock) (text : Bytes) (ended : Bool) : Prop where
  readBuffer : s.readBuffer.length ≤ bufSize
  prompt : s.prompt = text
  ends : s.ends = ended
  closed : s.status ≠ .connected → text = [] ∧ s.linebuf = []

/-- **The loop of a line reader** returns the next line of what arrives in time, or none.

**Proof sketch.** By induction on what can be read. A read brings the next bytes of the text; either
the line ends in them, and what is left is put back, or the loop goes on with all of them in
`linebuf`. Where nothing comes in time, the loop is left. -/
lemma lineLoop_prompt (hs : s.status = .connected) (hd : s.Delivers text ended) :
    match nextLine skip delim limit ended s.linebuf text with
    | some (l, rest) => ∃ s', s.lineLoop (scanLine skip delim limit) = (.line l, s') ∧
        s'.Delivers rest ended ∧ s'.linebuf = [] ∧ s'.convS2m = s.convS2m
    | none => ∀ l, (s.lineLoop (scanLine skip delim limit)).1 ≠ .line l := by
  induction hn : s.readable using Nat.strong_induction_on generalizing s text with
  | _ n ih =>
    subst hn
    rcases read_prompt hs (show bufSize ≠ 0 by decide) with
      ⟨hnil, hends, hread⟩ | ⟨hnil, hends, net, hread⟩ | ⟨buf, s', hread, hleaves, hlen, hbuffer⟩
    · -- the end of the connection
      have hclose : s.close = { s with readBuffer := [], status := .disconnected } := by
        simp [close, hs]
      rw [← hd.prompt, hnil, ← hd.ends, hends, lineLoop, hread, hclose, nextLine_nil]
      by_cases hl : s.linebuf = []
      · rw [if_neg (by simp [hl])]
        simp [hl]
      · rw [if_pos ⟨rfl, hl⟩]
        refine ⟨_, if_pos hl, ⟨Nat.zero_le _, ?_, ?_, fun _ => ⟨rfl, rfl⟩⟩, rfl, rfl⟩
        · exact (List.append_eq_nil_iff.mp hnil).2
        · exact hends
    · -- a timeout
      rw [← hd.prompt, hnil, ← hd.ends, hends, lineLoop, hread, nextLine_nil, if_neg (by simp)]
      simp
    · have htext : text = buf ++ s'.prompt := hd.prompt.symm.trans hleaves.prompt
      have hempty : s'.readBuffer = [] := by
        rw [hbuffer]
        exact List.drop_eq_nil_of_le hd.readBuffer
      cases hend : lineEnd skip delim limit s'.linebuf.length buf with
      | none =>
        -- the line goes on
        rw [htext, ← hleaves.linebuf, nextLine_more hend, lineLoop_more hread hend]
        have hrest := ih _ hleaves.readable
          (s := { s' with
            linebuf := s'.linebuf ++ lineKept skip delim limit s'.linebuf.length buf })
          hleaves.status ⟨by simp [hempty], rfl, hleaves.ends.trans hd.ends,
            fun h => absurd hleaves.status h⟩ rfl
        rw [← hleaves.convS2m]
        exact hrest
      | some n =>
        -- the line ends in the buffer
        rw [htext, ← hleaves.linebuf, nextLine_end hend, lineLoop_end hread hend]
        refine ⟨_, rfl, ⟨?_, ?_, hleaves.ends.trans hd.ends, fun h => absurd hleaves.status h⟩, rfl,
          hleaves.convS2m⟩
        · simp only [hempty, List.nil_append, List.length_drop]
          omega
        · simp [TcpSock.prompt, hempty]

variable (skip delim limit) in
/-- **One call of a line reader** returns the next line of what arrives in time, or none. -/
lemma getLine_prompt (hd : s.Delivers text ended) :
    match nextLine skip delim limit ended s.linebuf text with
    | some (l, rest) => ∃ s', s.getLine (scanLine skip delim limit) = (.line l, s') ∧
        s'.Delivers rest ended ∧ s'.linebuf = [] ∧ s'.convS2m = s.convS2m
    | none => ∀ l, (s.getLine (scanLine skip delim limit)).1 ≠ .line l := by
  by_cases hs : s.status = .connected
  · rw [getLine, if_neg (by simp [hs])]
    exact lineLoop_prompt hs hd
  · obtain ⟨rfl, hl⟩ := hd.closed hs
    rw [nextLine_nil, hl, if_neg (by simp), getLine, if_pos hs]
    simp

/-- The loop uses up some of what can be read when it returns a line.

**Proof sketch.** By induction on what can be read. A read takes some bytes away, and a line that
ends uses at least one of them; a line that is left over in `linebuf` is not empty. -/
lemma weight_lineLoop (hs : s.status = .connected) {l : Bytes} {s' : TcpSock}
    (h : s.lineLoop (scanLine skip delim limit) = (.line l, s')) : s'.weight < s.weight := by
  induction hn : s.readable using Nat.strong_induction_on generalizing s with
  | _ n ih =>
    subst hn
    rcases timedReadNolock_spec hs (show bufSize ≠ 0 by decide) with
      ⟨hread, hb, hnet⟩ | ⟨net, hread, hb, hnet⟩ | ⟨buf, net, hread, -⟩
    · have hclose : s.close = { s with readBuffer := [], status := .disconnected } := by
        simp [close, hs]
      rw [lineLoop, hread, hclose] at h
      dsimp only at h
      split_ifs at h with hl
      · obtain ⟨-, rfl⟩ := Prod.mk.inj h
        have hpos := List.length_pos_iff.mpr hl
        simp only [weight, readable, hb, List.length_nil]
        omega
      · cases (Prod.mk.inj h).1
    · rw [lineLoop, hread] at h
      cases (Prod.mk.inj h).1
    · obtain ⟨hmeasure, hpos⟩ := readable_timedReadNolock hread
      cases hend : lineEnd skip delim limit s.linebuf.length buf with
      | none =>
        have hkept : (lineKept skip delim limit s.linebuf.length buf).length ≤ buf.length :=
          length_lineKept_le_length _ _
        rw [lineLoop_more hread hend] at h
        have hless := ih _ (by simp only [readable] at hmeasure ⊢; omega) (s :=
          { s with
            readBuffer := s.readBuffer.drop bufSize
            net
            linebuf := s.linebuf ++ lineKept skip delim limit s.linebuf.length buf }) hs h rfl
        simp only [weight, readable, List.length_append] at hmeasure hless ⊢
        omega
      | some n =>
        have hbounds := lineEnd_bounds hend
        rw [lineLoop_end hread hend] at h
        obtain ⟨-, rfl⟩ := Prod.mk.inj h
        simp only [weight, readable, List.length_append, List.length_drop,
          List.length_nil] at hmeasure ⊢
        omega

/-- `readline` uses up some of what can be read when it returns a line. -/
lemma weight_readline {maxsize : Int32} (h : 0 ≤ (s.readline maxsize).1.1) :
    (s.readline maxsize).2.weight < s.weight := by
  rw [readline_eq] at h ⊢
  dsimp only at h ⊢
  rcases hline : s.getLine (scanLine isDropped LF (sizeLimit maxsize)) with ⟨l | _ | _, s'⟩
  · rw [getLine] at hline
    split_ifs at hline with hs
    · cases (Prod.mk.inj hline).1
    · exact weight_lineLoop (not_not.mp hs) hline
  · rw [hline] at h
    exact absurd h (by decide : ¬ (0 : ℤ) ≤ -1)
  · rw [hline] at h
    exact absurd h (by decide : ¬ (0 : ℤ) ≤ -2)

end TcpSock

end Meowbot
