import Meowbot.TcpSock

set_option relaxedAutoImplicit false
set_option autoImplicit false

/-!
# The unread bytes of a socket (`tcpsock.cpp`)

What is read next are the bytes of `read_buffer` and, behind them, those of the stream. A read takes
bytes off the front of these; from `read_buffer` as long as there are some, and then from one
segment of the stream.

At some point the peer sends nothing for longer than the time limit. The bytes in front of that
point are those that arrive in time.

## Main definitions

* `Meowbot.TcpSock.unread` — the unread bytes.
* `Meowbot.TcpSock.prompt` — those of them that arrive in time.

## Main results

* `Meowbot.TcpSock.timedReadNolock_spec` — what one read does.
* `Meowbot.TcpSock.prompt_timedReadNolock` — a read brings bytes that arrive in time.
-/

namespace Meowbot

/-- What arrives before the first timeout. -/
def untilTimeout (net : List Arrival) : List Arrival := net.takeWhile (· ≠ .timeout)

/-- No timeout is in front of what a `read` left. -/
lemma untilTimeout_putBack (unread : Bytes) (net : List Arrival) :
    untilTimeout (TcpSock.putBack unread net) = TcpSock.putBack unread (untilTimeout net) := by
  cases unread with
  | nil => rfl
  | cons c cs => rfl

namespace TcpSock

/-- The bytes that have not been read. -/
def unread (s : TcpSock) : Bytes := s.readBuffer ++ stream s.net

/-- The bytes that reads bring before one meets a timeout or the end. -/
def prompt (s : TcpSock) : Bytes := s.readBuffer ++ stream (untilTimeout s.net)

/-- **One read** of some size fails at the end of the connection, or meets a timeout, or takes bytes
off the front of the unread ones.

**Proof sketch.** By cases as in the source: first on `read_buffer`, and if it is empty on what
arrives next. Of data that is more than asked for the rest is put back, so no byte is lost. -/
lemma timedReadNolock_spec {s : TcpSock} (hs : s.status = .connected) {size : ℕ} (hsize : size ≠ 0) :
    (s.timedReadNolock size = (.error, s.close) ∧ s.readBuffer = [] ∧ s.net = []) ∨
    (∃ net, s.timedReadNolock size = (.timedOut, { s with net }) ∧ s.readBuffer = [] ∧
      s.net = .timeout :: net) ∨
    (∃ buf net, s.timedReadNolock size =
        (.read buf, { s with readBuffer := s.readBuffer.drop size, net }) ∧
      s.unread = buf ++ (s.readBuffer.drop size ++ stream net) ∧ buf ≠ [] ∧ buf.length ≤ size ∧
      (s.readBuffer ≠ [] ∧ buf = s.readBuffer.take size ∧ net = s.net ∨
        s.readBuffer = [] ∧ ∃ c cs net', s.net = .data c cs :: net' ∧ buf = (c :: cs).take size ∧
          net = putBack ((c :: cs).drop size) net')) := by
  by_cases hb : s.readBuffer = []
  · rcases hnet : s.net with _ | ⟨_ | ⟨c, cs⟩, net⟩
    · exact .inl ⟨by simp [timedReadNolock, hs, hsize, hb, hnet], hb, rfl⟩
    · exact .inr (.inl ⟨net, by simp [timedReadNolock, hs, hsize, hb, hnet], hb, rfl⟩)
    · refine .inr (.inr ⟨(c :: cs).take size, putBack ((c :: cs).drop size) net, ?_, ?_, ?_, ?_, ?_⟩)
      · rw [timedReadNolock, if_neg (by simp [hs]), if_neg hsize, if_neg (by simp [hb]), hnet, hb,
          List.drop_nil, ← hb]
      · rw [hb, List.drop_nil, List.nil_append, stream_putBack, ← List.append_assoc,
          List.take_append_drop, unread, hb, hnet]
        rfl
      · simp [hsize]
      · exact List.length_take_le _ _
      · exact .inr ⟨hb, c, cs, net, rfl, rfl, rfl⟩
  · refine .inr (.inr ⟨s.readBuffer.take size, s.net, ?_, ?_, ?_, List.length_take_le _ _,
      .inl ⟨hb, rfl, rfl⟩⟩)
    · rw [timedReadNolock, if_neg (by simp [hs]), if_neg hsize, if_pos hb]
    · rw [← List.append_assoc, List.take_append_drop, unread]
    · simp [hb, hsize]

/-- The bytes that a read brings are the first ones of those that arrive in time.

**Proof sketch.** The read succeeded, so it is the last case of `timedReadNolock_spec`: the bytes
are the first ones of `read_buffer`, or those of the data that comes next. -/
lemma prompt_timedReadNolock {s s' : TcpSock} {size : ℕ} {buf : Bytes}
    (h : s.timedReadNolock size = (.read buf, s')) : s.prompt = buf ++ s'.prompt := by
  have hs : s.status = .connected := by
    by_contra hs
    rw [timedReadNolock, if_pos hs] at h
    cases h
  have hsize : size ≠ 0 := by
    rintro rfl
    rw [timedReadNolock, if_neg (not_not.mpr hs), if_pos rfl] at h
    cases h
  rcases timedReadNolock_spec hs hsize with
    ⟨hread, -⟩ | ⟨net, hread, -⟩ | ⟨buf', net, hread, -, -, -, hfrom⟩
  · rw [hread] at h
    cases h
  · rw [hread] at h
    cases h
  · rw [hread] at h
    obtain ⟨hbuf, rfl⟩ := Prod.mk.inj h
    obtain rfl := ReadResult.read.inj hbuf
    rcases hfrom with ⟨-, rfl, rfl⟩ | ⟨hb, c, cs, net', hnet, rfl, rfl⟩
    · rw [prompt, prompt, ← List.append_assoc, List.take_append_drop]
    · dsimp only [prompt]
      rw [untilTimeout_putBack, stream_putBack, hb, List.drop_nil, List.nil_append,
        List.nil_append, ← List.append_assoc, List.take_append_drop, hnet]
      rfl

end TcpSock

end Meowbot
