import Meowbot.Irc

set_option relaxedAutoImplicit false
set_option autoImplicit false

/-!
# No command injection through `privmsg`

Text from channel users ends up in `privmsg`. Whatever bytes it holds, it cannot end a protocol
line and start another one: everything goes through the copy loop of `quote`, which drops line
terminators and counts only the bytes it keeps. This holds of whatever `s_vsprintf` gives; what it
gives is known for a text of less than 1024 bytes, which it formats once.

## Main results

* `Meowbot.Irc.wireLine_noInjection` — the shape of a line made by `quote`.
* `Meowbot.Irc.privmsg_noInjection` — `privmsg` hands out at most one line, of that shape.
* `Meowbot.Irc.privmsg_convertedDest_not_converted` — a destination marked as converted is not
  converted again, converter or not.
-/

namespace Meowbot

namespace Irc

/-- The C string `privmsg` has copied for a text: converted if a converter is set and the
destination is not marked as converted already, the text itself if the conversion fails. -/
def sentText (c : Irc) (dest : IrcMsginfo) (text : Bytes) : Bytes :=
  match c.convM2s with
  | some convert => if dest.lineConverted then text else cstr ((convert text).getD text)
  | none => text

/-- **A line made by `quote`**: at most 510 bytes without line terminators, and one final
`\r\n`. -/
lemma wireLine_noInjection (s : Bytes) :
    ∃ body, wireLine s = body ++ [CR, LF] ∧ body <+: s.filter (fun c => c ≠ LF ∧ c ≠ CR) ∧
      LF ∉ body ∧ CR ∉ body ∧ body.length ≤ 510 := by
  have hpre := List.take_prefix ircMaxLineSize (s.filter fun c => c ≠ LF ∧ c ≠ CR)
  refine ⟨_, rfl, hpre, ?_, ?_, List.length_take_le _ _⟩
  · intro h
    simpa using (List.mem_filter.mp (hpre.subset h)).2
  · intro h
    simpa using (List.mem_filter.mp (hpre.subset h)).2

/-- The message texts contain no NUL, so they are their own C strings. -/
lemma cstr_messageText {msgtype : IrcMsgtype} {chan msg text : Bytes}
    (h : messageText msgtype (cstr chan) (cstr msg) = some text) : cstr text = text := by
  have h0 : ∀ s, (0 : Byte) ∉ cstr s := zero_notMem_cstr
  apply cstr_eq_self
  cases msgtype <;> simp only [messageText, Option.some.injEq, reduceCtorEq] at h
  all_goals subst h; simp [bytes, h0]

/-- **No command injection**: for every connected state, destination and text, `privmsg` hands at
most one string to the send path and changes nothing else. The string ends with `\r\n`, has no
other line terminator and at most 512 bytes. If the formatted text has less than 1024 bytes, the
string is made of the first 510 bytes of it, line terminators left out; the text is converted
before, if a converter is set, the destination is not marked as converted and the conversion
succeeds.

**Proof sketch.** `privmsg` hands what is printed of the text to `quote` (`privmsg_snd`), and
`quote` hands out one line made of it (`quote_snd`), which has the shape (`wireLine_noInjection`)
whatever was printed. A short text is printed as it is (`printed_of_lt`). -/
theorem privmsg_noInjection (c : Irc) (hc : c.status = .connected) (dest : IrcMsginfo)
    (msg : Bytes) :
    ∃ handed : List (Bytes × ℤ), (c.privmsg dest msg).2 =
        { c with outgoing := c.outgoing ++ handed } ∧ handed.length ≤ 1 ∧
      ∀ e ∈ handed, ∃ text body,
        messageText dest.msgtype (cstr dest.chan) (cstr msg) = some text ∧
        (text.length < 1024 →
          body = ((c.sentText dest text).filter fun x => x ≠ LF ∧ x ≠ CR).take 510) ∧
        e = (body ++ [CR, LF], dest.priority) ∧
        LF ∉ body ∧ CR ∉ body ∧ e.1.length ≤ 512 := by
  have hnone : c = { c with outgoing := c.outgoing ++ [] } := by rw [List.append_nil]
  rw [privmsg_snd hc]
  rcases ht : messageText dest.msgtype (cstr dest.chan) (cstr msg) with _ | text
  · exact ⟨[], hnone, Nat.zero_le 1, by simp⟩
  · by_cases hsend : msg ≠ [] ∧ dest.chantype ≠ .dcc
    · dsimp only
      rw [if_pos hsend, quote_snd (by simp [hc])]
      refine ⟨_, rfl, le_rfl, ?_⟩
      intro e he
      obtain rfl := List.mem_singleton.mp he
      obtain ⟨body, hbody, -, hLF, hCR, hlen⟩ :=
        wireLine_noInjection (c.quoteSource (c.printed dest msg text) (!dest.lineConverted))
      refine ⟨text, body, rfl, fun hshort => ?_, by rw [hbody], hLF, hCR, ?_⟩
      · have hsource : c.quoteSource text (!dest.lineConverted) = c.sentText dest text := by
          rw [quoteSource, sentText]
          cases c.convM2s with
          | none => exact cstr_messageText ht
          | some convert => cases dest.lineConverted <;> simp [cstr_messageText ht]
        rw [printed_of_lt hshort, hsource] at hbody
        exact (List.append_cancel_right hbody).symm
      · rw [hbody, List.length_append]
        exact Nat.add_le_add_right hlen 2
    · dsimp only
      rw [if_neg hsend]
      exact ⟨[], hnone, Nat.zero_le 1, by simp⟩

/-- The guarantee for a text that tries to quit the server. -/
theorem privmsg_noInjection_quit :
    ∃ handed : List (Bytes × ℤ),
      ((fresh (bytes "bot")).privmsg (.init (bytes "#c") .normal .chan false)
        (bytes "a\r\nQUIT")).2 =
        { fresh (bytes "bot") with outgoing := (fresh (bytes "bot")).outgoing ++ handed } ∧
      handed.length ≤ 1 := by
  obtain ⟨handed, h1, h2, -⟩ := privmsg_noInjection (fresh (bytes "bot")) rfl
    (.init (bytes "#c") .normal .chan false) (bytes "a\r\nQUIT")
  exact ⟨handed, h1, h2⟩

/-- A converter is set, and the string handed out is not the converted one, because the
destination is marked as converted. -/
theorem privmsg_convertedDest_not_converted :
    ∃ (c : Irc) (convert : Bytes → Option Bytes) (dest : IrcMsginfo) (msg text : Bytes),
      c.status = .connected ∧ c.convM2s = some convert ∧
      messageText dest.msgtype dest.chan msg = some text ∧
      (c.privmsg dest msg).2.outgoing = [(text ++ [CR, LF], dest.priority)] ∧
      convert text ≠ some text ∧
      ∀ converted, convert text = some converted →
        (c.privmsg dest msg).2.outgoing ≠ [(wireLine (cstr converted), dest.priority)] := by
  refine ⟨{ fresh (bytes "bot") with convM2s := some fun s => some (s.map (· + 1)) },
    fun s => some (s.map (· + 1)), .init (bytes "#c") .normal .chan true, bytes "a",
    bytes "PRIVMSG #c :a", rfl, rfl, by decide, by decide, by decide, ?_⟩
  rintro converted h
  obtain rfl := Option.some.inj h
  decide

end Irc

end Meowbot
