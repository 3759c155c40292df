import Meowbot.ParseLine

set_option relaxedAutoImplicit false
set_option autoImplicit false

/-!
# Writing protocol lines

What a server or a client writes is `:prefix command param … :trailing`, with at least one space
wherever there is one. The types below hold the parts of such lines and nothing else: the parts are
nonempty words that fit in the buffer of the parser, and only the trailing parameter is free.

## Main definitions

* `Meowbot.Token`, `Meowbot.Middle`, `Meowbot.CommandToken` — the words of a line.
* `Meowbot.LineParts`, `LineParts.render` — the parts of a line, and the line.

## Main results

* `Meowbot.parseIrcLine_render` — the parser finds the parts that a line was written from.
-/

namespace Meowbot

/-! ## The parts of a line -/

/-- A word of a line that fits in the buffer of the parser. -/
structure Token where
  text : Bytes
  ne_nil : text ≠ []
  space_notMem : (' ' : Byte) ∉ text
  zero_notMem : 0 ∉ text
  length_lt : text.length < ircMaxLineSize

/-- A parameter in the middle of a line. -/
structure Middle extends Token where
  colon : text.head? ≠ some (':' : Byte)

/-- A command in upper case. -/
structure CommandToken extends Middle where
  upper : ircStrupper text = text

/-- A parameter at the end of a line. -/
structure Trailing where
  text : Bytes
  zero_notMem : 0 ∉ text

/-- The parts of a line. The numbers say how many spaces beyond the first stand behind the prefix
and in front of each parameter. -/
structure LineParts where
  pfx : Option (Token × ℕ)
  cmd : CommandToken
  middles : List (ℕ × Middle)
  trailing : Option (ℕ × Trailing)

/-- One space and so many more. -/
def spaces (n : ℕ) : Bytes := List.replicate (n + 1) (' ' : Byte)

namespace LineParts

/-- The prefix of a line, with its colon. -/
def pfxText (l : LineParts) : Bytes :=
  match l.pfx with
  | some (pfx, n) => (':' : Byte) :: (pfx.text ++ spaces n)
  | none => []

/-- The parameters of a line, from some middle parameter on. -/
def paramText (trailing : Option (ℕ × Trailing)) : List (ℕ × Middle) → Bytes
  | [] => match trailing with
    | some (n, t) => spaces n ++ (':' : Byte) :: t.text
    | none => []
  | (n, t) :: middles => spaces n ++ (t.text ++ paramText trailing middles)

/-- The line. -/
def render (l : LineParts) : Bytes := l.pfxText ++ (l.cmd.text ++ paramText l.trailing l.middles)

/-- The parameters, the trailing one being the last. -/
def params (l : LineParts) : List Bytes :=
  l.middles.map (fun m => m.2.text) ++ l.trailing.toList.map fun t => t.2.text

/-- What the parser should return. -/
def parsed (l : LineParts) : ParsedLine :=
  { ident := (l.pfx.map fun p => p.1.text).getD [], cmd := l.cmd.text, params := l.params }

end LineParts

/-! ## Reading the parts -/

lemma zero_notMem_spaces (n : ℕ) : 0 ∉ spaces n := by
  simp [spaces]

/-- Committing the buffer empties it. -/
@[simp] lemma Parser.buf_commitBuffer (p : Parser) : p.commitBuffer.buf = [] := by
  unfold commitBuffer
  split_ifs with h
  · exact h
  · cases p.state <;> rfl

/-- An empty buffer is not committed. -/
lemma Parser.commitBuffer_of_nil {p : Parser} (h : p.buf = []) : p.commitBuffer = p := by
  rw [commitBuffer, if_pos h]

@[simp] lemma Parser.isspace_commitBuffer (p : Parser) : p.commitBuffer.isspace = p.isspace := by
  unfold commitBuffer
  split_ifs
  · rfl
  · cases p.state <;> rfl

/-- A parameter is committed behind the others. -/
lemma Parser.commitBuffer_param {p : Parser} (hbuf : p.buf ≠ []) (hstate : p.state = .param) :
    p.commitBuffer = { p with params := p.params ++ [p.buf], buf := [] } := by
  rw [commitBuffer, if_neg hbuf, hstate]

/-- **Several spaces** are read like one. -/
lemma parseLoop_spaces (p : Parser) (n : ℕ) (rest : Bytes) :
    parseLoop p (spaces n ++ rest) =
      parseLoop ({ p with isspace := true } : Parser).commitBuffer rest := by
  induction n generalizing p with
  | zero => rfl
  | succ n ih =>
    have hcons : spaces (n + 1) ++ rest = (' ' : Byte) :: (spaces n ++ rest) := rfl
    set q := ({ p with isspace := true } : Parser).commitBuffer with hq
    have hspace : q.isspace = true := by simp [hq]
    have hsame : ({ q with isspace := true } : Parser) = q := by rw [← hspace]
    rw [hcons, parseLoop_space, ih, hsame, Parser.commitBuffer_of_nil (Parser.buf_commitBuffer _)]

/-- **The parameters** are read behind a command or a parameter that is still in the buffer.

**Proof sketch.** Induction on the middle parameters. The spaces in front of a parameter commit the
buffer, and the parameter is collected in it. -/
lemma parseLoop_paramText {p : Parser} (hbuf : p.buf ≠ []) (hstate : p.state ≠ .pfx)
    (trailing : Option (ℕ × Trailing)) (middles : List (ℕ × Middle)) :
    let q := p.commitBuffer
    let r := parseLoop p (LineParts.paramText trailing middles)
    r.state = .param ∧ r.pfx = q.pfx ∧ r.cmd = q.cmd ∧
      r.params = q.params ++ (middles.map (fun m => m.2.text) ++
        trailing.toList.map fun t => t.2.text) := by
  have hcommit : ∀ p : Parser, p.buf ≠ [] → p.state ≠ .pfx → p.commitBuffer.state = .param := by
    intro p hbuf hstate
    rw [Parser.commitBuffer, if_neg hbuf]
    cases hs : p.state <;> first | rfl | exact absurd hs hstate
  have hspaced : ∀ p : Parser, p.buf ≠ [] → p.state ≠ .pfx →
      ({ p with isspace := true } : Parser).commitBuffer =
        { p.commitBuffer with isspace := true } := by
    intro p hbuf hstate
    simp only [Parser.commitBuffer, if_neg hbuf]
    cases p.state <;> rfl
  induction middles generalizing p with
  | nil =>
    cases trailing with
    | none =>
      refine ⟨hcommit p hbuf hstate, rfl, rfl, ?_⟩
      exact (List.append_nil _).symm
    | some t =>
      obtain ⟨n, t⟩ := t
      simp only [LineParts.paramText]
      rw [parseLoop_spaces, hspaced p hbuf hstate,
        parseLoop_trailing (p := { p.commitBuffer with isspace := true }) rfl
          (hcommit p hbuf hstate)]
      exact ⟨hcommit p hbuf hstate, rfl, rfl, rfl⟩
  | cons m middles ih =>
    obtain ⟨n, t⟩ := m
    simp only [LineParts.paramText]
    rw [parseLoop_spaces, hspaced p hbuf hstate,
      parseLoop_token (by simp) t.ne_nil t.space_notMem t.length_lt fun h => absurd h t.colon]
    have hstate' := hcommit p hbuf hstate
    have hnext := Parser.commitBuffer_param
      (p := { p.commitBuffer with buf := t.text, isspace := false }) t.ne_nil hstate'
    obtain ⟨h1, h2, h3, h4⟩ := ih
      (p := { p.commitBuffer with buf := t.text, isspace := false }) t.ne_nil (by simp [hstate'])
    rw [hnext] at h2 h3 h4
    refine ⟨h1, h2, h3, h4.trans ?_⟩
    simp

namespace LineParts

/-- A line contains no NUL.

**Proof sketch.** None of the parts that the line is put together from has a NUL, and neither have
the spaces and the colon between them. -/
lemma zero_notMem_render (l : LineParts) : 0 ∉ l.render := by
  have hpfx : 0 ∉ l.pfxText := by
    unfold pfxText
    split
    · rename_i pfx n _
      simp [pfx.zero_notMem, zero_notMem_spaces]
    · exact List.not_mem_nil
  have hparams : ∀ middles, 0 ∉ paramText l.trailing middles := by
    intro middles
    induction middles with
    | nil =>
      simp only [paramText]
      split
      · rename_i n t _
        simp [t.zero_notMem, zero_notMem_spaces]
      · exact List.not_mem_nil
    | cons m middles ih => simp [paramText, m.2.zero_notMem, zero_notMem_spaces, ih]
  simp [render, hpfx, l.cmd.zero_notMem, hparams]

end LineParts

/-- **Parsing inverts writing**: the parser returns exactly the prefix, the command and the
parameters that a line was written from.

**Proof sketch.** The command is one token without a colon in front, and behind it the parameters
are read one by one (`parseLoop_paramText`). With a prefix the parser first reads this token, up to
the space, and goes on as without one. -/
theorem parseIrcLine_render (l : LineParts) : parseIrcLine l.render = some l.parsed := by
  have hbody : ∀ p : Parser, p.buf = [] → p.state = .cmd →
      let r := parseLoop p (l.cmd.text ++ LineParts.paramText l.trailing l.middles)
      r.state = .param ∧ r.pfx = p.pfx ∧ r.cmd = l.cmd.text ∧ r.params = p.params ++ l.params := by
    rintro ⟨_, _, isspace, pfx, cmd, params⟩ rfl rfl
    rw [parseLoop_token rfl l.cmd.ne_nil l.cmd.space_notMem l.cmd.length_lt
      fun h => absurd h l.cmd.colon]
    have hparams := parseLoop_paramText
      (p := { state := .cmd, buf := l.cmd.text, isspace := false, pfx, cmd, params })
      l.cmd.ne_nil (by simp) l.trailing l.middles
    simpa [Parser.commitBuffer, l.cmd.ne_nil, l.cmd.upper, LineParts.params] using hparams
  have hcstr : cstr l.render = l.render := cstr_eq_self l.zero_notMem_render
  have hrun : (parseRun l.render).state = .param ∧ (parseRun l.render).pfx = l.parsed.ident ∧
      (parseRun l.render).cmd = l.cmd.text ∧ (parseRun l.render).params = l.params := by
    rw [parseRun, hcstr, LineParts.render, LineParts.pfxText, LineParts.parsed]
    rcases hpfx : l.pfx with _ | ⟨pfx, n⟩
    · obtain ⟨c, cs, hcmd⟩ := List.exists_cons_of_ne_nil l.cmd.ne_nil
      have hc : c ≠ (':' : Byte) := fun h => l.cmd.colon (by simp [hcmd, h])
      have hbody' := hbody (.init .cmd) rfl rfl
      rw [hcmd] at hbody' ⊢
      simp only [List.nil_append, List.cons_append, if_neg hc]
      exact hbody'
    · have hcons : ∀ s : Bytes, (':' : Byte) :: (pfx.text ++ spaces n) ++ s =
          (':' : Byte) :: (pfx.text ++ (spaces n ++ s)) := by simp
      rw [hcons]
      simp only [if_true]
      rw [parseLoop_token rfl pfx.ne_nil pfx.space_notMem pfx.length_lt (by simp [Parser.init]),
        parseLoop_spaces]
      simpa [Parser.commitBuffer, pfx.ne_nil, Parser.init] using
        hbody ({ Parser.init .pfx with buf := pfx.text, isspace := true } : Parser).commitBuffer
          (by simp) (by simp [Parser.commitBuffer, pfx.ne_nil, Parser.init])
  obtain ⟨hstate, hpfx, hcmd, hparams⟩ := hrun
  simp only [parseIrcLine, hstate, if_true, hpfx, hcmd, hparams]
  rfl

end Meowbot
