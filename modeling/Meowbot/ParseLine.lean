import Meowbot.IrcString

set_option relaxedAutoImplicit false
set_option autoImplicit false

/-!
# Taking protocol lines apart (`irc::parse_irc_line`)

A line is `:prefix command param … :trailing`. The parser collects the bytes of a token in a
buffer of `IRC_MAX_LINE_SIZE` bytes and commits the buffer to the prefix, the command or the
parameters when a space or the end of the line is met. A colon after a space starts the trailing
parameter, which extends to the end of the line, but only once the command has been read. A token
that fills the buffer is committed there, and the byte that did not fit is dropped.

## Main definitions

* `Meowbot.parseIrcLine` — the parser, `none` when no command was found.
* `Meowbot.Parser`, `Meowbot.parseLoop` — its state and its loop.

## Main results

* `Meowbot.parseLoop_token` — a token that fits is collected as it is.
* `Meowbot.parseIrcLine_message` — the parts of a line with a prefix, one parameter and a trailing
  parameter.
* `Meowbot.parseIrcLine_weight` — the parameters together are no longer than the line.
* `Meowbot.parseIrcLine_zero_notMem` — the parameters contain no NUL.
* `Meowbot.parseIrcLine_ne_nil` — all parameters but the last are nonempty.
-/

namespace Meowbot

/-- `IRC_MAX_LINE_SIZE`. -/
def ircMaxLineSize : ℕ := 510

/-- The states `STATE_PREFIX`, `STATE_CMD` and `STATE_PARAM`. -/
inductive ParseState where
  | pfx | cmd | param
  deriving DecidableEq

/-- The variables of the parser, between two bytes of the line. The position in the buffer is the
length of what is in it. -/
structure Parser where
  state : ParseState
  /-- The first `pos` bytes of `buf`. -/
  buf : Bytes
  isspace : Bool
  pfx : Bytes
  cmd : Bytes
  params : List Bytes
  deriving DecidableEq

/-- `COMMIT_BUFFER`. -/
def Parser.commitBuffer (p : Parser) : Parser :=
  if p.buf = [] then p
  else match p.state with
    | .param => { p with params := p.params ++ [p.buf], buf := [] }
    | .cmd => { p with cmd := ircStrupper p.buf, state := .param, buf := [] }
    | .pfx => { p with pfx := p.buf, state := .cmd, buf := [] }

/-- The loop of the parser, over the bytes of a C string. -/
def parseLoop (p : Parser) : Bytes → Parser
  | [] => p.commitBuffer
  | c :: cs =>
    if c = ' ' then parseLoop ({ p with isspace := true } : Parser).commitBuffer cs
    else if c = ':' ∧ p.isspace ∧ p.state = .param then { p with params := p.params ++ [cs] }
    else if ircMaxLineSize - 1 ≤ p.buf.length then parseLoop p.commitBuffer cs
    else parseLoop { p with buf := p.buf ++ [c], isspace := false } cs

/-- The parser before the first byte of a prefix or a command. -/
def Parser.init (state : ParseState) : Parser :=
  { state, buf := [], isspace := false, pfx := [], cmd := [], params := [] }

/-- The outputs of `parse_irc_line`. -/
structure ParsedLine where
  /-- `prefix`. -/
  ident : Bytes
  cmd : Bytes
  params : List Bytes
  deriving DecidableEq

/-- The parser run on the C string of a line. -/
def parseRun (line : Bytes) : Parser :=
  match cstr line with
  | [] => parseLoop (.init .cmd) []
  | c :: cs =>
    if c = ':' then parseLoop (.init .pfx) cs else parseLoop (.init .cmd) (c :: cs)

/-- `irc::parse_irc_line`, with `none` for the result `-1`. -/
def parseIrcLine (line : Bytes) : Option ParsedLine :=
  let p := parseRun line
  if p.state = .param then some { ident := p.pfx, cmd := p.cmd, params := p.params } else none

/-! ## The parts of a line -/

/-- A space commits the buffer. -/
lemma parseLoop_space (p : Parser) (rest : Bytes) :
    parseLoop p ((' ' : Byte) :: rest) =
      parseLoop ({ p with isspace := true } : Parser).commitBuffer rest := rfl

/-- Bytes inside a token are collected as long as they fit. -/
lemma parseLoop_collect {p : Parser} (hspace : p.isspace = false) {tok : Bytes}
    (htok : (' ' : Byte) ∉ tok) (hfit : p.buf.length + tok.length < ircMaxLineSize)
    (rest : Bytes) :
    parseLoop p (tok ++ rest) = parseLoop { p with buf := p.buf ++ tok } rest := by
  induction tok generalizing p with
  | nil => simp
  | cons c cs ih =>
    have hc : c ≠ (' ' : Byte) := fun h => htok (by simp [h])
    have hcs : (' ' : Byte) ∉ cs := fun h => htok (List.mem_cons_of_mem _ h)
    rw [List.length_cons] at hfit
    have hroom : ¬ ircMaxLineSize - 1 ≤ p.buf.length := by omega
    rw [List.cons_append, parseLoop, if_neg hc, if_neg (by simp [hspace]), if_neg hroom]
    rw [ih (p := { p with buf := p.buf ++ [c], isspace := false }) rfl hcs (by simp; omega)]
    simp [hspace]

/-- **A token that fits** is collected as it is, if it does not start like a trailing
parameter. -/
lemma parseLoop_token {p : Parser} (hbuf : p.buf = []) {tok : Bytes} (hne : tok ≠ [])
    (htok : (' ' : Byte) ∉ tok) (hfit : tok.length < ircMaxLineSize)
    (hcolon : tok.head? = some (':' : Byte) → ¬ (p.isspace ∧ p.state = .param)) (rest : Bytes) :
    parseLoop p (tok ++ rest) = parseLoop { p with buf := tok, isspace := false } rest := by
  obtain ⟨c, cs, rfl⟩ := List.exists_cons_of_ne_nil hne
  have hc : c ≠ (' ' : Byte) := fun h => htok (by simp [h])
  have hcs : (' ' : Byte) ∉ cs := fun h => htok (List.mem_cons_of_mem _ h)
  have hnot : ¬ (c = (':' : Byte) ∧ p.isspace ∧ p.state = .param) := by
    rintro ⟨rfl, h⟩
    exact hcolon rfl h
  rw [List.length_cons] at hfit
  have hroom : ¬ ircMaxLineSize - 1 ≤ p.buf.length := by
    rw [hbuf]
    decide
  rw [List.cons_append, parseLoop, if_neg hc, if_neg hnot, if_neg hroom,
    parseLoop_collect rfl hcs (by simp [hbuf]; omega)]
  simp [hbuf]

/-- The trailing parameter takes the rest of the line. -/
lemma parseLoop_trailing {p : Parser} (hspace : p.isspace = true) (hstate : p.state = .param)
    (text : Bytes) :
    parseLoop p ((':' : Byte) :: text) = { p with params := p.params ++ [text] } := by
  rw [parseLoop, if_neg (by decide), if_pos ⟨rfl, hspace, hstate⟩]

/-- **The parts of a message line**: prefix, command, one parameter and a trailing parameter.

**Proof sketch.** The loop collects the prefix up to its space, then the command, then the
parameter, and takes all that follows the colon for the last one. None of the words holds a space or
is too long. -/
lemma parseIrcLine_message {pfx cmd chan text : Bytes} (hpfx : pfx ≠ [])
    (hpfx' : (' ' : Byte) ∉ pfx) (hpfxLen : pfx.length < ircMaxLineSize) (hcmd : cmd ≠ [])
    (hcmd' : (' ' : Byte) ∉ cmd) (hcmdLen : cmd.length < ircMaxLineSize) (hchan : chan ≠ [])
    (hchan' : (' ' : Byte) ∉ chan) (hchanLen : chan.length < ircMaxLineSize)
    (hcolon : chan.head? ≠ some (':' : Byte))
    (hnul : 0 ∉ pfx ∧ 0 ∉ cmd ∧ 0 ∉ chan ∧ 0 ∉ text) :
    parseIrcLine ((':' : Byte) :: (pfx ++ (' ' : Byte) :: (cmd ++ (' ' : Byte) ::
      (chan ++ (' ' : Byte) :: (':' : Byte) :: text)))) =
      some { ident := pfx, cmd := ircStrupper cmd, params := [chan, text] } := by
  obtain ⟨h1, h2, h3, h4⟩ := hnul
  have hcstr : cstr ((':' : Byte) :: (pfx ++ (' ' : Byte) :: (cmd ++ (' ' : Byte) ::
      (chan ++ (' ' : Byte) :: (':' : Byte) :: text)))) = (':' : Byte) :: (pfx ++ (' ' : Byte) ::
      (cmd ++ (' ' : Byte) :: (chan ++ (' ' : Byte) :: (':' : Byte) :: text))) := by
    apply cstr_eq_self
    simp [h1, h2, h3, h4]
  have hrun : parseRun ((':' : Byte) :: (pfx ++ (' ' : Byte) :: (cmd ++ (' ' : Byte) ::
      (chan ++ (' ' : Byte) :: (':' : Byte) :: text)))) =
      { state := .param, buf := [], isspace := true, pfx, cmd := ircStrupper cmd,
        params := [chan, text] } := by
    rw [parseRun, hcstr]
    simp only [if_true]
    rw [parseLoop_token rfl hpfx hpfx' hpfxLen (by simp [Parser.init]), parseLoop_space]
    simp only [Parser.init, Parser.commitBuffer, if_neg hpfx]
    rw [parseLoop_token rfl hcmd hcmd' hcmdLen (by simp), parseLoop_space]
    simp only [Parser.commitBuffer, if_neg hcmd]
    rw [parseLoop_token rfl hchan hchan' hchanLen (fun h => absurd h hcolon), parseLoop_space]
    simp only [Parser.commitBuffer, if_neg hchan]
    rw [parseLoop_trailing rfl rfl]
    simp
  simp only [parseIrcLine, hrun, if_true]

/-! ## The size of the parts -/

/-- The number of bytes of the parameters, an empty one counting as one byte. -/
def paramWeight (params : List Bytes) : ℕ := (params.map fun p => max 1 p.length).sum

/-- Committing the buffer moves its bytes. -/
lemma paramWeight_commitBuffer (p : Parser) :
    paramWeight p.commitBuffer.params + p.commitBuffer.buf.length ≤
      paramWeight p.params + p.buf.length := by
  by_cases hb : p.buf = []
  · simp [Parser.commitBuffer, hb]
  · have := List.length_pos_iff.mpr hb
    cases hs : p.state with
    | param => simp [Parser.commitBuffer, hb, hs, paramWeight]; omega
    | cmd => simp [Parser.commitBuffer, hb, hs]
    | pfx => simp [Parser.commitBuffer, hb, hs]

/-- The loop adds to the parameters no more bytes than it reads.

**Proof sketch.** By induction on the bytes. A byte goes to the buffer or is skipped, and the buffer
goes to the parameters with what is in it. -/
lemma paramWeight_parseLoop (p : Parser) (s : Bytes) :
    paramWeight (parseLoop p s).params ≤ paramWeight p.params + p.buf.length + s.length := by
  induction s generalizing p with
  | nil =>
    have := paramWeight_commitBuffer p
    rw [parseLoop]
    omega
  | cons c cs ih =>
    rw [parseLoop, List.length_cons]
    split_ifs with h1 h2 h3
    · have := ih ({ p with isspace := true } : Parser).commitBuffer
      have := paramWeight_commitBuffer { p with isspace := true }
      dsimp only at this
      omega
    · simp [paramWeight]
      omega
    · have := ih p.commitBuffer
      have := paramWeight_commitBuffer p
      omega
    · have := ih { p with buf := p.buf ++ [c], isspace := false }
      simp only [List.length_append, List.length_singleton] at this
      omega

/-- **The parameters together are no longer than the line.**

**Proof sketch.** The loop starts with nothing in its buffer, and reads the line or what follows its
colon (`paramWeight_parseLoop`); the C string of the line is not longer than the line. -/
lemma parseIrcLine_weight {line : Bytes} {l : ParsedLine} (h : parseIrcLine line = some l) :
    paramWeight l.params ≤ line.length := by
  have hlen : (cstr line).length ≤ line.length := (List.takeWhile_prefix _).length_le
  have hrun : paramWeight (parseRun line).params ≤ line.length := by
    rw [parseRun]
    rcases hc : cstr line with _ | ⟨c, cs⟩
    · simp [parseLoop, Parser.commitBuffer, Parser.init, paramWeight]
    · rw [hc, List.length_cons] at hlen
      dsimp only
      split_ifs
      · have := paramWeight_parseLoop (.init .pfx) cs
        simp [Parser.init, paramWeight] at this ⊢
        omega
      · have := paramWeight_parseLoop (.init .cmd) (c :: cs)
        simp [Parser.init, paramWeight] at this ⊢
        omega
  simp only [parseIrcLine] at h
  split_ifs at h
  obtain rfl := Option.some.inj h
  exact hrun

/-- What holds of every byte of the line holds of every byte of the parameters.

**Proof sketch.** By induction on the bytes: each of them goes to the buffer, if anywhere, and the
buffer goes to the parameters. -/
lemma parseLoop_bytes {p : Parser} {s : Bytes} {P : Byte → Prop}
    (hparams : ∀ q ∈ p.params, ∀ c ∈ q, P c) (hbuf : ∀ c ∈ p.buf, P c) (hs : ∀ c ∈ s, P c) :
    ∀ q ∈ (parseLoop p s).params, ∀ c ∈ q, P c := by
  have hcommit : ∀ p : Parser, (∀ q ∈ p.params, ∀ c ∈ q, P c) → (∀ c ∈ p.buf, P c) →
      (∀ q ∈ p.commitBuffer.params, ∀ c ∈ q, P c) ∧ ∀ c ∈ p.commitBuffer.buf, P c := by
    intro p hparams hbuf
    by_cases hb : p.buf = []
    · rw [Parser.commitBuffer, if_pos hb]
      exact ⟨hparams, hbuf⟩
    · cases hstate : p.state <;> simp only [Parser.commitBuffer, if_neg hb, hstate]
      · exact ⟨hparams, fun c hc => absurd hc List.not_mem_nil⟩
      · exact ⟨hparams, fun c hc => absurd hc List.not_mem_nil⟩
      · refine ⟨fun q hq => ?_, fun c hc => absurd hc List.not_mem_nil⟩
        rcases List.mem_append.mp hq with hq | hq
        · exact hparams q hq
        · obtain rfl := List.mem_singleton.mp hq
          exact hbuf
  induction s generalizing p with
  | nil => exact (hcommit p hparams hbuf).1
  | cons c cs ih =>
    have hcs : ∀ c ∈ cs, P c := fun d hd => hs d (List.mem_cons_of_mem _ hd)
    rw [parseLoop]
    split_ifs with h1 h2 h3
    · obtain ⟨hp, hb⟩ := hcommit { p with isspace := true } hparams hbuf
      exact ih hp hb hcs
    · intro q hq
      rcases List.mem_append.mp hq with hq | hq
      · exact hparams q hq
      · obtain rfl := List.mem_singleton.mp hq
        exact hcs
    · obtain ⟨hp, hb⟩ := hcommit p hparams hbuf
      exact ih hp hb hcs
    · refine ih hparams (fun d hd => ?_) hcs
      rcases List.mem_append.mp hd with hd | hd
      · exact hbuf d hd
      · obtain rfl := List.mem_singleton.mp hd
        exact hs d List.mem_cons_self

/-- What holds of every byte of the line holds of every byte of the parsed parameters.

**Proof sketch.** The loop starts with nothing and reads bytes of the line only (`parseLoop_bytes`).
-/
lemma parseIrcLine_bytes {line : Bytes} {l : ParsedLine} (h : parseIrcLine line = some l)
    {P : Byte → Prop} (hline : ∀ c ∈ cstr line, P c) : ∀ p ∈ l.params, ∀ c ∈ p, P c := by
  have hinit : ∀ state s, (∀ c ∈ s, P c) →
      ∀ q ∈ (parseLoop (.init state) s).params, ∀ c ∈ q, P c := by
    intro state s hs
    exact parseLoop_bytes (fun q hq => absurd hq List.not_mem_nil)
      (fun c hc => absurd hc List.not_mem_nil) hs
  have hrun : ∀ q ∈ (parseRun line).params, ∀ c ∈ q, P c := by
    rw [parseRun]
    rcases hc : cstr line with _ | ⟨c, cs⟩
    · exact hinit _ [] fun c hc => absurd hc List.not_mem_nil
    · rw [hc] at hline
      dsimp only
      split_ifs
      · exact hinit _ cs fun d hd => hline d (List.mem_cons_of_mem _ hd)
      · exact hinit _ (c :: cs) hline
  simp only [parseIrcLine] at h
  split_ifs at h
  obtain rfl := Option.some.inj h
  exact hrun

/-- **The parameters contain no NUL**, since the parser stops at the first one. -/
lemma parseIrcLine_zero_notMem {line : Bytes} {l : ParsedLine} (h : parseIrcLine line = some l) :
    ∀ p ∈ l.params, 0 ∉ p := by
  have hne := parseIrcLine_bytes (P := (· ≠ 0)) h
    fun c hc hzero => zero_notMem_cstr line (hzero ▸ hc)
  exact fun p hp hzero => hne p hp 0 hzero rfl

/-- Committing the buffer keeps the parameters nonempty. -/
lemma Parser.params_ne_nil_commitBuffer {p : Parser} (hp : ∀ q ∈ p.params, q ≠ []) :
    ∀ q ∈ p.commitBuffer.params, q ≠ [] := by
  by_cases hb : p.buf = []
  · rw [commitBuffer, if_pos hb]
    exact hp
  · cases hstate : p.state <;> simp only [commitBuffer, if_neg hb, hstate]
    · exact hp
    · exact hp
    · intro q hq
      rcases List.mem_append.mp hq with hq | hq
      · exact hp q hq
      · rwa [List.mem_singleton.mp hq]

/-- Only the last parameter may be empty, after the loop. -/
lemma parseLoop_ne_nil {p : Parser} (hp : ∀ q ∈ p.params, q ≠ []) (s : Bytes) :
    ∀ q ∈ (parseLoop p s).params.dropLast, q ≠ [] := by
  induction s generalizing p with
  | nil =>
    intro q hq
    exact Parser.params_ne_nil_commitBuffer hp q (List.dropLast_subset _ hq)
  | cons c cs ih =>
    rw [parseLoop]
    split_ifs
    · exact ih (Parser.params_ne_nil_commitBuffer (p := { p with isspace := true }) hp)
    · rw [List.dropLast_concat]
      exact hp
    · exact ih (Parser.params_ne_nil_commitBuffer hp)
    · exact ih (p := { p with buf := p.buf ++ [c], isspace := false }) hp

/-- **Only the last parameter may be empty**, since only a trailing one can be. -/
lemma parseIrcLine_ne_nil {line : Bytes} {l : ParsedLine} (h : parseIrcLine line = some l) :
    ∀ q ∈ l.params.dropLast, q ≠ [] := by
  have hrun : ∀ q ∈ (parseRun line).params.dropLast, q ≠ [] := by
    have hinit : ∀ state s, ∀ q ∈ (parseLoop (.init state) s).params.dropLast, q ≠ [] :=
      fun state s => parseLoop_ne_nil (fun q hq => absurd hq List.not_mem_nil) s
    rw [parseRun]
    rcases cstr line with _ | ⟨c, cs⟩
    · exact hinit _ []
    · dsimp only
      split_ifs
      · exact hinit _ cs
      · exact hinit _ (c :: cs)
  simp only [parseIrcLine] at h
  split_ifs at h
  obtain rfl := Option.some.inj h
  exact hrun

/-- There are no more parameters than bytes. -/
lemma length_le_paramWeight (params : List Bytes) : params.length ≤ paramWeight params := by
  induction params with
  | nil => simp [paramWeight]
  | cons p ps ih =>
    simp only [paramWeight, List.map_cons, List.sum_cons, List.length_cons] at ih ⊢
    omega

/-- No parameter is longer than all together. -/
lemma length_le_paramWeight_of_mem {params : List Bytes} {p : Bytes} (h : p ∈ params) :
    p.length ≤ paramWeight params := by
  induction params with
  | nil => exact absurd h List.not_mem_nil
  | cons q ps ih =>
    simp only [paramWeight, List.map_cons, List.sum_cons] at ih ⊢
    rcases List.mem_cons.mp h with rfl | hmem
    · omega
    · have := ih hmem
      omega

end Meowbot
