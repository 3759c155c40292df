import Meowbot.ParseLine

set_option relaxedAutoImplicit false
set_option autoImplicit false

/-!
# The tokens of a protocol line

A line consists of runs of bytes between spaces. The first one is the prefix if the line starts with
a colon, the next one is the command, and the others are parameters, up to a run with a colon in
front, which starts the trailing parameter: that is the rest of the line. The parser delivers these
runs as they are, if they fit in its buffer. A run that does not is cut when the buffer is full; the
byte at hand is dropped, and the rest of the run is taken for the token that comes next.

## Main definitions

* `Meowbot.LineTokens` — the runs of a line and its trailing parameter; `Meowbot.lineTokens`.
* `Meowbot.ParsedLine.ofTokens` — the runs as prefix, command and parameters.
* `Meowbot.parseOutputs` — what the parser delivers, whatever its result is.

## Main results

* `Meowbot.splitRuns_spec` — the runs and the trailing parameter are all there is in a line.
* `Meowbot.parseOutputs_iff` — the parser delivers the tokens exactly when every run fits.
-/

namespace Meowbot

/-! ## The tokens of a line -/

/-- The runs of a line in front of its trailing parameter, and that parameter. -/
structure LineTokens where
  runs : List Bytes
  trailing : Option Bytes
  deriving DecidableEq

/-- The tokens among the pieces between the spaces of a line, when so many runs have to come before
a trailing parameter. -/
def splitRuns : ℕ → List Bytes → LineTokens
  | _, [] => ⟨[], none⟩
  | n, [] :: pieces => splitRuns n pieces
  | 0, (c :: cs) :: pieces =>
    if c = ':' then ⟨[], some ([(' ' : Byte)].intercalate (cs :: pieces))⟩
    else
      let r := splitRuns 0 pieces
      ⟨(c :: cs) :: r.runs, r.trailing⟩
  | n + 1, (c :: cs) :: pieces =>
    let r := splitRuns n pieces
    ⟨(c :: cs) :: r.runs, r.trailing⟩

/-- A line has a prefix. -/
def hasPrefix (line : Bytes) : Bool := line.head? = some (':' : Byte)

/-- The tokens of a line, without the colon of its prefix. -/
def lineTokens (line : Bytes) : LineTokens :=
  if hasPrefix line then splitRuns 2 (line.tail.splitOn (' ' : Byte))
  else splitRuns 1 (line.splitOn (' ' : Byte))

/-- The tokens in their roles, the command in upper case. With a prefix the first token is the
identity, and a line that ends before its command has none. -/
def ParsedLine.ofTokens (withPrefix : Bool) (t : LineTokens) : ParsedLine :=
  match withPrefix, t.runs with
  | _, [] => { ident := [], cmd := [], params := [] }
  | true, [pfx] => { ident := pfx, cmd := [], params := [] }
  | true, pfx :: cmd :: params =>
    { ident := pfx, cmd := ircStrupper cmd, params := params ++ t.trailing.toList }
  | false, cmd :: params =>
    { ident := [], cmd := ircStrupper cmd, params := params ++ t.trailing.toList }

/-- **Nothing is missing** from the tokens: the runs are the pieces that are not empty, up to the
one at which the trailing parameter starts.

**Proof sketch.** By induction on the pieces. An empty piece is no run; the first piece with a colon
in front, once there are enough runs, makes the rest the trailing parameter. -/
lemma splitRuns_spec (n : ℕ) (pieces : List Bytes) :
    ∃ front back, pieces = front ++ back ∧ (splitRuns n pieces).runs = front.filter (· ≠ []) ∧
      (back = [] ∧ (splitRuns n pieces).trailing = none ∨
        ∃ cs rest, back = ((':' : Byte) :: cs) :: rest ∧ n ≤ (splitRuns n pieces).runs.length ∧
          (splitRuns n pieces).trailing = some ([(' ' : Byte)].intercalate (cs :: rest))) := by
  induction pieces generalizing n with
  | nil => exact ⟨[], [], rfl, rfl, .inl ⟨rfl, rfl⟩⟩
  | cons p pieces ih =>
    rcases p with _ | ⟨c, cs⟩
    · obtain ⟨front, back, hpieces, hruns, htrailing⟩ := ih n
      refine ⟨[] :: front, back, by rw [hpieces]; rfl, ?_, htrailing⟩
      rw [splitRuns, hruns]
      rfl
    · rcases n with _ | n
      · by_cases hc : c = (':' : Byte)
        · subst hc
          exact ⟨[], _, rfl, rfl, .inr ⟨cs, pieces, rfl, Nat.zero_le _, rfl⟩⟩
        · obtain ⟨front, back, hpieces, hruns, htrailing⟩ := ih 0
          refine ⟨(c :: cs) :: front, back, by rw [hpieces]; rfl, ?_, ?_⟩
          · simp only [splitRuns, if_neg hc, hruns]
            rfl
          · simp only [splitRuns, if_neg hc]
            exact htrailing.imp_right fun ⟨cs, rest, h, _, h'⟩ => ⟨cs, rest, h, Nat.zero_le _, h'⟩
      · obtain ⟨front, back, hpieces, hruns, htrailing⟩ := ih n
        refine ⟨(c :: cs) :: front, back, by rw [hpieces]; rfl, ?_, ?_⟩
        · simp only [splitRuns, hruns]
          rfl
        · simp only [splitRuns, List.length_cons]
          exact htrailing.imp_right fun ⟨cs, rest, h, hn, h'⟩ =>
            ⟨cs, rest, h, Nat.succ_le_succ hn, h'⟩

/-- A trailing parameter comes after the runs that are needed. -/
lemma needed_le_runs {n : ℕ} {pieces : List Bytes} (h : (splitRuns n pieces).trailing.isSome) :
    n ≤ (splitRuns n pieces).runs.length := by
  obtain ⟨front, back, -, -, ⟨-, hnone⟩ | ⟨cs, rest, -, hn, -⟩⟩ := splitRuns_spec n pieces
  · rw [hnone] at h
    cases h
  · exact hn

/-- A byte of a piece between separators is a byte of the string.

**Proof sketch.** By induction on the string: a separator starts a new piece, and any other byte
goes to the piece in front. -/
lemma mem_of_mem_splitOn {a c : Byte} {s p : Bytes} (h : p ∈ s.splitOn a) (hc : c ∈ p) :
    c ∈ s := by
  induction s generalizing p with
  | nil =>
    rw [List.splitOn_nil, List.mem_singleton] at h
    rwa [h] at hc
  | cons x xs ih =>
    rw [List.splitOn_cons_eq_if_modifyHead] at h
    split_ifs at h with hx
    · rcases List.mem_cons.mp h with rfl | h
      · exact absurd hc List.not_mem_nil
      · exact List.mem_cons_of_mem _ (ih h hc)
    · rcases hxs : xs.splitOn a with _ | ⟨q, qs⟩
      · exact absurd hxs (List.splitOn_ne_nil a xs)
      · rw [hxs] at h ih
        rcases List.mem_cons.mp h with rfl | h
        · rcases List.mem_cons.mp hc with rfl | hc
          · exact List.mem_cons_self
          · exact List.mem_cons_of_mem _ (ih List.mem_cons_self hc)
        · exact List.mem_cons_of_mem _ (ih (List.mem_cons_of_mem _ h) hc)

/-- The pieces between separators contain none.

**Proof sketch.** By induction on the list: a separator begins a new piece, and any other element is
put in front of the first one. -/
lemma notMem_of_mem_splitOn {a : Byte} {s p : Bytes} (h : p ∈ s.splitOn a) : a ∉ p := by
  induction s generalizing p with
  | nil =>
    rw [List.splitOn_nil, List.mem_singleton] at h
    simp [h]
  | cons x xs ih =>
    rw [List.splitOn_cons_eq_if_modifyHead] at h
    split_ifs at h with hx
    · rcases List.mem_cons.mp h with rfl | h
      · exact List.not_mem_nil
      · exact ih h
    · rcases hxs : xs.splitOn a with _ | ⟨q, qs⟩
      · exact absurd hxs (List.splitOn_ne_nil a xs)
      · rw [hxs] at h ih
        rcases List.mem_cons.mp h with rfl | h
        · rw [List.mem_cons, not_or]
          exact ⟨fun h => hx (by simp [h]), ih List.mem_cons_self⟩
        · exact ih (List.mem_cons_of_mem _ h)

/-! ## What the parser delivers -/

/-- The outputs, as they stand in the variables. -/
def Parser.outputs (p : Parser) : ParsedLine := { ident := p.pfx, cmd := p.cmd, params := p.params }

/-- The outputs of `parse_irc_line`, also when its result is `-1`. -/
def parseOutputs (line : Bytes) : ParsedLine := (parseRun line).outputs

/-- The result of the parser is its outputs, if there is a command. -/
lemma parseIrcLine_eq_outputs {line : Bytes} {l : ParsedLine} (h : parseIrcLine line = some l) :
    parseOutputs line = l := by
  simp only [parseIrcLine] at h
  split_ifs at h
  exact Option.some.inj h

/-- The state and the outputs when a token is delivered. -/
def deliver (o : ParseState × ParsedLine) (tok : Bytes) : ParseState × ParsedLine :=
  match o.1 with
  | .param => (.param, { o.2 with params := o.2.params ++ [tok] })
  | .cmd => (.param, { o.2 with cmd := ircStrupper tok })
  | .pfx => (.cmd, { o.2 with ident := tok })

/-- The number of runs that have to come before a trailing parameter. -/
def ParseState.needed : ParseState → ℕ
  | .pfx => 2
  | .cmd => 1
  | .param => 0

/-- The outputs when some tokens are delivered. -/
def deliverAll (o : ParseState × ParsedLine) (t : LineTokens) : ParsedLine :=
  let r := (t.runs.foldl deliver o).2
  { r with params := r.params ++ t.trailing.toList }

/-- The state and the outputs of the parser. -/
def Parser.seen (p : Parser) : ParseState × ParsedLine := (p.state, p.outputs)

/-- Committing a nonempty buffer delivers it. -/
lemma Parser.seen_commitBuffer {p : Parser} (h : p.buf ≠ []) :
    p.commitBuffer.seen = deliver p.seen p.buf := by
  rw [commitBuffer, if_neg h]
  cases hs : p.state <;> simp [seen, outputs, deliver, hs]

/-- What has been delivered is not changed later on. -/
def Extends (o : ParseState × ParsedLine) (r : ParsedLine) : Prop :=
  match o.1 with
  | .pfx => True
  | .cmd => r.ident = o.2.ident
  | .param => r.ident = o.2.ident ∧ r.cmd = o.2.cmd ∧ o.2.params <+: r.params

/-- What extends a later state extends an earlier one. -/
lemma Extends.of_deliver {o : ParseState × ParsedLine} {tok : Bytes} {r : ParsedLine}
    (h : Extends (deliver o tok) r) : Extends o r := by
  obtain ⟨state, o⟩ := o
  cases state with
  | pfx => trivial
  | cmd => exact h.1
  | param =>
    obtain ⟨hident, hcmd, hparams⟩ := h
    exact ⟨hident, hcmd, (List.prefix_append _ _).trans hparams⟩

/-- Every output extends itself. -/
lemma extends_refl (state : ParseState) (o : ParsedLine) : Extends (state, o) o := by
  cases state with
  | pfx => trivial
  | cmd => rfl
  | param => exact ⟨rfl, rfl, List.prefix_rfl⟩

/-- **A token is what it is delivered as**: if two tokens without NUL can be the next one, they are
of the same length. -/
lemma Extends.length_eq {o : ParseState × ParsedLine} {tok tok' : Bytes} {r : ParsedLine}
    (hnul : 0 ∉ tok) (hnul' : 0 ∉ tok') (h : Extends (deliver o tok) r)
    (h' : Extends (deliver o tok') r) : tok.length = tok'.length := by
  obtain ⟨state, o⟩ := o
  cases state with
  | pfx =>
    have heq : tok = tok' := h.symm.trans h'
    rw [heq]
  | cmd =>
    have heq : ircStrupper tok = ircStrupper tok' := h.2.1.symm.trans h'.2.1
    simpa [ircStrupper, cstr_eq_self hnul, cstr_eq_self hnul'] using congrArg List.length heq
  | param =>
    have heq : o.params ++ [tok] = o.params ++ [tok'] :=
      List.IsPrefix.eq_of_length (List.prefix_of_prefix_length_le h.2.2 h'.2.2 (by simp)) (by simp)
    rw [List.append_cancel_left_eq, List.singleton_inj] at heq
    rw [heq]

/-- The loop does not change what has been delivered.

**Proof sketch.** By induction on the bytes that are left. Delivering the buffer adds to what has
been delivered, and the other steps of the loop do not touch it. -/
lemma extends_parseLoop (p : Parser) (s : Bytes) : Extends p.seen (parseLoop p s).outputs := by
  have hcommit : ∀ (p : Parser) (r : ParsedLine), Extends p.commitBuffer.seen r →
      Extends p.seen r := by
    intro p r h
    by_cases hb : p.buf = []
    · rwa [Parser.commitBuffer, if_pos hb] at h
    · rw [Parser.seen_commitBuffer hb] at h
      exact h.of_deliver
  induction s generalizing p with
  | nil => exact hcommit p _ (extends_refl _ _)
  | cons c cs ih =>
    rw [parseLoop]
    split_ifs with h1 h2 h3
    · exact hcommit { p with isspace := true } _ (ih _)
    · rw [Parser.seen, h2.2.2]
      exact ⟨rfl, rfl, List.prefix_append _ _⟩
    · exact hcommit p _ (ih _)
    · exact ih { p with buf := p.buf ++ [c], isspace := false }

/-- The tokens to come do not change what has been delivered.

**Proof sketch.** By induction on the runs. A run is delivered as the prefix, the command or a
further parameter, and these only ever get more; the trailing parameter comes last. -/
lemma extends_deliverAll {o : ParseState × ParsedLine} {t : LineTokens}
    (h : t.trailing.isSome → o.1.needed ≤ t.runs.length) : Extends o (deliverAll o t) := by
  obtain ⟨runs, trailing⟩ := t
  induction runs generalizing o with
  | nil =>
    obtain ⟨state, o⟩ := o
    cases trailing with
    | none =>
      simp only [deliverAll, List.foldl_nil, Option.toList_none, List.append_nil]
      exact extends_refl _ _
    | some text =>
      cases state with
      | pfx => exact absurd (h rfl) (Nat.not_succ_le_zero _)
      | cmd => exact absurd (h rfl) (Nat.not_succ_le_zero _)
      | param => exact ⟨rfl, rfl, List.prefix_append _ _⟩
  | cons tok runs ih =>
    refine (ih (o := deliver o tok) fun hsome => ?_).of_deliver
    have hn := h hsome
    rw [List.length_cons] at hn
    obtain ⟨state, o⟩ := o
    cases state <;> simp only [ParseState.needed, deliver] at hn ⊢ <;> omega

/-! ## Run by run -/

/-- Pieces put together, the first one in front. -/
lemma intercalate_cons (q : Bytes) (pieces : List Bytes) :
    [(' ' : Byte)].intercalate (q :: pieces) =
      q ++ if pieces = [] then [] else (' ' : Byte) :: [(' ' : Byte)].intercalate pieces := by
  cases pieces with
  | nil => simp [List.intercalate]
  | cons p ps => simp [List.intercalate]

/-- The parser between two tokens. -/
structure Between (p : Parser) : Prop where
  buf : p.buf = []
  isspace : p.state = .param → p.isspace = true

/-- The parser when it has delivered a token and seen a space. -/
def Parser.next (p : Parser) (tok : Bytes) : Parser :=
  ({ p with buf := tok, isspace := true } : Parser).commitBuffer

/-- It is between two tokens then. -/
lemma between_next (p : Parser) (tok : Bytes) : Between (p.next tok) := by
  unfold Parser.next Parser.commitBuffer
  split_ifs with h
  · exact ⟨h, fun _ => rfl⟩
  · cases p.state <;> exact ⟨rfl, fun _ => rfl⟩

/-- It has delivered the token. -/
lemma seen_next (p : Parser) {tok : Bytes} (h : tok ≠ []) :
    (p.next tok).seen = deliver p.seen tok :=
  Parser.seen_commitBuffer (p := { p with buf := tok, isspace := true }) h

/-- **An empty piece** is a further space. -/
lemma parseLoop_emptyPiece {p : Parser} (h : Between p) (pieces : List Bytes) :
    (parseLoop p ([(' ' : Byte)].intercalate ([] :: pieces))).outputs =
      (parseLoop { p with isspace := true } ([(' ' : Byte)].intercalate pieces)).outputs := by
  have hempty : ∀ b, ({ p with isspace := b } : Parser).commitBuffer = { p with isspace := b } :=
    fun b => by rw [Parser.commitBuffer, if_pos h.buf]
  rw [intercalate_cons, List.nil_append]
  split_ifs with hpieces
  · subst hpieces
    exact (congrArg Parser.outputs (hempty p.isspace)).trans
      (congrArg Parser.outputs (hempty true)).symm
  · rw [parseLoop_space, hempty]

/-- **A run that fits** is delivered. -/
lemma parseLoop_run {p : Parser} (h : Between p) {tok : Bytes} (hne : tok ≠ [])
    (hspace : (' ' : Byte) ∉ tok) (hfit : tok.length < ircMaxLineSize)
    (hcolon : tok.head? = some (':' : Byte) → p.state ≠ .param) (pieces : List Bytes) :
    (parseLoop p ([(' ' : Byte)].intercalate (tok :: pieces))).outputs =
      (parseLoop (p.next tok) ([(' ' : Byte)].intercalate pieces)).outputs := by
  rw [intercalate_cons, parseLoop_token h.buf hne hspace hfit fun hc hp => hcolon hc hp.2]
  split_ifs with hpieces
  · subst hpieces
    have hlast : parseLoop (p.next tok) [] = p.next tok := by
      rw [parseLoop, Parser.commitBuffer, if_pos (between_next p tok).buf]
    change _ = (parseLoop (p.next tok) []).outputs
    rw [hlast, parseLoop, Parser.next]
    simp only [Parser.commitBuffer, if_neg hne]
    cases p.state <;> rfl
  · rw [parseLoop_space]
    rfl

/-- **A run that does not fit** is cut.

**Proof sketch.** The buffer is full in front of the byte that does not fit, and is delivered as it
is: the bytes that fit. What comes behind it does not change this any more. -/
lemma parseLoop_longRun {p : Parser} (h : Between p) {tok : Bytes}
    (hspace : (' ' : Byte) ∉ tok) (hlong : ircMaxLineSize ≤ tok.length)
    (hcolon : tok.head? = some (':' : Byte) → p.state ≠ .param) (pieces : List Bytes) :
    Extends (deliver p.seen (tok.take (ircMaxLineSize - 1)))
      (parseLoop p ([(' ' : Byte)].intercalate (tok :: pieces))).outputs := by
  have hpos : 0 < ircMaxLineSize - 1 := by decide
  obtain ⟨front, d, back, rfl, hlen⟩ : ∃ front d back, tok = front ++ d :: back ∧
      front.length = ircMaxLineSize - 1 := by
    have hlt : ircMaxLineSize - 1 < tok.length := by omega
    exact ⟨_, _, _, (List.take_append_drop (ircMaxLineSize - 1) tok).symm.trans
      (by rw [List.drop_eq_getElem_cons hlt]), List.length_take_of_le hlt.le⟩
  have hfront : front ≠ [] := List.length_pos_iff.mp (by omega)
  obtain ⟨hfspace, hdspace, -⟩ : (' ' : Byte) ∉ front ∧ d ≠ (' ' : Byte) ∧ (' ' : Byte) ∉ back := by
    simp only [List.mem_append, List.mem_cons, not_or] at hspace
    exact ⟨hspace.1, fun heq => hspace.2.1 heq.symm, hspace.2.2⟩
  have hhead : front.head? = some (':' : Byte) → p.state ≠ .param := by
    intro hc
    exact hcolon (by rw [List.head?_append, hc]; rfl)
  rw [← hlen, List.take_left, intercalate_cons, List.append_assoc,
    parseLoop_token h.buf hfront hfspace (by omega) fun hc hp => hhead hc hp.2, List.cons_append,
    parseLoop, if_neg hdspace, if_neg (by simp), if_pos hlen.ge]
  have hseen := Parser.seen_commitBuffer (p := { p with buf := front, isspace := false }) hfront
  change Extends (deliver (Parser.seen { p with buf := front, isspace := false }) front) _
  rw [← hseen]
  exact extends_parseLoop _ _

/-- The needed number of runs when one has been delivered. -/
lemma needed_deliver (o : ParseState × ParsedLine) (tok : Bytes) :
    (deliver o tok).1.needed = o.1.needed - 1 := by
  obtain ⟨state, o⟩ := o
  cases state <;> rfl

/-- **What a piece is**: empty, the start of the trailing parameter, or a run. -/
lemma splitRuns_cons (n : ℕ) (q : Bytes) (pieces : List Bytes) :
    (q = [] ∧ splitRuns n (q :: pieces) = splitRuns n pieces) ∨
    (∃ cs, q = (':' : Byte) :: cs ∧ n = 0 ∧
      splitRuns n (q :: pieces) = ⟨[], some ([(' ' : Byte)].intercalate (cs :: pieces))⟩) ∨
    (q ≠ [] ∧ (q.head? = some (':' : Byte) → n ≠ 0) ∧ splitRuns n (q :: pieces) =
      ⟨q :: (splitRuns (n - 1) pieces).runs, (splitRuns (n - 1) pieces).trailing⟩) := by
  rcases q with _ | ⟨c, cs⟩
  · refine .inl ⟨rfl, ?_⟩
    cases n <;> rfl
  rcases n with _ | n
  · by_cases hc : c = (':' : Byte)
    · subst hc
      exact .inr (.inl ⟨cs, rfl, rfl, rfl⟩)
    · refine .inr (.inr ⟨List.cons_ne_nil _ _, fun h => absurd (Option.some.inj h) hc, ?_⟩)
      simp only [splitRuns, if_neg hc]
  · exact .inr (.inr ⟨List.cons_ne_nil _ _, fun _ => Nat.succ_ne_zero n, rfl⟩)

/-- Only the last state needs no further run. -/
lemma needed_eq_zero {state : ParseState} : state.needed = 0 ↔ state = .param := by
  cases state <;> decide

/-- **Runs that all fit** are delivered as they are.

**Proof sketch.** Induction on the pieces of the line. -/
lemma outputs_of_fit {p : Parser} (h : Between p) {pieces : List Bytes}
    (hspace : ∀ q ∈ pieces, (' ' : Byte) ∉ q)
    (hfit : ∀ r ∈ (splitRuns p.state.needed pieces).runs, r.length < ircMaxLineSize) :
    (parseLoop p ([(' ' : Byte)].intercalate pieces)).outputs =
      deliverAll p.seen (splitRuns p.state.needed pieces) := by
  induction pieces generalizing p with
  | nil =>
    change (parseLoop p []).outputs = _
    rw [parseLoop, Parser.commitBuffer, if_pos h.buf]
    simp [splitRuns, deliverAll, Parser.seen]
  | cons q pieces ih =>
    obtain ⟨hq, hspaces⟩ := List.forall_mem_cons.mp hspace
    rcases splitRuns_cons p.state.needed q pieces with ⟨rfl, hsplit⟩ | ⟨cs, rfl, hn, hsplit⟩ |
      ⟨hne, hcolon, hsplit⟩
    · rw [hsplit] at hfit ⊢
      rw [parseLoop_emptyPiece h]
      exact ih (p := { p with isspace := true }) ⟨h.buf, fun _ => rfl⟩ hspaces hfit
    · have hparam := needed_eq_zero.mp hn
      rw [hsplit, intercalate_cons, List.cons_append, parseLoop_trailing (h.isspace hparam) hparam,
        ← intercalate_cons]
      rfl
    · rw [hsplit] at hfit ⊢
      obtain ⟨hlen, hfit⟩ := List.forall_mem_cons.mp hfit
      have hneeded : (p.next q).state.needed = p.state.needed - 1 := by
        have := congrArg (fun o => ParseState.needed o.1) (seen_next p hne)
        exact this.trans (needed_deliver _ _)
      rw [parseLoop_run h hne hq hlen fun hc hp => hcolon hc (needed_eq_zero.mpr hp),
        ih (between_next p q) hspaces (by rwa [hneeded]), hneeded, seen_next p hne]
      rfl

/-- **A run that does not fit** makes a difference.

**Proof sketch.** Induction on the pieces of the line, up to the first run that does not fit. There
the parser delivers another token, and what has been delivered stays. -/
lemma outputs_of_long {p : Parser} (h : Between p) {pieces : List Bytes}
    (hspace : ∀ q ∈ pieces, (' ' : Byte) ∉ q) (hnul : ∀ q ∈ pieces, 0 ∉ q)
    (hlong : ∃ r ∈ (splitRuns p.state.needed pieces).runs, ircMaxLineSize ≤ r.length) :
    (parseLoop p ([(' ' : Byte)].intercalate pieces)).outputs ≠
      deliverAll p.seen (splitRuns p.state.needed pieces) := by
  induction pieces generalizing p with
  | nil =>
    obtain ⟨r, hr, -⟩ := hlong
    exact absurd hr List.not_mem_nil
  | cons q pieces ih =>
    obtain ⟨hq, hspaces⟩ := List.forall_mem_cons.mp hspace
    obtain ⟨hq0, hnuls⟩ := List.forall_mem_cons.mp hnul
    rcases splitRuns_cons p.state.needed q pieces with ⟨rfl, hsplit⟩ | ⟨cs, rfl, hn, hsplit⟩ |
      ⟨hne, hcolon, hsplit⟩
    · rw [hsplit] at hlong ⊢
      rw [parseLoop_emptyPiece h]
      exact ih (p := { p with isspace := true }) ⟨h.buf, fun _ => rfl⟩ hspaces hnuls hlong
    · rw [hsplit] at hlong
      obtain ⟨r, hr, -⟩ := hlong
      exact absurd hr List.not_mem_nil
    · have hcolon' : q.head? = some (':' : Byte) → p.state ≠ .param :=
        fun hc hp => hcolon hc (needed_eq_zero.mpr hp)
      have hneeded : (p.next q).state.needed = p.state.needed - 1 := by
        have := congrArg (fun o => ParseState.needed o.1) (seen_next p hne)
        exact this.trans (needed_deliver _ _)
      rcases Nat.lt_or_ge q.length ircMaxLineSize with hlen | hlen
      · rw [hsplit] at hlong ⊢
        have hlong' : ∃ r ∈ (splitRuns (p.state.needed - 1) pieces).runs,
            ircMaxLineSize ≤ r.length := by
          obtain ⟨r, hr, hrlen⟩ := hlong
          rcases List.mem_cons.mp hr with rfl | hr
          · omega
          · exact ⟨r, hr, hrlen⟩
        have hrest := ih (between_next p q) hspaces hnuls (by rwa [hneeded])
        rw [hneeded, seen_next p hne] at hrest
        rw [parseLoop_run h hne hq hlen hcolon']
        exact hrest
      · intro heq
        have hcut := parseLoop_longRun h hq hlen hcolon' pieces
        rw [heq, hsplit] at hcut
        have hwhole : Extends (deliver p.seen q) (deliverAll p.seen
            ⟨q :: (splitRuns (p.state.needed - 1) pieces).runs,
              (splitRuns (p.state.needed - 1) pieces).trailing⟩) := by
          refine extends_deliverAll (o := deliver p.seen q)
            (t := splitRuns (p.state.needed - 1) pieces) fun hsome => ?_
          rw [needed_deliver]
          exact needed_le_runs hsome
        have hlen' := hcut.length_eq (fun h0 => hq0 (List.mem_of_mem_take h0)) hq0 hwhole
        rw [List.length_take] at hlen'
        have : 0 < ircMaxLineSize := by decide
        omega

/-! ## Whole lines -/

/-- Delivering further runs as parameters. -/
lemma foldl_deliver_param (o : ParsedLine) (params : List Bytes) :
    params.foldl deliver (.param, o) = (.param, { o with params := o.params ++ params }) := by
  induction params generalizing o with
  | nil => simp
  | cons q params ih =>
    rw [List.foldl_cons]
    exact (ih _).trans (by simp)

/-- **The roles of the tokens** are those in which they are delivered.

**Proof sketch.** The first runs are the prefix, if there is one, and the command; by then the loop
is among the parameters, where all further runs go. There is a trailing parameter only behind them.
-/
lemma deliverAll_eq_ofTokens {state : ParseState} {withPrefix : Bool} {t : LineTokens}
    (hstate : state = if withPrefix then .pfx else .cmd)
    (h : t.trailing.isSome → state.needed ≤ t.runs.length) :
    deliverAll (Parser.init state).seen t = .ofTokens withPrefix t := by
  obtain ⟨runs, trailing⟩ := t
  have hnone : runs.length < state.needed → trailing = none := by
    intro hlt
    rcases trailing with _ | text
    · rfl
    · exact absurd (h rfl) (by simpa using hlt)
  have hinit : (Parser.init state).seen = (state, ⟨[], [], []⟩) := rfl
  rw [deliverAll, hinit]
  subst hstate
  cases withPrefix with
  | true =>
    match runs with
    | [] => rw [hnone (by decide)]; rfl
    | [pfx] => rw [hnone (Nat.lt_succ_self 1)]; rfl
    | pfx :: cmd :: params =>
      have hfold : (pfx :: cmd :: params).foldl deliver (.pfx, ⟨[], [], []⟩) =
          (.param, ⟨pfx, ircStrupper cmd, params⟩) :=
        foldl_deliver_param ⟨pfx, ircStrupper cmd, []⟩ params
      simp only [if_true, hfold]
      rfl
  | false =>
    match runs with
    | [] => rw [hnone (by decide)]; rfl
    | cmd :: params =>
      have hfold : (cmd :: params).foldl deliver (.cmd, ⟨[], [], []⟩) =
          (.param, ⟨[], ircStrupper cmd, params⟩) :=
        foldl_deliver_param ⟨[], ircStrupper cmd, []⟩ params
      simp only [Bool.false_eq_true, if_false, hfold, ParsedLine.ofTokens]

/-- **The loop on a whole string** delivers the tokens exactly when every run fits.

**Proof sketch.** If every run fits, the loop delivers the tokens one after another
(`outputs_of_fit`). Otherwise the first one that does not is delivered in a shorter form, and
nothing behind it makes up for that (`outputs_of_long`). -/
lemma outputs_iff {state : ParseState} (hstate : state ≠ .param) {s : Bytes} (hnul : 0 ∉ s) :
    (parseLoop (.init state) s).outputs =
        deliverAll (Parser.init state).seen (splitRuns state.needed (s.splitOn (' ' : Byte))) ↔
      ∀ r ∈ (splitRuns state.needed (s.splitOn (' ' : Byte))).runs, r.length < ircMaxLineSize := by
  have hbetween : Between (.init state) := ⟨rfl, fun h => absurd h hstate⟩
  have hjoin : [(' ' : Byte)].intercalate (s.splitOn (' ' : Byte)) = s :=
    List.intercalate_splitOn (' ' : Byte)
  have hspace : ∀ q ∈ s.splitOn (' ' : Byte), (' ' : Byte) ∉ q := fun q => notMem_of_mem_splitOn
  have hnuls : ∀ q ∈ s.splitOn (' ' : Byte), 0 ∉ q :=
    fun q hq h0 => hnul (mem_of_mem_splitOn hq h0)
  constructor
  · intro heq
    by_contra hlong
    push Not at hlong
    refine outputs_of_long hbetween hspace hnuls hlong ?_
    rw [hjoin]
    exact heq
  · intro hfit
    have := outputs_of_fit hbetween hspace hfit
    rwa [hjoin] at this

/-- **No byte is lost** exactly when every run in front of the trailing parameter fits in the
buffer: then the outputs are the runs in their roles and the rest of the line.

**Proof sketch.** `outputs_of_fit` and `outputs_of_long`, with the two states in which the parser
starts. -/
theorem parseOutputs_iff {line : Bytes} (hnul : 0 ∉ line) :
    parseOutputs line = .ofTokens (hasPrefix line) (lineTokens line) ↔
      ∀ r ∈ (lineTokens line).runs, r.length < ircMaxLineSize := by
  rw [parseOutputs, parseRun, cstr_eq_self hnul]
  rcases line with _ | ⟨c, cs⟩
  · exact iff_of_true rfl fun r hr => absurd hr List.not_mem_nil
  by_cases hc : c = (':' : Byte)
  · have hpfx : hasPrefix (c :: cs) = true := by simp [hasPrefix, hc]
    have hroles : deliverAll (Parser.init .pfx).seen (splitRuns 2 (cs.splitOn (' ' : Byte))) =
        .ofTokens true (splitRuns 2 (cs.splitOn (' ' : Byte))) :=
      deliverAll_eq_ofTokens rfl needed_le_runs
    rw [lineTokens, hpfx, if_pos rfl, List.tail_cons, ← hroles]
    simp only [if_pos hc]
    exact outputs_iff (by decide) fun h => hnul (List.mem_cons_of_mem _ h)
  · have hpfx : hasPrefix (c :: cs) = false := by
      simpa [hasPrefix] using hc
    have hroles : deliverAll (Parser.init .cmd).seen
        (splitRuns 1 ((c :: cs).splitOn (' ' : Byte))) =
        .ofTokens false (splitRuns 1 ((c :: cs).splitOn (' ' : Byte))) :=
      deliverAll_eq_ofTokens rfl needed_le_runs
    rw [lineTokens, hpfx, if_neg (by decide), ← hroles]
    simp only [if_neg hc]
    exact outputs_iff (by decide) hnul

/-- The tokens of a message to a channel. -/
theorem parseOutputs_privmsg :
    parseOutputs (bytes ":nick!u@h privmsg  #c :hi  there") =
      .ofTokens true ⟨[bytes "nick!u@h", bytes "privmsg", bytes "#c"], some (bytes "hi  there")⟩ :=
  (parseOutputs_iff (by decide)).mpr (by decide)

/-- A command of 510 bytes without parameters: its last byte is in no token. -/
theorem not_parseOutputs :
    let line := List.replicate 510 ('a' : Byte)
    0 ∉ line ∧ lineTokens line = ⟨[line], none⟩ ∧
      parseOutputs line = ⟨[], List.replicate 509 ('A' : Byte), []⟩ ∧
      parseOutputs line ≠ .ofTokens (hasPrefix line) (lineTokens line) := by
  decide +kernel

end Meowbot
