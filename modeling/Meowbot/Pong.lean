import Meowbot.MainLoop

set_option relaxedAutoImplicit false
set_option autoImplicit false

/-!
# The answer to a PING (`irc.cpp`)

The handler of `PING` joins the parameters by spaces behind `PONG`. The parser has taken the colon
off a trailing parameter, and the join does not put it back; and an empty parameter is left out,
because the parameters were padded with empty ones.

## Main definitions

* `Meowbot.pongReply` — the answer; `Meowbot.onWire` — what is sent of it.
* `Meowbot.PlainParam` — a parameter that needs no colon.
* `Meowbot.Echoes` — the answer has the parameters of the message.

## Main results

* `Meowbot.parseLoop_param_cases` — the parameters of a short line: all of them are plain, or the
  last one has cost a colon.
* `Meowbot.parseLoop_join` — plain parameters that were joined are taken apart again.
* `Meowbot.echoes_iff` — the answer has the parameters of the message exactly when these are plain.
-/

namespace Meowbot

/-! ## The answer -/

/-- What the handler of `PING` gives to `quote`. -/
def pongReply (m : Message) : Bytes := bytes "PONG " ++ concatParam m.params

/-- What `quote` sends of a line that is short enough. -/
def onWire (s : Bytes) : Bytes := s.filter fun c => c ≠ LF ∧ c ≠ CR

/-- **A plain parameter**: it is not empty, does not look like a trailing one, and has no space and
no line terminator in it. -/
structure PlainParam (q : Bytes) : Prop where
  ne_nil : q ≠ []
  noColon : q.head? ≠ some (':' : Byte)
  noSpace : (' ' : Byte) ∉ q
  noLF : LF ∉ q
  noCR : CR ∉ q

/-- **The answer echoes the message**: it is parsed as a `PONG` with the same parameters. -/
def Echoes (m : Message) : Prop :=
  ∃ l, parseIrcLine (onWire (pongReply m)) = some l ∧ l.cmd = bytes "PONG" ∧ l.params = m.given

/-! ## The join -/

/-- The size of some parameters with a space or a colon for each of them. -/
def joinWeight (params : List Bytes) : ℕ := (params.map fun q => q.length + 1).sum

@[simp] lemma joinWeight_nil : joinWeight [] = 0 := rfl

@[simp] lemma joinWeight_cons (q : Bytes) (qs : List Bytes) :
    joinWeight (q :: qs) = q.length + 1 + joinWeight qs := by
  simp [joinWeight]

/-- Parameters behind the first one have a space in front of them. -/
lemma flatMap_zipIdx_succ (qs : List Bytes) (k : ℕ) :
    ((qs.zipIdx (k + 1)).filter fun p => p.1 ≠ []).flatMap
        (fun p => (if p.2 ≠ 0 then [(' ' : Byte)] else []) ++ p.1) =
      (qs.filter fun q => q ≠ []).flatMap fun q => (' ' : Byte) :: q := by
  induction qs generalizing k with
  | nil => rfl
  | cons q qs ih =>
    rw [List.zipIdx_cons]
    by_cases hq : q = []
    · rw [List.filter_cons_of_neg (by simpa using hq), List.filter_cons_of_neg (by simpa using hq),
        ih]
    · rw [List.filter_cons_of_pos (by simpa using hq), List.filter_cons_of_pos (by simpa using hq),
        List.flatMap_cons, List.flatMap_cons, ih, if_pos (by omega)]
      rfl

/-- **The join of some parameters**: the padding adds nothing to it. -/
lemma concatParam_params (m : Message) {q : Bytes} {qs : List Bytes} (hgiven : m.given = q :: qs) :
    concatParam m.params = q ++ (qs.filter fun q => q ≠ []).flatMap fun q => (' ' : Byte) :: q := by
  obtain ⟨n, hparams⟩ : ∃ n, m.params = q :: (qs ++ List.replicate n []) := by
    rw [Message.params, hgiven]
    split_ifs
    · exact ⟨_, rfl⟩
    · exact ⟨0, by simp⟩
  have hpad : (qs ++ List.replicate n []).filter (fun q : Bytes => decide (q ≠ [])) =
      qs.filter fun q => q ≠ [] := by
    simp
  rw [concatParam, hparams, List.zipIdx_cons]
  by_cases hq : q = []
  · rw [List.filter_cons_of_neg (by simpa using hq), flatMap_zipIdx_succ, hpad, hq,
      List.nil_append]
  · rw [List.filter_cons_of_pos (by simpa using hq), List.flatMap_cons, flatMap_zipIdx_succ, hpad]
    rfl

/-- The join of no parameters is empty. -/
lemma concatParam_of_nil (m : Message) (hgiven : m.given = []) : concatParam m.params = [] := by
  have hparams : m.params = List.replicate 32 [] := by
    rw [Message.params, Message.nparam, hgiven]
    rfl
  rw [concatParam, hparams]
  decide

/-- The join has no room for a colon.

**Proof sketch.** By induction on the parameters: each that is not empty takes one byte more than it
has, and one that is empty takes none, while the line has a space for every parameter. -/
lemma length_concatParam_lt (m : Message) (hne : m.given ≠ []) :
    (concatParam m.params).length < joinWeight m.given := by
  have hrest : ∀ qs : List Bytes,
      ((qs.filter fun q => q ≠ []).flatMap fun q => (' ' : Byte) :: q).length ≤ joinWeight qs := by
    intro qs
    induction qs with
    | nil => simp
    | cons q qs ih =>
      by_cases hq : q = []
      · rw [List.filter_cons_of_neg (by simpa using hq), joinWeight_cons]
        omega
      · rw [List.filter_cons_of_pos (by simpa using hq), List.flatMap_cons, List.length_append,
          List.length_cons, joinWeight_cons]
        omega
  obtain ⟨q, qs, hgiven⟩ := List.exists_cons_of_ne_nil hne
  have hle := hrest qs
  rw [concatParam_params m hgiven, hgiven, joinWeight_cons, List.length_append]
  omega

/-! ## The parser behind the command -/

/-- A parameter that the parser has collected without a colon in front of it. -/
def Collected (q : Bytes) : Prop :=
  q ≠ [] ∧ q.head? ≠ some (':' : Byte) ∧ (' ' : Byte) ∉ q

/-- What has been collected becomes a parameter. -/
lemma commitBuffer_param {p : Parser} (hstate : p.state = .param) (hne : p.buf ≠ []) :
    p.commitBuffer = { p with params := p.params ++ [p.buf], buf := [] } := by
  rw [Parser.commitBuffer, if_neg hne, hstate]

/-- A byte that is collected. -/
lemma Collected.append {q : Bytes} (hq : q ≠ [] → Collected q) {c : Byte} (hc : c ≠ (' ' : Byte))
    (hcolon : q = [] → c ≠ (':' : Byte)) : Collected (q ++ [c]) := by
  cases q with
  | nil => exact ⟨by simp, by simpa using hcolon rfl, by simpa using hc.symm⟩
  | cons d q =>
    obtain ⟨-, hhead, hspace⟩ := hq (List.cons_ne_nil _ _)
    refine ⟨by simp, hhead, fun hmem => ?_⟩
    rcases List.mem_append.mp hmem with hold | hnew
    · exact hspace hold
    · exact hc (List.mem_singleton.mp hnew).symm

/-- **The parameters of a short line**: the parser has collected all of them, or the last one has
cost a colon, and all of them with a space or the colon fit in the line.

**Proof sketch.** Induction over the bytes, with what is in the buffer in the place of the bytes
that it was read from. The buffer is only empty behind a space, so that what is put into it does
not begin with a colon, and it does not overflow. -/
lemma parseLoop_param_cases {p : Parser} (hstate : p.state = .param)
    (hspace : p.buf = [] → p.isspace = true) (hbuf : p.buf ≠ [] → Collected p.buf) (s : Bytes)
    (hfit : p.buf.length + s.length < ircMaxLineSize) :
    (parseLoop p s).state = .param ∧ (parseLoop p s).cmd = p.cmd ∧
      ∃ qs, (parseLoop p s).params = p.params ++ qs ∧
        ((∀ q ∈ qs, Collected q) ∨ qs ≠ [] ∧ joinWeight qs ≤ p.buf.length + s.length) := by
  induction s generalizing p with
  | nil =>
    rw [parseLoop]
    by_cases hb : p.buf = []
    · rw [Parser.commitBuffer, if_pos hb]
      exact ⟨hstate, rfl, [], by simp, .inl (by simp)⟩
    · rw [commitBuffer_param hstate hb]
      exact ⟨hstate, rfl, [p.buf], rfl, .inl (by simpa using hbuf hb)⟩
  | cons c cs ih =>
    rw [List.length_cons] at hfit ⊢
    rw [parseLoop]
    by_cases hc : c = (' ' : Byte)
    · rw [if_pos hc]
      by_cases hb : p.buf = []
      · -- another space
        rw [Parser.commitBuffer, if_pos hb]
        obtain ⟨hs, hcmd, qs, hparams, hqs⟩ := @ih { p with isspace := true } hstate
          (fun _ => rfl) hbuf (by dsimp only; omega)
        refine ⟨hs, hcmd, qs, hparams, hqs.imp_right fun hw => ⟨hw.1, ?_⟩⟩
        exact hw.2.trans (by dsimp only; omega)
      · -- the end of what is in the buffer
        rw [@commitBuffer_param { p with isspace := true } hstate hb]
        obtain ⟨hs, hcmd, qs, hparams, hqs⟩ := @ih
          { p with isspace := true, params := p.params ++ [p.buf], buf := [] } hstate
          (fun _ => rfl) (fun h => absurd rfl h) (by simp only [List.length_nil]; omega)
        refine ⟨hs, hcmd, p.buf :: qs, by simpa using hparams, ?_⟩
        rcases hqs with hqs | ⟨-, hw⟩
        · exact .inl (List.forall_mem_cons.mpr ⟨hbuf hb, hqs⟩)
        · refine .inr ⟨List.cons_ne_nil _ _, ?_⟩
          simp only [List.length_nil, joinWeight_cons] at hw ⊢
          omega
    · rw [if_neg hc]
      by_cases hcolon : c = (':' : Byte) ∧ p.isspace ∧ p.state = .param
      · -- a trailing parameter
        rw [if_pos hcolon]
        refine ⟨hstate, rfl, [cs], rfl, .inr ⟨List.cons_ne_nil _ _, ?_⟩⟩
        rw [joinWeight_cons, joinWeight_nil]
        omega
      · rw [if_neg hcolon, if_neg (by omega)]
        have hstart : p.buf = [] → c ≠ (':' : Byte) := fun hb h =>
          hcolon ⟨h, hspace hb, hstate⟩
        obtain ⟨hs, hcmd, qs, hparams, hqs⟩ := @ih
          { p with buf := p.buf ++ [c], isspace := false } hstate (fun h => by simp at h)
          (fun _ => Collected.append hbuf hc hstart)
          (by simp only [List.length_append, List.length_singleton]; omega)
        refine ⟨hs, hcmd, qs, hparams, hqs.imp_right fun hw => ⟨hw.1, ?_⟩⟩
        have hle := hw.2
        simp only [List.length_append, List.length_singleton] at hle
        omega

/-- **Plain parameters that were joined** are taken apart again.

**Proof sketch.** By induction on the parameters. Each of them is a token without a space or a
leading colon, and is committed at the space behind it, or at the end. -/
lemma parseLoop_join {p : Parser} (hstate : p.state = .param) (hbuf : p.buf = [])
    (hspace : p.isspace = true) {q : Bytes} {qs : List Bytes} (hq : PlainParam q)
    (hqs : ∀ q ∈ qs, PlainParam q)
    (hfit : (q ++ qs.flatMap fun q => (' ' : Byte) :: q).length < ircMaxLineSize) :
    (parseLoop p (q ++ qs.flatMap fun q => (' ' : Byte) :: q)).params = p.params ++ q :: qs := by
  induction qs generalizing p q with
  | nil =>
    rw [List.flatMap_nil] at hfit ⊢
    rw [List.append_nil] at hfit
    rw [parseLoop_token hbuf hq.ne_nil hq.noSpace hfit fun h => absurd h hq.noColon, parseLoop]
    simp [Parser.commitBuffer, hq.ne_nil, hstate]
  | cons q' qs ih =>
    obtain ⟨hq', hqs⟩ := List.forall_mem_cons.mp hqs
    rw [List.flatMap_cons, List.length_append, List.cons_append, List.length_cons] at hfit
    rw [List.flatMap_cons, List.cons_append, parseLoop_token hbuf hq.ne_nil hq.noSpace (by omega)
      fun h => absurd h hq.noColon, parseLoop_space]
    have hnext := @ih { p with isspace := true, params := p.params ++ [q], buf := [] } hstate rfl
      rfl q' hq' hqs (by omega)
    rw [List.append_assoc] at hnext
    simpa [Parser.commitBuffer, hq.ne_nil, hstate] using hnext

/-! ## The echo -/

/-- The parser behind the command of the answer. -/
def Parser.pong : Parser :=
  { state := .param, buf := [], isspace := true, pfx := [], cmd := bytes "PONG", params := [] }

/-- **The answer is parsed** from the join on. -/
lemma parseRun_pong {s : Bytes} (h0 : 0 ∉ s) :
    parseRun (bytes "PONG " ++ s) = parseLoop .pong s := by
  have hcstr : cstr (bytes "PONG " ++ s) = bytes "PONG " ++ s := by
    apply cstr_eq_self
    rw [List.mem_append, not_or]
    exact ⟨by decide, h0⟩
  rw [parseRun, hcstr]
  rfl

/-- The bytes of the join are those of the parameters, and spaces. -/
lemma mem_concatParam {params : List Bytes} {c : Byte} (h : c ∈ concatParam params) :
    c = (' ' : Byte) ∨ ∃ q ∈ params, c ∈ q := by
  obtain ⟨⟨q, k⟩, hq, hc⟩ := List.mem_flatMap.mp h
  rcases List.mem_append.mp hc with hspace | hc
  · split_ifs at hspace
    · exact .inl (List.mem_singleton.mp hspace)
    · exact absurd hspace List.not_mem_nil
  · have hmem := List.fst_mem_of_mem_zipIdx (List.mem_filter.mp hq).1
    exact .inr ⟨q, hmem, hc⟩

/-- What is sent of the answer. -/
lemma onWire_pongReply (m : Message) :
    onWire (pongReply m) = bytes "PONG " ++ onWire (concatParam m.params) := by
  rw [onWire, pongReply, List.filter_append]
  rfl

/-- What is given to a message that came from a line holds no NUL. -/
lemma zero_notMem_onWire {line : Bytes} {m : Message} (hline : Message.ofLine line = some m) :
    0 ∉ onWire (concatParam m.params) := by
  obtain ⟨l, hparse, rfl⟩ := Option.map_eq_some_iff.mp hline
  intro h0
  rcases mem_concatParam (List.mem_filter.mp h0).1 with hspace | ⟨q, hq, hmem⟩
  · exact absurd hspace (by decide)
  · have hgiven : q ∈ l.params ∨ q = [] := by
      rw [Message.params] at hq
      split_ifs at hq
      · exact (List.mem_append.mp hq).imp_right fun h => (List.mem_replicate.mp h).2
      · exact .inl hq
    rcases hgiven with hgiven | rfl
    · exact parseIrcLine_zero_notMem hparse q hgiven hmem
    · exact List.not_mem_nil hmem

/-- What is sent of the join is short. -/
lemma length_onWire_lt {m : Message} (hlen : (pongReply m).length ≤ ircMaxLineSize) :
    Parser.pong.buf.length + (onWire (concatParam m.params)).length < ircMaxLineSize := by
  have hle : (onWire (concatParam m.params)).length ≤ (concatParam m.params).length :=
    List.length_filter_le _ _
  have hpong : (bytes "PONG ").length = 5 := rfl
  rw [pongReply, List.length_append] at hlen
  rw [show Parser.pong.buf.length = 0 from rfl]
  omega

/-- **The answer echoes the message** when the join is parsed into its parameters. -/
lemma echoes_iff_params {line : Bytes} {m : Message} (hline : Message.ofLine line = some m)
    (hlen : (pongReply m).length ≤ ircMaxLineSize) :
    Echoes m ↔ (parseLoop .pong (onWire (concatParam m.params))).params = m.given := by
  obtain ⟨hstate, hcmd, -⟩ := @parseLoop_param_cases .pong rfl (fun _ => rfl)
    (fun h => absurd rfl h) _ (length_onWire_lt hlen)
  rw [Echoes, onWire_pongReply, parseIrcLine, parseRun_pong (zero_notMem_onWire hline),
    if_pos hstate]
  constructor
  · rintro ⟨l, hl, -, hparams⟩
    obtain rfl := Option.some.inj hl
    exact hparams
  · exact fun hparams => ⟨_, rfl, hcmd, hparams⟩

/-- Plain parameters stay as they are. -/
lemma onWire_join {q : Bytes} {qs : List Bytes} (hq : PlainParam q) (hqs : ∀ q ∈ qs, PlainParam q) :
    onWire (q ++ qs.flatMap fun q => (' ' : Byte) :: q) =
      q ++ qs.flatMap fun q => (' ' : Byte) :: q := by
  have hplain : ∀ q, PlainParam q → ∀ c ∈ q, decide (c ≠ LF ∧ c ≠ CR) = true := by
    intro q hq c hc
    exact decide_eq_true ⟨fun h => hq.noLF (h ▸ hc), fun h => hq.noCR (h ▸ hc)⟩
  apply List.filter_eq_self.mpr
  intro c hc
  rcases List.mem_append.mp hc with hc | hc
  · exact hplain q hq c hc
  · obtain ⟨q', hq', hc⟩ := List.mem_flatMap.mp hc
    rcases List.mem_cons.mp hc with rfl | hc
    · rfl
    · exact hplain q' (hqs q' hq') c hc

/-- **Which messages are echoed**: those whose parameters are plain.

**Proof sketch.** A parameter that needs a colon costs a byte more than the join has given to it, so
that the answer, which is no longer than the join, cannot hold the parameters of the message if
its last parameter has a colon. Plain parameters are taken apart as they were joined. -/
lemma echoes_iff {line : Bytes} {m : Message} (hline : Message.ofLine line = some m)
    (hlen : (pongReply m).length ≤ ircMaxLineSize) :
    Echoes m ↔ ∀ q ∈ m.given, PlainParam q := by
  have hfit := length_onWire_lt hlen
  rw [echoes_iff_params hline hlen]
  constructor
  · intro hparams q hq
    obtain ⟨-, -, qs, hqs, hcases⟩ := @parseLoop_param_cases .pong rfl (fun _ => rfl)
      (fun h => absurd rfl h) _ hfit
    obtain rfl : qs = m.given := hqs.symm.trans hparams
    rcases hcases with hall | ⟨hne, hweight⟩
    · obtain ⟨hne, hcolon, hspace⟩ := hall q hq
      have hbytes := @parseLoop_bytes .pong (onWire (concatParam m.params))
        (fun c => c ≠ LF ∧ c ≠ CR) (fun q hq => absurd hq List.not_mem_nil)
        (fun c hc => absurd hc List.not_mem_nil)
        (fun c hc => of_decide_eq_true (List.mem_filter.mp hc).2)
      rw [hparams] at hbytes
      exact ⟨hne, hcolon, hspace, fun h => (hbytes q hq LF h).1 rfl,
        fun h => (hbytes q hq CR h).2 rfl⟩
    · have hle : (onWire (concatParam m.params)).length ≤ (concatParam m.params).length :=
        List.length_filter_le _ _
      have hlt := length_concatParam_lt m hne
      rw [show Parser.pong.buf.length = 0 from rfl] at hweight
      omega
  · intro hplain
    cases hgiven : m.given with
    | nil =>
      rw [concatParam_of_nil m hgiven]
      rfl
    | cons q qs =>
      obtain ⟨hq, hqs⟩ := List.forall_mem_cons.mp (hgiven ▸ hplain)
      have hall : (qs.filter fun q : Bytes => q ≠ []) = qs := by
        apply List.filter_eq_self.mpr
        exact fun q hq => decide_eq_true (hqs q hq).ne_nil
      have hjoin := concatParam_params m hgiven
      rw [hall] at hjoin
      rw [hjoin, onWire_join hq hqs] at hfit ⊢
      rw [show Parser.pong.buf.length = 0 from rfl, Nat.zero_add] at hfit
      exact parseLoop_join rfl rfl rfl hq hqs hfit

/-! ## The main loop -/

/-- **A PING is answered** by its parameters, and the answer echoes it exactly when these are plain:
each of them is nonempty, has no space and does not begin with a colon.

For an accepted line the main loop gives the answer to `quote`; without a converter it is sent
without line terminators.

**Proof sketch.** The handler of `PING` does nothing else; then `echoes_iff`. -/
theorem pong_echoes_iff {line : Bytes} {m : Message} (hline : Message.ofLine line = some m)
    (hcmd : m.cmd = bytes "PING") (hlen : (pongReply m).length ≤ ircMaxLineSize) :
    (∀ (c : Irc) (now : ℤ), c.processLine now line =
      .ok (.goOn (c.quote (pongReply m) ircPriorityMax true).2)) ∧
    (∀ c : Irc, c.status ≠ .disconnected → c.convM2s = none →
      (c.quote (pongReply m) ircPriorityMax true).2 = { c with outgoing :=
        c.outgoing ++ [(onWire (pongReply m) ++ [CR, LF], ircPriorityMax)] }) ∧
    (Echoes m ↔ ∀ q ∈ m.given, PlainParam q) := by
  refine ⟨fun c now => ?_, fun c hstatus hconv => ?_, echoes_iff hline hlen⟩
  · rw [Irc.processLine, hline]
    dsimp only
    rw [hcmd]
    rfl
  · have h0 : 0 ∉ pongReply m := by
      intro hmem
      rcases List.mem_append.mp hmem with hpong | hjoin
      · exact absurd hpong (by decide)
      · exact zero_notMem_onWire hline (List.mem_filter.mpr ⟨hjoin, rfl⟩)
    have hshort : (onWire (pongReply m)).length ≤ ircMaxLineSize :=
      (List.length_filter_le _ _).trans hlen
    rw [Irc.quote_snd hstatus, Irc.quoteSource, hconv]
    dsimp only
    rw [cstr_eq_self h0, Irc.wireLine, ← onWire, List.take_of_length_le hshort]

/-- A parameter and a trailing one that needs no colon. -/
theorem pong_echoes_iff_plain :
    Message.ofLine (bytes "PING x :y") = some ⟨[], bytes "PING", [bytes "x", bytes "y"]⟩ ∧
      Echoes ⟨[], bytes "PING", [bytes "x", bytes "y"]⟩ := by
  have hline : Message.ofLine (bytes "PING x :y") =
      some ⟨[], bytes "PING", [bytes "x", bytes "y"]⟩ := rfl
  refine ⟨hline, (pong_echoes_iff hline rfl (by decide)).2.2.mpr fun q hq => ?_⟩
  rcases List.mem_cons.mp hq with rfl | hq
  · exact ⟨by decide, by decide, by decide, by decide, by decide⟩
  · obtain rfl := List.mem_singleton.mp hq
    exact ⟨by decide, by decide, by decide, by decide, by decide⟩

/-- **A trailing parameter with a space** comes back as two. -/
theorem not_echoes_trailing :
    Message.ofLine (bytes "PING :a b") = some ⟨[], bytes "PING", [bytes "a b"]⟩ ∧
      (pongReply ⟨[], bytes "PING", [bytes "a b"]⟩).length ≤ ircMaxLineSize ∧
      ¬ Echoes ⟨[], bytes "PING", [bytes "a b"]⟩ := by
  have hparse : parseIrcLine (onWire (pongReply ⟨[], bytes "PING", [bytes "a b"]⟩)) =
      some ⟨[], bytes "PONG", [bytes "a", bytes "b"]⟩ := by decide
  refine ⟨rfl, by decide, ?_⟩
  rintro ⟨l, hl, -, hparams⟩
  obtain rfl := Option.some.inj (hparse.symm.trans hl)
  exact absurd hparams (by decide)

end Meowbot
