import Mathlib.Data.Bool.AllAny
import Meowbot.HttpClient

set_option relaxedAutoImplicit false
set_option autoImplicit false

/-!
# Pages as servers send them (`lualibs/etclib.lua`)

A server sends a status line, the lines of some variables, an empty line and the page. The client
takes apart what it is sent: the page is returned as it is, and a variable or a cookie that is sent
more than once has its last value.

The variable `charset` is left out here, since a `content-type` sets it as well.

## Main definitions

* `Meowbot.HttpField`, `Meowbot.HttpPage` — what a server sends.
* `Meowbot.HeaderVars.Gets` — what some variables make of the ones before.

## Main results

* `Meowbot.HttpField.headerLine_line` — one line of a header.
* `Meowbot.getHttp_page` — a page comes as it is sent.
-/

namespace Meowbot

open SeqPattern

variable {ended : Bool}

/-- A byte of a line. -/
def IsLineText (c : Byte) : Prop := c ≠ CR ∧ c ≠ LF ∧ c ≠ 0

instance : DecidablePred IsLineText := fun c =>
  inferInstanceAs (Decidable (c ≠ CR ∧ c ≠ LF ∧ c ≠ 0))

/-- A variable of a header, as servers write it, with a space behind the colon. The fields say what
the pattern of the script needs of it, and that it does not take the name of the table of cookies.
-/
structure HttpField where
  name : Bytes
  value : Bytes
  name_ne_nil : name ≠ []
  name_text : ∀ c ∈ name, IsLineText c ∧ c ≠ ' ' ∧ c ≠ ':'
  value_text : ∀ c ∈ value, IsLineText c
  value_head : value.head? ≠ some (' ' : Byte)
  length_le : name.length + value.length ≤ 65534
  key_ne : name.map tolower ≠ bytes "cookies"

namespace HttpField

/-- The name in `header_vars`. -/
def key (f : HttpField) : Bytes := f.name.map tolower

/-- It is not the name of the table. -/
lemma cookies_ne_key (f : HttpField) : bytes "cookies" ≠ f.key := Ne.symm f.key_ne

/-- The line of a variable. -/
def line (f : HttpField) : Bytes := f.name ++ (':' : Byte) :: (' ' : Byte) :: f.value

/-- The cookie that a variable sets. -/
def cookie? (f : HttpField) : Option (Bytes × Bytes) :=
  if f.key = bytes "set-cookie" then
    match reCookie.exec f.value with
    | some [cookie, content] => some (cookie, content)
    | _ => none
  else none

end HttpField

/-- A page, as servers send it: the parts of its first line, the variables of its header, and the
data. Every page of this type can be read by the script. -/
structure HttpPage where
  version : Byte
  status : Bytes
  statusMsg : Bytes
  fields : List HttpField
  data : Bytes
  version_text : IsLineText version
  status_ne_nil : status ≠ []
  status_digits : ∀ c ∈ status, isDigitByte c = true
  statusMsg_text : ∀ c ∈ statusMsg, IsLineText c
  length_le : status.length + statusMsg.length ≤ 65526

namespace HttpPage

/-- The status line. -/
def statusLine (p : HttpPage) : Bytes :=
  bytes "HTTP/1." ++ p.version :: (' ' : Byte) :: (p.status ++ (' ' : Byte) :: p.statusMsg)

/-- The lines of some variables, the empty line and the page. -/
def textOf (data : Bytes) : List HttpField → Bytes
  | [] => CR :: LF :: data
  | f :: fs => f.line ++ CR :: LF :: textOf data fs

/-- The text that is sent. -/
def text (p : HttpPage) : Bytes := p.statusLine ++ CR :: LF :: textOf p.data p.fields

end HttpPage

/-- The last value of a name. -/
def lastValue (k : Bytes) : List (Bytes × Bytes) → Option Bytes
  | [] => none
  | e :: es => (lastValue k es).or (if k = e.1 then some e.2 else none)

/-- The end of a line without terminators inside.

**Proof sketch.** By induction on the line: no byte of it is dropped or ends the line, and the two
bytes behind it end it. The limit is not reached. -/
lemma lineEnd_text (l : Bytes) (k : ℕ) (htext : ∀ c ∈ l, IsLineText c)
    (hlen : k + l.length ≤ 65536) :
    lineEnd TcpSock.isDropped LF 65535 k (l ++ [CR, LF]) = some (l.length + 2) ∧
      lineKept TcpSock.isDropped LF 65535 k (l ++ [CR, LF]) = l := by
  induction l generalizing k with
  | nil => simp [lineEnd, lineKept, TcpSock.isDropped, CR, LF]
  | cons c l ih =>
    obtain ⟨⟨hcr, hlf, h0⟩, hl⟩ := List.forall_mem_cons.mp htext
    rw [List.length_cons] at hlen
    obtain ⟨hend, hkept⟩ := ih (k + 1) hl (by omega)
    have hskip : TcpSock.isDropped c = false := by simp [TcpSock.isDropped, hcr, h0]
    have hgo : ¬ (c = LF ∨ 65535 < k) := by
      rintro (h | h)
      · exact hlf h
      · omega
    constructor
    · rw [List.cons_append, lineEnd, if_neg (by simp [hskip]), if_neg hgo, hend]
      rfl
    · rw [List.cons_append, lineKept, if_neg (by simp [hskip]), if_neg hgo, hkept]

/-- A line with its terminator is the next one. -/
lemma arrivedLine_line {line : Bytes} (htext : ∀ c ∈ line, IsLineText c)
    (hlen : line.length ≤ 65536) (rest : Bytes) :
    arrivedLine ended (line ++ CR :: LF :: rest) = some (line, rest) := by
  obtain ⟨hend, hkept⟩ := lineEnd_text line 0 htext (by omega)
  have hnext : nextLine TcpSock.isDropped LF 65535 ended [] (line ++ [CR, LF] ++ rest) = _ :=
    nextLine_end hend rest
  rw [List.length_nil, hkept, List.nil_append] at hnext
  rw [arrivedLine, show line ++ CR :: LF :: rest = line ++ [CR, LF] ++ rest by simp, hnext]
  simp

/-- The spaces in front of a value. -/
lemma HttpField.spaces (f : HttpField) :
    ((' ' : Byte) :: f.value).dropWhile (fun c : Byte => decide (c = ' ')) = f.value ∧
      ((' ' : Byte) :: f.value).takeWhile (fun c : Byte => decide (c = ' ')) = [(' ' : Byte)] := by
  rw [List.dropWhile_cons_of_pos (by simp), List.takeWhile_cons_of_pos (by simp)]
  have hhead := f.value_head
  cases hv : f.value with
  | nil => exact ⟨rfl, rfl⟩
  | cons c v =>
    have hne : ¬ c = ' ' := by
      rintro rfl
      rw [hv] at hhead
      exact hhead rfl
    rw [List.dropWhile_cons_of_neg (by simpa using hne),
      List.takeWhile_cons_of_neg (by simpa using hne)]
    exact ⟨rfl, rfl⟩

/-- `(.*)` at the end of a pattern takes the whole of a text without line terminators. -/
lemma matchAtoms_rest {l : Bytes} (h : ∀ c ∈ l, IsLineText c) :
    matchAtoms [.many dot 0 false] l = some [l] := by
  have hdot : ∀ c ∈ l, dot c = true := by
    intro c hc
    rw [dot, decide_eq_true_eq]
    exact (h c hc).2.1
  rw [matchAtoms_many_end, if_pos (Nat.zero_le _), List.takeWhile_eq_self_iff.mpr hdot]

/-- `: *(.*)` behind the name: the spaces, and the value up to the end. -/
lemma HttpField.match_value (f : HttpField) :
    matchAtoms [.many (fun c : Byte => decide (c = ' ')) 0 false, .many dot 0 false]
      ((' ' : Byte) :: f.value) = some [[(' ' : Byte)], f.value] := by
  obtain ⟨hdrop, htake⟩ := f.spaces
  have hrest : matchAtoms [.many dot 0 false]
      (((' ' : Byte) :: f.value).dropWhile fun c : Byte => decide (c = ' ')) =
        some [f.value] := by
    rw [hdrop, matchAtoms_rest f.value_text]
  rw [matchAtoms_many_of_some hrest, htake]

/-- `[^ ]+` takes the colon with the name. -/
lemma HttpField.takeWhile_line (f : HttpField) :
    f.line.takeWhile (fun c => decide (c ≠ (' ' : Byte))) = f.name ++ [(':' : Byte)] := by
  have hname : ∀ c ∈ f.name ++ [(':' : Byte)], decide (c ≠ (' ' : Byte)) = true := by
    intro c hc
    rcases List.mem_append.mp hc with hc | hc
    · rw [decide_eq_true_eq]
      exact (f.name_text c hc).2.1
    · obtain rfl := List.mem_singleton.mp hc
      decide
  rw [line, List.append_cons, List.takeWhile_append_of_pos hname,
    List.takeWhile_cons_of_neg (by simp), List.append_nil]

/-- The line of a variable is taken apart.

**Proof sketch.** The name ends at its colon, as it has none itself. A repetition takes as much as
it can, so one that has taken the colon, too, leaves none for the pattern and is given back. -/
lemma HttpField.exec_line (f : HttpField) :
    reHttpHeaderVar.exec f.line = some [f.name, f.value] := by
  have hmatch : matchAtoms reHttpHeaderVar.atoms f.line =
      some [f.name, [(':' : Byte)], [(' ' : Byte)], f.value] := by
    have hpos := List.length_pos_iff.mpr f.name_ne_nil
    rw [reHttpHeaderVar, matchAtoms]
    simp only [Bool.false_eq_true, if_false]
    -- the name with the colon leaves no colon, and one byte less is the name
    refine longest_eq_some (n := f.name.length) hpos (by rw [f.takeWhile_line]; simp) ?_
      fun m h1 h2 => ?_
    · rw [line, List.drop_left, List.take_left, matchAtoms_one_cons, if_pos (by simp),
        f.match_value]
      rfl
    · rw [f.takeWhile_line, List.length_append, List.length_singleton] at h2
      obtain rfl : m = f.name.length + 1 := by omega
      rw [line, ← List.drop_drop, List.drop_left]
      simp
  rw [Pattern.exec, hmatch]
  change some [f.name ++ [], f.value ++ []] = _
  rw [List.append_nil, List.append_nil]

/-- The status line is taken apart.

**Proof sketch.** The version is one character, the status is a run of digits that ends at a space,
and the message is all that follows. -/
lemma HttpPage.exec_statusLine (p : HttpPage) :
    reHttpStatus.exec p.statusLine = some [p.status, p.statusMsg] := by
  have hrun : (p.status ++ (' ' : Byte) :: p.statusMsg).takeWhile isDigitByte = p.status := by
    rw [List.takeWhile_append_of_pos p.status_digits, List.takeWhile_cons_of_neg (by decide),
      List.append_nil]
  have hdigits : matchAtoms [.many isDigitByte 1 false, .one (· = ' '), .many dot 0 false]
      (p.status ++ (' ' : Byte) :: p.statusMsg) =
        some [p.status, [(' ' : Byte)], p.statusMsg] := by
    rw [matchAtoms]
    simp only [Bool.false_eq_true, if_false]
    refine longest_eq_some (n := p.status.length) (List.length_pos_iff.mpr p.status_ne_nil)
      (by rw [hrun]) ?_ fun m h1 h2 => ?_
    · rw [List.drop_left, List.take_left, matchAtoms_one_cons, if_pos (by simp),
        matchAtoms_rest p.statusMsg_text]
      rfl
    · rw [hrun] at h2
      omega
  have hversion : dot p.version = true := by
    rw [dot, decide_eq_true_eq]
    exact p.version_text.2.1
  rw [Pattern.exec, reHttpStatus, statusLine]
  dsimp only
  rw [matchAtoms_lits, if_pos (List.prefix_append _ _), List.drop_left, matchAtoms_one_cons,
    if_pos hversion, matchAtoms_one_cons, if_pos (by simp), hdigits]
  change some [p.status ++ [], p.statusMsg ++ []] = _
  rw [List.append_nil, List.append_nil]

/-- Nothing in the line of a variable ends it. -/
lemma HttpField.line_text (f : HttpField) :
    (∀ c ∈ f.line, IsLineText c) ∧ f.line.length ≤ 65536 ∧ f.line ≠ [] := by
  have hlen := f.length_le
  refine ⟨fun c hc => ?_, ?_, by simp [line]⟩
  · rcases List.mem_append.mp hc with hc | hc
    · exact (f.name_text c hc).1
    · rcases List.mem_cons.mp hc with rfl | hc
      · decide
      · rcases List.mem_cons.mp hc with rfl | hc
        · decide
        · exact f.value_text c hc
  · rw [line, List.length_append, List.length_cons, List.length_cons]
    omega

/-- Nothing in the status line ends it.

**Proof sketch.** The parts of the line are texts without CR and LF by assumption, or digits; their
lengths are bounded together. -/
lemma HttpPage.statusLine_text (p : HttpPage) :
    (∀ c ∈ p.statusLine, IsLineText c) ∧ p.statusLine.length ≤ 65536 := by
  have hlen := p.length_le
  have hfirst : (bytes "HTTP/1.").length = 7 := by decide
  refine ⟨fun c hc => ?_, ?_⟩
  · rcases List.mem_append.mp hc with hc | hc
    · have hall : ∀ c ∈ bytes "HTTP/1.", IsLineText c :=
        List.all_iff_forall_prop.mp (by decide)
      exact hall c hc
    · rcases List.mem_cons.mp hc with rfl | hc
      · exact p.version_text
      · rcases List.mem_cons.mp hc with rfl | hc
        · decide
        · rcases List.mem_append.mp hc with hc | hc
          · have hdigit := p.status_digits c hc
            refine ⟨?_, ?_, ?_⟩ <;> rintro rfl <;> exact absurd hdigit (by decide)
          · rcases List.mem_cons.mp hc with rfl | hc
            · decide
            · exact p.statusMsg_text c hc
  · rw [statusLine, List.length_append, List.length_cons, List.length_cons, List.length_append,
      List.length_cons]
    omega

/-- What some variables of a header make of the ones before: of each name the last value counts, and
cookies are collected in their table by name in the same way. -/
structure HeaderVars.Gets (vars : HeaderVars) (fs : List HttpField) (vars' : HeaderVars) :
    Prop where
  cookies : ∀ t, vars.find? (bytes "cookies") = some (.cookies t) →
    ∃ t', vars'.find? (bytes "cookies") = some (.cookies t') ∧
      ∀ c, t'.find? c = (lastValue c (fs.filterMap HttpField.cookie?)).or (t.find? c)
  others : ∀ k, k ≠ bytes "cookies" → k ≠ bytes "charset" →
    vars'.find? k =
      ((lastValue k (fs.map fun f => (f.key, f.value))).map .text).or (vars.find? k)

/-- The last value in a list of two parts. -/
lemma lastValue_append (k : Bytes) (es es' : List (Bytes × Bytes)) :
    lastValue k (es ++ es') = (lastValue k es').or (lastValue k es) := by
  induction es with
  | nil => simp [lastValue]
  | cons e es ih => rw [List.cons_append, lastValue, ih, lastValue, Option.or_assoc]

/-- No variables. -/
lemma HeaderVars.Gets.nil (vars : HeaderVars) : vars.Gets [] vars where
  cookies t ht := ⟨t, ht, fun _ => rfl⟩
  others _ _ _ := rfl

/-- Some variables, and then others. -/
lemma HeaderVars.Gets.append {vars vars' vars'' : HeaderVars} {fs gs : List HttpField}
    (h : vars.Gets fs vars') (h' : vars'.Gets gs vars'') : vars.Gets (fs ++ gs) vars'' where
  cookies t ht := by
    obtain ⟨t', ht', hfind⟩ := h.cookies t ht
    obtain ⟨t'', ht'', hfind'⟩ := h'.cookies t' ht'
    refine ⟨t'', ht'', fun c => ?_⟩
    rw [hfind', hfind, List.filterMap_append, lastValue_append, Option.or_assoc]
  others k hcookies hcharset := by
    rw [h'.others k hcookies hcharset, h.others k hcookies hcharset, List.map_append,
      lastValue_append, Option.map_or, Option.or_assoc]

/-- Looking up a variable after one is set. -/
lemma HeaderVars.find?_set (vars : HeaderVars) (name : Bytes) (value : HeaderVar) (k : Bytes) :
    (vars.set name value).find? k = if k = name then some value else vars.find? k :=
  FoldMap.find?_update vars name k _

/-- A variable that sets no cookie. -/
lemma HeaderVars.Gets.of_cookie?_eq_none {vars vars' : HeaderVars} {f : HttpField}
    (hcookie : f.cookie? = none)
    (h : ∀ k, k ≠ bytes "charset" → vars'.find? k = (vars.set f.key (.text f.value)).find? k) :
    vars.Gets [f] vars' where
  cookies t ht := by
    refine ⟨t, ?_, fun c => ?_⟩
    · rw [h _ (by decide), HeaderVars.find?_set, if_neg f.cookies_ne_key, ht]
    · rw [List.filterMap_cons, hcookie]
      rfl
  others k _ hcharset := by
    rw [h k hcharset, HeaderVars.find?_set, List.map_singleton, lastValue, lastValue]
    split_ifs with hk <;> rfl

/-- **The line of a variable** sets it, in lower case, to its value, and if it is a `Set-Cookie`
that is understood, it sets the cookie as well. All other variables stay.

**Proof sketch.** The line is taken apart into its name and its value (`HttpField.exec_line`). The
name is none for the table of the cookies, so this stays in its place. A cookie is put into it if
the second pattern matches the value; a content type may set the variable for the charset, which the
result says nothing about. -/
lemma HttpField.headerLine_line (f : HttpField) {vars : HeaderVars}
    {t : FoldMap (id : Bytes → Bytes) Bytes}
    (ht : vars.find? (bytes "cookies") = some (.cookies t)) :
    ∃ vars', headerLine vars f.line = .vars vars' ∧ vars.Gets [f] vars' := by
  have hkept : (vars.set f.key (.text f.value)).find? (bytes "cookies") = some (.cookies t) := by
    rw [HeaderVars.find?_set, if_neg f.cookies_ne_key, ht]
  have hkey : f.name.map tolower = f.key := rfl
  rw [headerLine, f.exec_line]
  dsimp only
  rw [hkey]
  split_ifs with hset htype
  · -- a cookie
    split
    · rename_i cookie content hexec
      have hcookie : f.cookie? = some (cookie, content) := by
        rw [cookie?, if_pos hset, hexec]
      rw [hkept]
      refine ⟨_, rfl, fun t₀ ht₀ => ?_, fun k hcookies _ => ?_⟩
      · obtain rfl := HeaderVar.cookies.inj (Option.some.inj (ht₀.symm.trans ht))
        refine ⟨_, by rw [HeaderVars.find?_set, if_pos rfl], fun c => ?_⟩
        rw [FoldMap.find?_update, List.filterMap_cons, hcookie]
        dsimp only [id]
        rw [List.filterMap_nil, lastValue, lastValue]
        split_ifs <;> rfl
      · rw [HeaderVars.find?_set, if_neg hcookies, HeaderVars.find?_set, List.map_singleton,
          lastValue, lastValue]
        split_ifs with hk <;> rfl
    · rename_i hexec
      have hcookie : f.cookie? = none := by
        rw [cookie?, if_pos hset]
        split
        · exact absurd ‹_› (hexec _ _)
        · rfl
      exact ⟨_, rfl, .of_cookie?_eq_none hcookie fun _ _ => rfl⟩
  · -- a type
    have hcookie : f.cookie? = none := if_neg hset
    split
    · refine ⟨_, rfl, .of_cookie?_eq_none hcookie fun k hk => ?_⟩
      rw [HeaderVars.find?_set, if_neg hk]
    · exact ⟨_, rfl, .of_cookie?_eq_none hcookie fun _ _ => rfl⟩
  · exact ⟨_, rfl, .of_cookie?_eq_none (if_neg hset) fun _ _ => rfl⟩

variable (ended) in
/-- **The lines of some variables** set them, one after another.

**Proof sketch.** By induction on the variables. Each of their lines is the next one of the text, is
not empty, and does what `HttpField.headerLine_line` says; the empty line at the end ends the
header. -/
lemma headerLines_textOf (fs : List HttpField) (data : Bytes) {vars : HeaderVars}
    {t : FoldMap (id : Bytes → Bytes) Bytes}
    (ht : vars.find? (bytes "cookies") = some (.cookies t)) :
    ∃ vars', headerLines ended (HttpPage.textOf data fs) vars = (.vars vars', data) ∧
      vars.Gets fs vars' := by
  induction fs generalizing vars t with
  | nil =>
    have hnext : arrivedLine ended (HttpPage.textOf data []) = some ([], data) :=
      arrivedLine_line (List.forall_mem_nil _) (Nat.zero_le _) data
    exact ⟨vars, by rw [headerLines_of_line hnext, if_pos rfl], .nil vars⟩
  | cons f fs ih =>
    obtain ⟨htext, hlen, hne⟩ := f.line_text
    have hnext : arrivedLine ended (HttpPage.textOf data (f :: fs)) =
        some (f.line, HttpPage.textOf data fs) := arrivedLine_line htext hlen _
    obtain ⟨vars', hline, hgets⟩ := f.headerLine_line ht
    obtain ⟨t', ht', -⟩ := hgets.cookies t ht
    obtain ⟨vars'', hlines, hgets'⟩ := ih ht'
    refine ⟨vars'', ?_, hgets.append hgets'⟩
    rw [headerLines_of_line hnext, if_neg hne, hline]
    exact hlines

namespace HttpPage

/-- The variables of the status line. -/
def statusVar (p : HttpPage) (k : Bytes) : Option HeaderVar :=
  if k = bytes "status_msg" then some (.text p.statusMsg)
  else if k = bytes "status" then some (.number (digitsValue p.status))
  else none

/-- The status line sets its variables. -/
lemma statusVars_statusLine (p : HttpPage) :
    ∃ vars, statusVars p.statusLine = some vars ∧
      vars.find? (bytes "cookies") = some (.cookies .empty) ∧
      ∀ k, k ≠ bytes "cookies" → vars.find? k = p.statusVar k := by
  rw [statusVars, p.exec_statusLine]
  refine ⟨_, rfl, ?_, fun k hk => ?_⟩
  · rw [HeaderVars.find?_set, if_pos rfl]
  · rw [HeaderVars.find?_set, if_neg hk, HeaderVars.find?_set, HeaderVars.find?_set, statusVar,
      FoldMap.find?_empty]

end HttpPage

/-- **A page comes as it is sent**: when the text of a page arrives, in pieces of any size,
`get_http` returns its data; each variable has the last value that the header gives it, and each
cookie the last one that is set.

**Proof sketch.** What the socket reads is what is in the text (`getHttp_eq`). Its first line is
taken apart as a status line, the lines of the header set the variables one after another, so that
the last value of each stays, and all that is left behind the empty line is the data. -/
theorem getHttp_page (p : HttpPage) (net : List Arrival)
    (hnet : stream (untilTimeout net) = p.text) :
    ∃ vars cookies, getHttp (.connected none net) = .page p.data vars ∧
      vars.find? (bytes "cookies") = some (.cookies cookies) ∧
      (∀ c, cookies.find? c = lastValue c (p.fields.filterMap HttpField.cookie?)) ∧
      ∀ k, k ≠ bytes "cookies" → k ≠ bytes "charset" →
        vars.find? k =
          ((lastValue k (p.fields.map fun f => (f.key, f.value))).map .text).or
            (p.statusVar k) := by
  obtain ⟨htext, hlen⟩ := p.statusLine_text
  obtain ⟨vars, hstatus, hempty, hvars⟩ := p.statusVars_statusLine
  obtain ⟨vars', hlines, hgets⟩ :=
    headerLines_textOf (!net.contains .timeout) p.fields p.data hempty
  obtain ⟨cookies, hcookies, hfind⟩ := hgets.cookies _ hempty
  have hfirst : arrivedLine (!net.contains .timeout) p.text =
      some (p.statusLine, HttpPage.textOf p.data p.fields) := arrivedLine_line htext hlen _
  refine ⟨vars', cookies, ?_, hcookies, fun c => ?_, fun k hk hcharset => ?_⟩
  · rw [getHttp_awaits (awaits_connected net), hnet, response, hfirst]
    dsimp only
    rw [hstatus]
    dsimp only
    rw [hlines]
  · rw [hfind, FoldMap.find?_empty, Option.or_none]
  · rw [hgets.others k hk hcharset, hvars k hk]

/-- A page with a cookie. -/
def cookiePage : HttpPage where
  version := '1'
  status := bytes "200"
  statusMsg := bytes "OK"
  fields :=
    [{ name := bytes "Set-Cookie"
       value := bytes "a=1; path=/"
       name_ne_nil := by decide
       name_text := List.all_iff_forall_prop.mp (by decide)
       value_text := List.all_iff_forall_prop.mp (by decide)
       value_head := by decide
       length_le := by decide
       key_ne := by decide }]
  data := bytes "hi"
  version_text := by decide
  status_ne_nil := by decide
  status_digits := List.all_iff_forall_prop.mp (by decide)
  statusMsg_text := List.all_iff_forall_prop.mp (by decide)
  length_le := by decide

/-- The page arrives in two pieces. -/
theorem getHttp_page_pieces :
    ∃ vars cookies,
      getHttp (.connected none
        [.data 'H' (bytes "TTP/1.1 200 OK\r\nSet-Coo"),
          .data 'k' (bytes "ie: a=1; path=/\r\n\r\nhi")]) =
          .page (bytes "hi") vars ∧
      vars.find? (bytes "cookies") = some (.cookies cookies) ∧
      (∀ c, cookies.find? c = lastValue c (cookiePage.fields.filterMap HttpField.cookie?)) ∧
      ∀ k, k ≠ bytes "cookies" → k ≠ bytes "charset" →
        vars.find? k =
          ((lastValue k (cookiePage.fields.map fun f => (f.key, f.value))).map .text).or
            (cookiePage.statusVar k) :=
  getHttp_page cookiePage _ (by decide)

end Meowbot
