import Meowbot.IrcUtils
import Meowbot.Lib.FoldMap
import Meowbot.LuaText
import Meowbot.Prompt
import Meowbot.Wildcard

set_option relaxedAutoImplicit false
set_option autoImplicit false

/-!
# The client for web pages (`lualibs/etclib.lua`, `luasocklib.cpp`)

`get_http` of the scripts reads the lines of a header with `readline`, and then the page with `read`
until nothing comes any more. The names of the variables are in lower case, and a later variable
replaces an earlier one; the table with the cookies is in the same table.

A socket has no converter here, since the scripts set none. Numbers are taken exactly.

## Main definitions

* `Meowbot.getHttpHeader`, `Meowbot.sockReadAll`, `Meowbot.getHttp` — the source.
* `Meowbot.response` — the page in a text that has arrived.

## Main results

* `Meowbot.getHttp_eq` — a page does not depend on the pieces in which it arrives.
-/

namespace Meowbot

open SeqPattern

/-! ## The source -/

/-- `re_http_status`: `^HTTP/1\.. ([0-9]+) (.*)`. A `full_match` is anchored at the start only, as
`FullMatch` of the library is in this build. -/
def reHttpStatus : Pattern Byte :=
  ⟨lits (bytes "HTTP/1.") ++ [.one dot, .one (· = ' '), .many isDigitByte 1 false, .one (· = ' '),
    .many dot 0 false], [(9, 1), (11, 1)]⟩

/-- `re_http_header_var`: `^([^ ]+): *(.*)`. -/
def reHttpHeaderVar : Pattern Byte :=
  ⟨[.many (· ≠ ' ') 1 false, .one (· = ':'), .many (· = ' ') 0 false, .many dot 0 false],
    [(0, 1), (3, 1)]⟩

/-- `^([^=;]+)=([^;]*)` -/
def reCookie : Pattern Byte :=
  ⟨[.many (fun c => c ≠ '=' && c ≠ ';') 1 false, .one (· = '='), .many (· ≠ ';') 0 false],
    [(0, 1), (2, 1)]⟩

/-- `charset=([^ ;=]+)` -/
def reCharset : Pattern Byte :=
  ⟨lits (bytes "charset=") ++ [.many (fun c => c ≠ ' ' && c ≠ ';' && c ≠ '=') 1 false], [(8, 1)]⟩

/-- A value in `header_vars`. -/
inductive HeaderVar where
  | number (n : ℕ)
  | text (s : Bytes)
  | cookies (t : FoldMap (id : Bytes → Bytes) Bytes)

/-- `header_vars` -/
abbrev HeaderVars := FoldMap (id : Bytes → Bytes) HeaderVar

/-- `header_vars[name] = value` -/
def HeaderVars.set (vars : HeaderVars) (name : Bytes) (value : HeaderVar) : HeaderVars :=
  vars.update name fun _ => value

/-- The variables of a status line, if it is one. -/
def statusVars (line : Bytes) : Option HeaderVars :=
  match reHttpStatus.exec line with
  | some [status, msg] =>
    let vars : HeaderVars := .empty
    some (((vars.set (bytes "status") (.number (digitsValue status))).set
      (bytes "status_msg") (.text msg)).set (bytes "cookies") (.cookies .empty))
  | _ => none

/-- What a line of a header does to the variables. -/
inductive LineOutcome where
  /-- It is not one, and the result is false. -/
  | failed
  /-- The variable `cookies` is not a table any more, and an error is raised. -/
  | raised
  | vars (vars : HeaderVars)

/-- The variables after a line of a header. A line of another form ends the reading; a cookie goes
into a table of its own besides, for which the script indexes the variable `cookies`, and it raises
an error if this is a text. -/
def headerLine (vars : HeaderVars) (line : Bytes) : LineOutcome :=
  match reHttpHeaderVar.exec line with
  | some [name, value] =>
    let name := name.map tolower
    let vars := vars.set name (.text value)
    if name = bytes "set-cookie" then
      match reCookie.exec value with
      | some [cookie, content] =>
        match vars.find? (bytes "cookies") with
        | some (.cookies t) =>
          .vars (vars.set (bytes "cookies") (.cookies (t.update cookie fun _ => content)))
        | _ => .raised
      | _ => .vars vars
    else if name = bytes "content-type" then
      match reCharset.search value with
      | some [charset] => .vars (vars.set (bytes "charset") (.text charset))
      | _ => .vars vars
    else .vars vars
  | _ => .failed

/-- `sock:readline` with the default size. -/
def luaReadline (s : TcpSock) : Option Bytes × TcpSock :=
  let r := s.readline 65535
  (if 0 ≤ r.1.1 then some r.1.2 else none, r.2)

/-- A line that is returned uses up some of what can be read. -/
lemma weight_luaReadline {s : TcpSock} {line : Bytes} (h : (luaReadline s).1 = some line) :
    (luaReadline s).2.weight < s.weight := by
  rw [luaReadline] at h ⊢
  dsimp only at h ⊢
  split_ifs at h with hr
  exact TcpSock.weight_readline hr

/-- The loop of `get_http_header`. It ends at an empty line, when no line can be read any more, or
with an error; each line makes the socket lighter. -/
def headerLoop (s : TcpSock) (vars : HeaderVars) : LineOutcome × TcpSock :=
  match _ : (luaReadline s).1 with
  | none => (.failed, (luaReadline s).2)
  | some line =>
    if line = [] then (.vars vars, (luaReadline s).2)
    else match headerLine vars line with
      | .vars vars => headerLoop (luaReadline s).2 vars
      | .failed => (.failed, (luaReadline s).2)
      | .raised => (.raised, (luaReadline s).2)
termination_by s.weight
decreasing_by exact weight_luaReadline ‹_›

/-- `get_http_header` -/
def getHttpHeader (s : TcpSock) : LineOutcome × TcpSock :=
  match (luaReadline s).1 with
  | none => (.failed, (luaReadline s).2)
  | some line =>
    match statusVars line with
    | none => (.failed, (luaReadline s).2)
    | some vars => headerLoop (luaReadline s).2 vars

/-- `sock_read_all`: what is read, and the socket. It reads until a read times out or fails, and so
also at the end of the connection. -/
def sockReadAll (s : TcpSock) : Bytes × TcpSock :=
  match _ : s.timedReadNolock 1024 with
  | (.read buf, s') => (buf ++ (sockReadAll s').1, (sockReadAll s').2)
  | (.timedOut, s') => ([], s')
  | (.error, s') => ([], s')
termination_by s.readable
decreasing_by
  all_goals
    have := TcpSock.readable_timedReadNolock ‹_›
    omega

/-- What `get_http` and its like return. -/
inductive HttpResult where
  | failed
  | raised
  | page (data : Bytes) (vars : HeaderVars)

/-- `get_http`, `post_http_urlencoded` and `post_http_multipart`, once the request is sent. -/
def getHttp (s : TcpSock) : HttpResult :=
  match getHttpHeader s with
  | (.failed, _) => .failed
  | (.raised, _) => .raised
  | (.vars vars, s) => .page (sockReadAll s).1 vars

/-! ## What has arrived -/

/-- The next line of a text that has arrived, and the text behind it. -/
abbrev arrivedLine (ended : Bool) (text : Bytes) : Option (Bytes × Bytes) :=
  nextLine TcpSock.isDropped LF 65535 ended [] text

/-- The variables of the lines up to an empty one, and the text behind it. This is `headerLoop` on
the text that arrives, without the socket. -/
def headerLines (ended : Bool) (text : Bytes) (vars : HeaderVars) : LineOutcome × Bytes :=
  match _ : arrivedLine ended text with
  | none => (.failed, [])
  | some (line, rest) =>
    if line = [] then (.vars vars, rest)
    else match headerLine vars line with
      | .vars vars => headerLines ended rest vars
      | .failed => (.failed, [])
      | .raised => (.raised, [])
termination_by text.length
decreasing_by exact (length_of_nextLine ‹_›).2

/-- **The page in a text** that has arrived before a timeout or the end of the connection: the first
line is the status, then comes the header, and what is behind the empty line is the page. -/
def response (ended : Bool) (text : Bytes) : HttpResult :=
  match arrivedLine ended text with
  | none => .failed
  | some (line, rest) =>
    match statusVars line with
    | none => .failed
    | some vars =>
      match headerLines ended rest vars with
      | (.failed, _) => .failed
      | (.raised, _) => .raised
      | (.vars vars, data) => .page data vars

/-- A socket without a converter and without a part of a line, that is still to deliver a text. -/
structure Awaits (s : TcpSock) (text : Bytes) (ended : Bool) : Prop where
  delivers : s.Delivers text ended
  linebuf : s.linebuf = []
  convS2m : s.convS2m = none

section Arrived

variable {s : TcpSock} {text : Bytes} {ended : Bool}

/-- One line of the text.

**Proof sketch.** A call of `readline` is the loop of the line readers, which returns the next line
of the text (`TcpSock.getLine_prompt`). A script sees the end of the text where no line is left. -/
lemma luaReadline_awaits (h : Awaits s text ended) :
    match arrivedLine ended text with
    | some (line, rest) => (luaReadline s).1 = some line ∧ Awaits (luaReadline s).2 rest ended
    | none => (luaReadline s).1 = none := by
  have hline := TcpSock.getLine_prompt TcpSock.isDropped LF 65535 h.delivers
  have hlimit : TcpSock.sizeLimit 65535 = 65535 := by decide
  rw [h.linebuf] at hline
  rw [luaReadline, TcpSock.readline_eq, hlimit]
  cases hnext : arrivedLine ended text with
  | some r =>
    rw [arrivedLine] at hnext
    rw [hnext] at hline
    obtain ⟨s', hget, hdelivers, hlinebuf, hconv⟩ := hline
    have hlen := (length_of_nextLine hnext).1
    rw [hget]
    refine ⟨?_, hdelivers, hlinebuf, hconv.trans h.convS2m⟩
    have hnonneg : 0 ≤ (Int32.ofNat r.1.length).toInt := by
      rw [Int32.toInt_ofNat_of_lt (by omega)]
      exact Int.natCast_nonneg _
    simp only [TcpSock.present, TcpSock.output, h.convS2m]
    exact if_pos hnonneg
  | none =>
    rw [arrivedLine] at hnext
    rw [hnext] at hline
    rcases hget : s.getLine (scanLine TcpSock.isDropped LF 65535) with ⟨l | _ | _, s'⟩
    · exact absurd (congrArg Prod.fst hget) (hline l)
    · rfl
    · rfl

/-- The loop at a line. -/
lemma headerLoop_of_line {line : Bytes} (h : (luaReadline s).1 = some line) (vars : HeaderVars) :
    headerLoop s vars =
      if line = [] then (.vars vars, (luaReadline s).2)
      else match headerLine vars line with
        | .vars vars => headerLoop (luaReadline s).2 vars
        | .failed => (.failed, (luaReadline s).2)
        | .raised => (.raised, (luaReadline s).2) := by
  rw [headerLoop]
  split
  · rename_i heq
    rw [h] at heq
    cases heq
  · rename_i l heq
    obtain rfl := Option.some.inj (h.symm.trans heq)
    rfl

/-- The loop without a line. -/
lemma headerLoop_of_none (h : (luaReadline s).1 = none) (vars : HeaderVars) :
    headerLoop s vars = (.failed, (luaReadline s).2) := by
  rw [headerLoop]
  split
  · rfl
  · rename_i l heq
    rw [h] at heq
    cases heq

/-- The lines of a text from one on. -/
lemma headerLines_of_line {line rest : Bytes} (h : arrivedLine ended text = some (line, rest))
    (vars : HeaderVars) :
    headerLines ended text vars =
      if line = [] then (.vars vars, rest)
      else match headerLine vars line with
        | .vars vars => headerLines ended rest vars
        | .failed => (.failed, [])
        | .raised => (.raised, []) := by
  rw [headerLines]
  split
  · rename_i heq
    rw [h] at heq
    cases heq
  · rename_i l r heq
    obtain ⟨rfl, rfl⟩ := Prod.mk.inj (Option.some.inj (h.symm.trans heq))
    rfl

/-- A text without a line. -/
lemma headerLines_of_none (h : arrivedLine ended text = none) (vars : HeaderVars) :
    headerLines ended text vars = (.failed, []) := by
  rw [headerLines]
  split
  · rfl
  · rename_i l r heq
    rw [h] at heq
    cases heq

/-- **The lines of a header** come as they are in the text.

**Proof sketch.** By induction on the length of the text: a line of the header is the next one of
the text, and what is left is shorter. -/
lemma headerLoop_awaits (h : Awaits s text ended) (vars : HeaderVars) :
    (headerLoop s vars).1 = (headerLines ended text vars).1 ∧
      ∀ vars', (headerLines ended text vars).1 = .vars vars' →
        Awaits (headerLoop s vars).2 (headerLines ended text vars).2 ended := by
  induction hn : text.length using Nat.strong_induction_on generalizing s text vars with
  | _ n ih =>
    subst hn
    have hline := luaReadline_awaits h
    cases hnext : arrivedLine ended text with
    | none =>
      rw [hnext] at hline
      rw [headerLoop_of_none hline, headerLines_of_none hnext]
      exact ⟨rfl, fun vars' h => by cases h⟩
    | some r =>
      obtain ⟨line, rest⟩ := r
      rw [hnext] at hline
      obtain ⟨hsome, hrest⟩ := hline
      rw [headerLoop_of_line hsome, headerLines_of_line hnext]
      split_ifs with hempty
      · exact ⟨rfl, fun _ _ => hrest⟩
      · cases headerLine vars line with
        | vars vars => exact ih _ (length_of_nextLine hnext).2 hrest vars rfl
        | failed => exact ⟨rfl, fun vars' h => by cases h⟩
        | raised => exact ⟨rfl, fun vars' h => by cases h⟩

/-- A read that brings bytes. -/
lemma sockReadAll_of_read {buf : Bytes} {s' : TcpSock}
    (h : s.timedReadNolock 1024 = (.read buf, s')) :
    (sockReadAll s).1 = buf ++ (sockReadAll s').1 := by
  rw [sockReadAll]
  split
  · rename_i b t heq
    obtain ⟨hb, rfl⟩ := Prod.mk.inj (h.symm.trans heq)
    obtain rfl := ReadResult.read.inj hb
    rfl
  · rename_i t heq
    cases (Prod.mk.inj (h.symm.trans heq)).1
  · rename_i t heq
    cases (Prod.mk.inj (h.symm.trans heq)).1

/-- A read that brings nothing. -/
lemma sockReadAll_of_nothing (h : ∀ buf, (s.timedReadNolock 1024).1 ≠ .read buf) :
    (sockReadAll s).1 = [] := by
  rw [sockReadAll]
  split
  · rename_i b t heq
    exact absurd (congrArg Prod.fst heq) (h b)
  · rfl
  · rfl

/-- **The rest of the text** is what is read to the end.

**Proof sketch.** By induction on what can be read. A read brings the next bytes of the text, and
where nothing comes any more, the text is at its end. -/
lemma sockReadAll_awaits (h : Awaits s text ended) : (sockReadAll s).1 = text := by
  induction hn : s.readable using Nat.strong_induction_on generalizing s text with
  | _ n ih =>
    subst hn
    by_cases hs : s.status = .connected
    · rcases TcpSock.read_prompt hs (show 1024 ≠ 0 by decide) with
        ⟨hnil, -, hread⟩ | ⟨hnil, -, net, hread⟩ | ⟨buf, s', hread, hleaves, -, hbuffer⟩
      · rw [sockReadAll_of_nothing (by simp [hread]), ← h.delivers.prompt, hnil]
      · rw [sockReadAll_of_nothing (by simp [hread]), ← h.delivers.prompt, hnil]
      · have hlen := h.delivers.readBuffer
        have hrest : Awaits s' s'.prompt ended :=
          { delivers :=
              { readBuffer := by
                  rw [hbuffer, List.length_drop]
                  omega
                prompt := rfl
                ends := hleaves.ends.trans h.delivers.ends
                closed := fun hclosed => absurd hleaves.status hclosed }
            linebuf := hleaves.linebuf.trans h.linebuf
            convS2m := hleaves.convS2m.trans h.convS2m }
        rw [sockReadAll_of_read hread, ih _ hleaves.readable hrest rfl, ← hleaves.prompt,
          h.delivers.prompt]
    · rw [(h.delivers.closed hs).1]
      exact sockReadAll_of_nothing (by simp [TcpSock.timedReadNolock, hs])

/-- A connection that has just been made awaits what arrives. -/
lemma awaits_connected (net : List Arrival) :
    Awaits (.connected none net) (stream (untilTimeout net)) (!net.contains .timeout) where
  delivers := ⟨Nat.zero_le _, rfl, rfl, fun h => absurd rfl h⟩
  linebuf := rfl
  convS2m := rfl

/-- The page that a socket reads is the one in the text.

**Proof sketch.** The status line, the lines of the header and the rest are read one after another;
for each of them there is a lemma above. -/
lemma getHttp_awaits (h : Awaits s text ended) : getHttp s = response ended text := by
  have hline := luaReadline_awaits h
  rw [getHttp, getHttpHeader, response]
  cases hnext : arrivedLine ended text with
  | none =>
    rw [hnext] at hline
    simp only [hline]
  | some r =>
    obtain ⟨line, rest⟩ := r
    rw [hnext] at hline
    obtain ⟨hsome, hrest⟩ := hline
    simp only [hsome]
    cases statusVars line with
    | none => rfl
    | some vars =>
      obtain ⟨houtcome, hawaits⟩ := headerLoop_awaits hrest vars
      rcases hloop : headerLoop (luaReadline s).2 vars with ⟨outcome, s'⟩
      rcases hlines : headerLines ended rest vars with ⟨outcome', data⟩
      rw [hloop, hlines] at houtcome hawaits
      dsimp only at houtcome hawaits
      subst houtcome
      cases outcome with
      | failed => simp only [hloop, hlines]
      | raised => simp only [hloop, hlines]
      | vars vars' => simp only [hloop, hlines, sockReadAll_awaits (hawaits vars' rfl)]

end Arrived

/-- **A page does not depend on the pieces in which it arrives**: what `get_http` returns is the
page in the text that arrives before a timeout, and it depends on whether the connection ends
there. -/
theorem getHttp_eq (net : List Arrival) :
    getHttp (.connected none net) =
      response (!net.contains .timeout) (stream (untilTimeout net)) :=
  getHttp_awaits (awaits_connected net)

end Meowbot
