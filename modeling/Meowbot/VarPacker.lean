import Meowbot.LuaText

set_option relaxedAutoImplicit false
set_option autoImplicit false

/-!
# Saving Lua values (`lualibs/varpacker.lua`)

The values of modules are written to a file as Lua source and read by running it. There are two
writers, which differ in the space that they write.

## Main definitions

* `Meowbot.escapeString` — the six substitutions.
* `Meowbot.PackLayout` — the space between the tokens; `Meowbot.packVarToString`,
  `Meowbot.packVarToStringOneline` — the two writers.
* `Meowbot.LuaValue.Plain` — the values that can be saved.

## Main results

* `Meowbot.pack_roundTrip` — what is written is read as the value, and nothing behind it is touched.
-/

namespace Meowbot

/-! ## The writers -/

/-- `string.gsub(str, c, repl)`, for a pattern that is one byte. -/
def gsubByte (str : Bytes) (c : Byte) (repl : Bytes) : Bytes :=
  str.flatMap fun b => if b = c then repl else [b]

/-- `escape_string` -/
def escapeString (str : Bytes) : Bytes :=
  let str := gsubByte str '\\' (bytes "\\\\")
  let str := gsubByte str '\'' (bytes "\\'")
  let str := gsubByte str doubleQuote (bytes "\\\"")
  let str := gsubByte str LF (bytes "\\n")
  let str := gsubByte str 9 (bytes "\\t")
  gsubByte str CR (bytes "\\r")

/-- The space that a writer puts between the tokens of a table at some depth. That it is space,
which a reader of Lua skips, is part of the layout; so both writers are read back by one theorem.
-/
structure PackLayout where
  opening : ℕ → Bytes
  first : Bytes
  between : Bytes
  indent : ℕ → Bytes
  around : Bytes
  closing : ℕ → Bytes
  opening_space : ∀ depth, ∀ c ∈ opening depth, isSpaceByte c
  first_space : ∀ c ∈ first, isSpaceByte c
  between_space : ∀ c ∈ between, isSpaceByte c
  indent_space : ∀ depth, ∀ c ∈ indent depth, isSpaceByte c
  around_space : ∀ c ∈ around, isSpaceByte c
  closing_space : ∀ depth, ∀ c ∈ closing depth, isSpaceByte c

/-- `'` around an escaped string. -/
def quoted (s : Bytes) : Bytes := ('\'' : Byte) :: (escapeString s ++ [('\'' : Byte)])

/-- What a writer puts between the brackets of a key. Other keys than numbers and strings are left
out together with their values. -/
def LuaKey.text : LuaKey → Option Bytes
  | .number n => some (luaNumber2str n)
  | .string s => some (quoted s)
  | .other => none

mutual

/-- The text of a value in a layout, at some depth. A value of another type is written as a string
that says so, as in the source. -/
def packValue (L : PackLayout) (depth : ℕ) : LuaValue → Bytes
  | .nil => bytes "nil"
  | .boolean b => bytes (if b then "true" else "false")
  | .number n => luaNumber2str n
  | .string s => quoted s
  | .table fields =>
    L.opening depth ++ ('{' : Byte) :: (L.first ++ (packFields L depth true fields ++
      (L.closing depth ++ [('}' : Byte)])))
  | .other => bytes "'[unknown varible type]'"

/-- The text of the fields of a table: all of them, or those behind others, which a comma comes in
front of. A key that has no text is left out, with its value. -/
def packFields (L : PackLayout) (depth : ℕ) (isFirst : Bool) : List (LuaKey × LuaValue) → Bytes
  | [] => []
  | (key, value) :: fields =>
    (if isFirst then [] else (',' : Byte) :: L.between) ++ (L.indent depth ++
      (match key.text with
        | some text =>
          ('[' : Byte) :: (text ++ (']' : Byte) :: (L.around ++ ('=' : Byte) :: (L.around ++
            packValue L (depth + 1) value)))
        | none => []) ++
      packFields L depth false fields)

end

/-- `string.rep('\t', n)` -/
def tabs (n : ℕ) : Bytes := List.replicate n 9

/-- Tabs are space. -/
lemma isSpaceByte_of_mem_tabs {n : ℕ} {c : Byte} (h : c ∈ tabs n) : isSpaceByte c := by
  rw [List.eq_of_mem_replicate h]
  rfl

/-- Nothing but the tokens, as `pack_var_to_string_oneline` writes them. -/
def onelineLayout : PackLayout where
  opening _ := []
  first := []
  between := []
  indent _ := []
  around := []
  closing _ := []
  opening_space _ := nofun
  first_space := nofun
  between_space := nofun
  indent_space _ := nofun
  around_space := nofun
  closing_space _ := nofun

/-- A line for every field, indented by its depth, as `pack_var_to_string` writes them. -/
def linesLayout : PackLayout where
  opening depth := if depth ≠ 0 then LF :: tabs depth else tabs depth
  first := bytes "\n"
  between := bytes " \n"
  indent depth := tabs (depth + 1)
  around := bytes " "
  closing depth := LF :: tabs depth
  opening_space depth c hc := by
    split_ifs at hc
    · rcases List.mem_cons.mp hc with rfl | hc
      · rfl
      · exact isSpaceByte_of_mem_tabs hc
    · exact isSpaceByte_of_mem_tabs hc
  first_space := List.all_eq_true.mp rfl
  between_space := List.all_eq_true.mp rfl
  indent_space depth c hc := isSpaceByte_of_mem_tabs hc
  around_space := List.all_eq_true.mp rfl
  closing_space depth c hc := by
    rcases List.mem_cons.mp hc with rfl | hc
    · rfl
    · exact isSpaceByte_of_mem_tabs hc

/-- `pack_var_to_string_oneline` -/
def packVarToStringOneline (var : LuaValue) : Bytes := packValue onelineLayout 0 var

/-- `pack_var_to_string`, with the depth that a call without one starts at. -/
def packVarToString (var : LuaValue) : Bytes := packValue linesLayout 0 var

/-! ## The values that can be saved -/

/-- A string, or a number that is printed with all its digits. -/
def LuaKey.Plain : LuaKey → Prop
  | .number n => n.natAbs < 10 ^ precision
  | .string _ => True
  | .other => False

mutual

/-- **The values that can be saved**: strings, booleans, numbers that are printed with all their
digits, and tables of these, with keys that are strings or such numbers. -/
def LuaValue.Plain : LuaValue → Prop
  | .boolean _ => True
  | .number n => n.natAbs < 10 ^ precision
  | .string _ => True
  | .table fields => (fields.map Prod.fst).Nodup ∧ PlainFields fields
  | .nil => False
  | .other => False

/-- The keys and values of a table can be saved. -/
def PlainFields : List (LuaKey × LuaValue) → Prop
  | [] => True
  | (key, value) :: fields => key.Plain ∧ value.Plain ∧ PlainFields fields

end

mutual

/-- The fuel that reading a value takes. -/
def LuaValue.fuel : LuaValue → ℕ
  | .table fields => fieldsFuel fields + 1
  | _ => 1

/-- The fuel that reading fields takes. -/
def fieldsFuel : List (LuaKey × LuaValue) → ℕ
  | [] => 1
  | (_, value) :: fields => max value.fuel (fieldsFuel fields) + 1

end

/-- Reading takes some fuel. -/
lemma LuaValue.fuel_pos (value : LuaValue) : 0 < value.fuel := by
  cases value <;> simp [LuaValue.fuel]

/-! ## Escaping -/

/-- What becomes of one byte: a backslash, a quote, the end of a line and a tab are written with a
backslash, and any other byte as it is. -/
def escapeByte (c : Byte) : Bytes :=
  if c = '\\' then bytes "\\\\"
  else if c = '\'' then bytes "\\'"
  else if c = doubleQuote then bytes "\\\""
  else if c = LF then bytes "\\n"
  else if c = 9 then bytes "\\t"
  else if c = CR then bytes "\\r"
  else [c]

/-- **The substitutions do not disturb each other**: the backslash comes first.

**Proof sketch.** The substitutions are one map of bytes after another. For each byte that is
escaped, the later ones do not touch what an earlier one has written, since none of them is about a
letter or, after the first, about the backslash. -/
lemma escapeString_eq (s : Bytes) : escapeString s = s.flatMap escapeByte := by
  simp only [escapeString, gsubByte, List.flatMap_assoc]
  congr 1
  funext c
  unfold escapeByte
  by_cases h1 : c = ('\\' : Byte)
  · subst h1
    rfl
  by_cases h2 : c = ('\'' : Byte)
  · subst h2
    rfl
  by_cases h3 : c = doubleQuote
  · subst h3
    rfl
  by_cases h4 : c = LF
  · subst h4
    rfl
  by_cases h5 : c = 9
  · subst h5
    rfl
  by_cases h6 : c = CR
  · subst h6
    rfl
  · simp only [if_neg h1, if_neg h2, if_neg h3, if_neg h4, if_neg h5, if_neg h6,
      List.flatMap_cons, List.flatMap_nil, List.append_nil]

/-- **An escaped string ends where its quote is**, and is read as the string.

**Proof sketch.** By induction on the string: each byte is read back from the way it is written,
which is either itself or a backslash with a letter, and no quote is among them without a backslash.
-/
lemma readLuaString_escapeString (s rest : Bytes) :
    readLuaString '\'' (escapeString s ++ ('\'' : Byte) :: rest) = some (s, rest) := by
  rw [escapeString_eq]
  induction s with
  | nil => exact readLuaString_quote _ _
  | cons c s ih =>
    rw [List.flatMap_cons, List.append_assoc]
    have hescape : ∀ e : Byte, unescape e = some c → escapeByte c = [('\\' : Byte), e] →
        readLuaString '\'' (escapeByte c ++ (s.flatMap escapeByte ++ ('\'' : Byte) :: rest)) =
          some (c :: s, rest) := by
      intro e he htext
      rw [htext]
      exact readLuaString_escape (by decide) he ih
    by_cases h1 : c = ('\\' : Byte)
    · subst h1
      exact hescape '\\' rfl rfl
    by_cases h2 : c = ('\'' : Byte)
    · subst h2
      exact hescape '\'' rfl rfl
    by_cases h3 : c = doubleQuote
    · subst h3
      exact hescape doubleQuote rfl rfl
    by_cases h4 : c = LF
    · subst h4
      exact hescape 'n' rfl rfl
    by_cases h5 : c = 9
    · subst h5
      exact hescape 't' rfl rfl
    by_cases h6 : c = CR
    · subst h6
      exact hescape 'r' rfl rfl
    have htext : escapeByte c = [c] := by
      simp only [escapeByte, if_neg h1, if_neg h2, if_neg h3, if_neg h4, if_neg h5, if_neg h6]
    rw [htext]
    exact readLuaString_plain h2 (not_or.mpr ⟨h4, h6⟩) h1 ih

/-- A quoted string is read as the string. -/
lemma readLuaExpr_string (fuel : ℕ) (s rest : Bytes) :
    readLuaExpr (fuel + 1) (quoted s ++ rest) = some (.string s, rest) := by
  rw [quoted, List.cons_append, List.append_assoc]
  exact readLuaExpr_quoted fuel (readLuaString_escapeString s rest)

/-! ## Reading what was written -/

/-- Space is neither a name nor a point. -/
lemma isSpaceByte_ends {c : Byte} (h : isSpaceByte c) : isNameByte c = false ∧ c ≠ '.' := by
  have hvalues : ∀ c, isSpaceByte c → isNameByte c = false ∧ c ≠ '.' :=
    forall_byte (by decide +kernel)
  exact hvalues c h

/-- A token behind space ends the token in front of it. -/
lemma endsToken_space {space : Bytes} (h : ∀ c ∈ space, isSpaceByte c) {c : Byte}
    (hc : isNameByte c = false ∧ c ≠ '.') (rest : Bytes) : EndsToken (space ++ c :: rest) := by
  have hends : ∀ d ∈ (space ++ c :: rest).head?, isNameByte d = false ∧ d ≠ '.' := by
    intro d hd
    rcases space with _ | ⟨b, space⟩
    · obtain rfl := Option.some.inj hd
      exact hc
    · obtain rfl := Option.some.inj hd
      exact isSpaceByte_ends (h _ List.mem_cons_self)
  exact ⟨fun d hd => (hends d hd).1, fun d hd => decide_eq_false (hends d hd).2⟩

/-- A token ends the token in front of it. -/
lemma endsToken_cons {c : Byte} (hc : isNameByte c = false ∧ c ≠ '.') (rest : Bytes) :
    EndsToken (c :: rest) := @endsToken_space [] nofun c hc rest

/-- The text of a key is read as the key. -/
lemma readLuaExpr_key (fuel : ℕ) {key : LuaKey} (hkey : key.Plain) {text : Bytes}
    (htext : key.text = some text) (rest : Bytes) :
    ∃ k : LuaValue, k.toKey = some key ∧
      readLuaExpr (fuel + 1) (text ++ (']' : Byte) :: rest) = some (k, (']' : Byte) :: rest) := by
  cases key with
  | number n =>
    obtain rfl := Option.some.inj htext
    exact ⟨.number n, rfl, readLuaExpr_number2str fuel hkey
      (endsToken_cons (by decide) rest)⟩
  | string s =>
    obtain rfl := Option.some.inj htext
    exact ⟨.string s, rfl, readLuaExpr_string fuel s _⟩
  | other => cases htext

/-- A key that is not there yet is added behind the others. -/
lemma LuaFields.set_of_notMem {fields : LuaFields} {key : LuaKey} (h : key ∉ fields.map Prod.fst)
    (value : LuaValue) : LuaFields.set fields key value = fields ++ [(key, value)] := by
  induction fields with
  | nil => rfl
  | cons f fields ih =>
    obtain ⟨key', value'⟩ := f
    obtain ⟨hne, hrest⟩ := not_or.mp (mt List.mem_cons.mpr h)
    rw [LuaFields.set, if_neg (Ne.symm hne), ih hrest]
    rfl

/-- **One field** is read: what is behind its value decides how the table goes on.

**Proof sketch.** The parts are read in their order: the key in brackets, the sign, and the value.
What comes behind the value is left to the rest of the table. -/
lemma readLuaFields_field (L : PackLayout) (depth fuel : ℕ) {fields : LuaFields} {key : LuaKey}
    {value : LuaValue} (hkey : key.Plain) (hnew : key ∉ fields.map Prod.fst) {text valueText rest : Bytes}
    (htext : key.text = some text)
    (hvalue : readLuaExpr (fuel + 1) (valueText ++ rest) = some (value, rest)) :
    readLuaFields (fuel + 2) fields (L.indent depth ++ ('[' : Byte) :: (text ++ (']' : Byte) ::
        (L.around ++ ('=' : Byte) :: (L.around ++ (valueText ++ rest))))) =
      match skipSpace rest with
      | [] => none
      | c :: s =>
        if c = ',' ∨ c = ';' then readLuaFields (fuel + 1) (fields ++ [(key, value)]) s
        else if c = '}' then some (.table (fields ++ [(key, value)]), s)
        else none := by
  obtain ⟨k, hk, hread⟩ := readLuaExpr_key fuel hkey htext
    (L.around ++ ('=' : Byte) :: (L.around ++ (valueText ++ rest)))
  have hbracket : ∀ s, expectByte ']' ((']' : Byte) :: s) = some s :=
    expectByte_cons (by decide)
  have hequals := expectByte_space L.around_space (c := '=') (by decide)
    (L.around ++ (valueText ++ rest))
  have hspace := (readLuaExpr_space L.around_space (fuel + 1) (valueText ++ rest)).trans hvalue
  rw [readLuaFields_space (L.indent_space depth), readLuaFields, skipSpace_cons (by decide)]
  change (readLuaExpr (fuel + 1) _ >>= _) = _
  simp only [hread, Option.bind_eq_bind, Option.bind_some, hk, hbracket, hequals]
  rw [hspace]
  cases hrest : skipSpace rest <;> simp only [Option.bind_some, LuaFields.set_of_notMem hnew, hrest]

/-- What is behind a value in a table: the other fields, and the end. -/
lemma endsToken_packFields (L : PackLayout) (depth : ℕ) (fields : LuaFields) (rest : Bytes) :
    EndsToken (packFields L depth false fields ++ (L.closing depth ++ ('}' : Byte) :: rest)) := by
  rcases fields with _ | ⟨⟨key, value⟩, fields⟩
  · exact endsToken_space (L.closing_space depth) (by decide) rest
  · rw [packFields, if_neg Bool.false_ne_true, List.append_assoc, List.cons_append]
    exact endsToken_cons (by decide) _

/-- The fields behind another one: a comma, and the fields as at the start. -/
lemma packFields_cons (L : PackLayout) (depth : ℕ) (f : LuaKey × LuaValue) (fields : LuaFields) :
    packFields L depth false (f :: fields) =
      (',' : Byte) :: (L.between ++ packFields L depth true (f :: fields)) := by
  obtain ⟨key, value⟩ := f
  rw [packFields, packFields, if_neg Bool.false_ne_true, if_pos rfl]
  simp

/-- A key that can be saved has a text. -/
lemma LuaKey.Plain.exists_text {key : LuaKey} (h : key.Plain) : ∃ text, key.text = some text := by
  cases key with
  | number n => exact ⟨_, rfl⟩
  | string s => exact ⟨_, rfl⟩
  | other => exact h.elim

mutual

/-- **A value is read where it has been written**, in every layout and at every depth.

**Proof sketch.** By induction on the value. A string ends at its quote, a number and a constant at
the token behind them, and a table at its brace. -/
lemma readLuaExpr_packValue (L : PackLayout) : ∀ (value : LuaValue), value.Plain →
    ∀ (depth fuel : ℕ), value.fuel ≤ fuel → ∀ rest, EndsToken rest →
      readLuaExpr fuel (packValue L depth value ++ rest) = some (value, rest)
  | .boolean b, _, depth, fuel + 1, _, rest, hrest => by
    rw [packValue]
    exact readLuaExpr_boolean fuel b hrest
  | .number n, hn, depth, fuel + 1, _, rest, hrest => by
    rw [packValue]
    exact readLuaExpr_number2str fuel hn hrest
  | .string s, _, depth, fuel + 1, _, rest, _ => by
    rw [packValue]
    exact readLuaExpr_string fuel s rest
  | .table fields, hplain, depth, fuel + 1, hfuel, rest, _ => by
    rw [LuaValue.Plain] at hplain
    rw [LuaValue.fuel] at hfuel
    have hfields := readLuaFields_packFields L fields hplain.2 [] hplain.1 depth fuel (by omega) rest
    rw [packValue, List.append_assoc, List.cons_append, readLuaExpr_space (L.opening_space depth),
      readLuaExpr_table, List.append_assoc, readLuaFields_space L.first_space]
    simpa using hfields

/-- **The fields of a table are read** behind others.

**Proof sketch.** By recursion on the fields. One field is read by `readLuaFields_field`; behind the
comma come the others, and behind the last one the table is closed. -/
lemma readLuaFields_packFields (L : PackLayout) : ∀ (fields : LuaFields), PlainFields fields →
    ∀ (before : LuaFields), ((before ++ fields).map Prod.fst).Nodup → ∀ (depth fuel : ℕ),
      fieldsFuel fields ≤ fuel → ∀ rest,
        readLuaFields fuel before (packFields L depth true fields ++
          (L.closing depth ++ ('}' : Byte) :: rest)) = some (.table (before ++ fields), rest)
  | [], _, before, _, depth, fuel + 1, _, rest => by
    rw [packFields, List.nil_append, readLuaFields_space (L.closing_space depth), readLuaFields,
      skipSpace_cons (by decide), List.append_nil]
    exact if_pos rfl
  | (key, value) :: fields, hplain, before, hnodup, depth, fuel, hfuel, rest => by
    obtain ⟨hkey, hvalue, hfields⟩ := hplain
    have hpos := value.fuel_pos
    rw [fieldsFuel] at hfuel
    obtain ⟨fuel, rfl⟩ := Nat.exists_eq_add_of_le' (show 2 ≤ fuel by omega)
    obtain ⟨text, htext⟩ := hkey.exists_text
    have hnew : key ∉ before.map Prod.fst := by
      rw [List.map_append, List.map_cons] at hnodup
      exact fun hmem => (List.nodup_append.mp hnodup).2.2 key hmem key List.mem_cons_self rfl
    have hassoc : before ++ (key, value) :: fields = (before ++ [(key, value)]) ++ fields := by simp
    set tail := packFields L depth false fields ++ (L.closing depth ++ ('}' : Byte) :: rest) with htail
    have hread := readLuaExpr_packValue L value hvalue (depth + 1) (fuel + 1) (by omega) tail
      (endsToken_packFields L depth fields rest)
    have hrest := readLuaFields_packFields L fields hfields (before ++ [(key, value)])
      (hassoc ▸ hnodup) depth (fuel + 1) (by omega) rest
    have hsplit : packFields L depth true ((key, value) :: fields) ++
        (L.closing depth ++ ('}' : Byte) :: rest) =
        L.indent depth ++ ('[' : Byte) :: (text ++ (']' : Byte) :: (L.around ++ ('=' : Byte) ::
          (L.around ++ (packValue L (depth + 1) value ++ tail)))) := by
      rw [packFields, if_pos rfl, htext, htail]
      simp only [List.nil_append, List.append_assoc, List.cons_append]
    rw [hsplit, readLuaFields_field L depth fuel hkey hnew htext hread, htail, hassoc]
    rcases fields with _ | ⟨f, fields⟩
    · rw [packFields, List.nil_append, skipSpace_append (L.closing_space depth),
        skipSpace_cons (by decide), List.append_nil]
      rfl
    · rw [packFields_cons, List.cons_append, skipSpace_cons (by decide), List.append_assoc]
      refine Eq.trans ?_ hrest
      exact readLuaFields_space L.between_space _ _ _

end

/-! ## Files -/

/-- The words that are not names. -/
def luaReserved : List Bytes :=
  ["and", "break", "continue", "do", "else", "elseif", "end", "false", "for", "function", "if", "in",
    "local", "nil", "not", "or", "repeat", "return", "then", "true", "until", "while"].map bytes

/-- A name: a word that does not start with a digit and is not reserved. -/
def isLuaName (s : Bytes) : Bool :=
  !s.isEmpty && s.all isNameByte && s.head?.all (fun c => !isDigitByte c) && !luaReserved.contains s

/-- `save_var_to_file`: what is written to the file. -/
def saveVarToFile (varlist : List (Bytes × LuaValue)) : Bytes :=
  varlist.flatMap (fun v => v.1 ++ bytes " = " ++ packVarToString v.2 ++ bytes ";\n") ++ bytes "\n"

/-- `dofile_nr`: the assignments that the file makes, in order, if it consists of assignments of
expressions to names, with a semicolon behind each. -/
def dofileNr : ℕ → Bytes → Option (List (Bytes × LuaValue))
  | 0, _ => none
  | fuel + 1, s =>
    match skipSpace s with
    | [] => some []
    | c :: s => do
      let name := (c :: s).takeWhile isNameByte
      if isLuaName name then
        let s ← expectByte '=' ((c :: s).dropWhile isNameByte)
        let (value, s) ← readLuaExpr fuel s
        let s ← expectByte ';' s
        let varlist ← dofileNr fuel s
        return (name, value) :: varlist
      else none

/-- Space in front of an assignment does not count. -/
lemma dofileNr_space {space : Bytes} (h : ∀ c ∈ space, isSpaceByte c) (fuel : ℕ) (s : Bytes) :
    dofileNr fuel (space ++ s) = dofileNr fuel s := by
  cases fuel with
  | zero => rfl
  | succ fuel => rw [dofileNr, dofileNr, skipSpace_append h]

/-- **One assignment** is read.

**Proof sketch.** The name is what can be taken of letters and digits, as a space follows it; then
come the sign, the value, and the semicolon, in front of which the value ends. -/
lemma dofileNr_assign {name : Bytes} (hname : isLuaName name) {value : LuaValue}
    (hplain : value.Plain) {fuel : ℕ} (hfuel : value.fuel ≤ fuel) (rest : Bytes) :
    dofileNr (fuel + 1) (name ++ (bytes " = " ++ (packVarToString value ++ (bytes ";\n" ++ rest)))) =
      (dofileNr fuel rest).map fun varlist => (name, value) :: varlist := by
  have hspace : ∀ c ∈ bytes " ", isSpaceByte c := List.all_eq_true.mp rfl
  have hname' := hname
  simp only [isLuaName, Bool.and_eq_true, Bool.not_eq_true', List.isEmpty_eq_false_iff,
    List.all_eq_true] at hname'
  obtain ⟨⟨⟨hne, hbytes⟩, -⟩, -⟩ := hname'
  set tail := bytes " = " ++ (packVarToString value ++ (bytes ";\n" ++ rest)) with htail
  have hstops : Stops isNameByte tail := fun c hc => by
    obtain rfl := Option.some.inj hc
    rfl
  have htake := takeWhile_append_of_stops hbytes hstops
  have hdrop := dropWhile_append_of_stops hbytes hstops
  have hequals : expectByte '=' tail =
      some (bytes " " ++ (packVarToString value ++ (bytes ";\n" ++ rest))) :=
    expectByte_space hspace (by decide) _
  have hread : readLuaExpr fuel (bytes " " ++ (packVarToString value ++ (bytes ";\n" ++ rest))) =
      some (value, bytes ";\n" ++ rest) :=
    (readLuaExpr_space hspace _ _).trans (readLuaExpr_packValue linesLayout value hplain 0 fuel hfuel _
      (endsToken_cons (c := ';') (by decide) _))
  have hsemicolon : expectByte ';' (bytes ";\n" ++ rest) = some (bytes "\n" ++ rest) :=
    expectByte_cons (by decide) _
  have hline : dofileNr fuel (bytes "\n" ++ rest) = dofileNr fuel rest :=
    dofileNr_space (List.all_eq_true.mp rfl) _ _
  obtain ⟨c, name', rfl⟩ := List.exists_cons_of_ne_nil hne
  have hc : isSpaceByte c = false := by
    by_contra hc
    rw [Bool.not_eq_false] at hc
    have hword := hbytes c List.mem_cons_self
    rw [(isSpaceByte_ends hc).1] at hword
    cases hword
  rw [List.cons_append] at htake hdrop ⊢
  rw [dofileNr, skipSpace_cons hc]
  simp only [htake, hdrop, if_pos hname, hequals, hread, hsemicolon, hline, Option.bind_eq_bind,
    Option.bind_some]
  cases dofileNr fuel rest <;> rfl

/-- **A file is read as it was written.**

**Proof sketch.** By induction on the variables, by `dofileNr_assign` for the first of them. -/
lemma dofileNr_saveVarToFile {varlist : List (Bytes × LuaValue)}
    (hvars : ∀ v ∈ varlist, isLuaName v.1 ∧ v.2.Plain) {fuel : ℕ}
    (hfuel : ∀ v ∈ varlist, v.2.fuel + varlist.length ≤ fuel) (hpos : varlist.length < fuel) :
    dofileNr fuel (saveVarToFile varlist) = some varlist := by
  induction varlist generalizing fuel with
  | nil =>
    obtain ⟨fuel, rfl⟩ := Nat.exists_eq_add_of_le' hpos
    rfl
  | cons v varlist ih =>
    obtain ⟨⟨hname, hplain⟩, hvars⟩ := List.forall_mem_cons.mp hvars
    obtain ⟨hvfuel, hfuel⟩ := List.forall_mem_cons.mp hfuel
    obtain ⟨fuel, rfl⟩ := Nat.exists_eq_add_of_le' (Nat.one_le_of_lt hpos)
    rw [List.length_cons] at hvfuel hpos hfuel
    have hrest : dofileNr fuel (saveVarToFile varlist) = some varlist :=
      ih hvars (fun w hw => by have := hfuel w hw; omega) (by omega)
    have hsplit : saveVarToFile (v :: varlist) =
        v.1 ++ (bytes " = " ++ (packVarToString v.2 ++ (bytes ";\n" ++ saveVarToFile varlist))) := by
      simp only [saveVarToFile, List.flatMap_cons, List.append_assoc]
    rw [hsplit, dofileNr_assign hname hplain (by omega), hrest]
    rfl

/-- **Round trip**: both writers make a text that is read as the value, and whatever is behind the
text is left as it is; a file of any variables with such values is read as the assignments that were
saved.

**Proof sketch.** The two writers differ in the layout only, so both come from
`readLuaExpr_packValue`, which is by induction on the value. A file is read one assignment after the
other: a name ends at the space in front of the equals sign, and a value at the semicolon. -/
theorem pack_roundTrip :
    (∀ value : LuaValue, value.Plain → ∀ fuel ≥ value.fuel, ∀ rest, EndsToken rest →
      readLuaExpr fuel (packVarToString value ++ rest) = some (value, rest) ∧
      readLuaExpr fuel (packVarToStringOneline value ++ rest) = some (value, rest)) ∧
    ∀ varlist : List (Bytes × LuaValue), (∀ v ∈ varlist, isLuaName v.1 ∧ v.2.Plain) →
      ∀ fuel > varlist.length, (∀ v ∈ varlist, v.2.fuel + varlist.length ≤ fuel) →
        dofileNr fuel (saveVarToFile varlist) = some varlist := by
  refine ⟨fun value hplain fuel hfuel rest hrest => ⟨?_, ?_⟩, fun varlist hvars fuel hpos hfuel => ?_⟩
  · exact readLuaExpr_packValue linesLayout value hplain 0 fuel hfuel rest hrest
  · exact readLuaExpr_packValue onelineLayout value hplain 0 fuel hfuel rest hrest
  · exact dofileNr_saveVarToFile hvars hfuel hpos

/-- A table with quotes, line ends and a NUL in its strings, and a table in it. -/
def packedExample : LuaValue :=
  .table [(.string (bytes "a'] = os.exit() --\n"), .string [92, 39, 34, LF, 9, CR, 0, 255]),
    (.number (-5), .table [(.number 99999999999999, .boolean false), (.string [], .table [])])]

/-- The table is read as it was written, also from a file with another variable.

**Proof sketch.** The values are plain, which is decided, and the fuel is enough. -/
theorem pack_roundTrip_quotes :
    readLuaExpr 8 (packVarToString packedExample) = some (packedExample, []) ∧
      readLuaExpr 8 (packVarToStringOneline packedExample) = some (packedExample, []) ∧
      dofileNr 10 (saveVarToFile [(bytes "list", packedExample), (bytes "n", .number 7)]) =
        some [(bytes "list", packedExample), (bytes "n", .number 7)] := by
  have hplain : packedExample.Plain := by
    simp only [packedExample, LuaValue.Plain, PlainFields, LuaKey.Plain]
    decide
  obtain ⟨hvalue, hfile⟩ := pack_roundTrip
  obtain ⟨hlines, honeline⟩ := hvalue packedExample hplain 8 (by decide) [] ⟨nofun, nofun⟩
  rw [List.append_nil] at hlines honeline
  refine ⟨hlines, honeline, hfile _ ?_ 10 (by decide) ?_⟩
  · rintro v (_ | ⟨_, _ | ⟨_, hnil⟩⟩)
    · exact ⟨by decide, hplain⟩
    · exact ⟨by decide, by rw [LuaValue.Plain]; decide⟩
    · cases hnil
  · rintro v (_ | ⟨_, _ | ⟨_, hnil⟩⟩)
    · decide
    · decide
    · cases hnil

/-- **Keys that are not printed with all their digits** are read as other keys: `100000000000001` is
written as `1e+14`. -/
theorem not_pack_roundTrip :
    (100000000000001 : ℤ) ≠ 100000000000000 ∧ ∀ fuel,
      readLuaExpr (fuel + 3) (packVarToString (.table [(.number 100000000000001, .boolean true)])) =
        some (.table [(.number 100000000000000, .boolean true)], []) ∧
      readLuaExpr (fuel + 3)
          (packVarToStringOneline (.table [(.number 100000000000001, .boolean true)])) =
        some (.table [(.number 100000000000000, .boolean true)], []) := by
  have htext : luaNumber2str 100000000000001 = bytes "1e+14" := by decide +kernel
  refine ⟨by decide, fun fuel => ⟨?_, ?_⟩⟩
  · rw [packVarToString, packValue, packFields, LuaKey.text, htext]
    rfl
  · rw [packVarToStringOneline, packValue, packFields, LuaKey.text, htext]
    rfl

end Meowbot
