import Meowbot.MyAtoi

set_option relaxedAutoImplicit false
set_option autoImplicit false

/-!
# HTML entities (`etc.cpp`)

`decode_html_entities` goes over a text byte by byte. From an `&` on it collects a name, up to the
next `;`, and replaces it by the character of that name or number. A name that is not known is put
back.

A name that is not ended is put back without its `&`. What is behind a `#` goes to `my_atoi`, with
zero in front, so that it is replaced whether it is a number or not.

## Main definitions

* `Meowbot.entityList`, `Meowbot.decodeName`, `Meowbot.decodeHtmlEntities` — the source.
* `Meowbot.NoReference` — a text without references.
* `Meowbot.EntityPlain` — a text in which the names that are collected are put back.
* `Meowbot.IsWritten` — the ways to write a character.

## Main results

* `Meowbot.decodeHtmlEntities_eq_self_iff` — which texts without references are left alone.
* `Meowbot.decodeHtmlEntities_written` — a text that was written with references is read back.
-/

namespace Meowbot

/-! ## The source -/

/-- `&` -/
abbrev AMP : Byte := '&'

/-- `;` -/
abbrev SEMI : Byte := ';'

/-- `#` -/
abbrev HASH : Byte := '#'

/-- The table `entitylist`, in the order of the source: the names, and the texts that they stand
for. -/
def entityList : List (String × List Char) :=
  [("quot", ['"']), ("apos", ['\'']), ("amp", ['&']), ("lt", ['<']),
    ("gt", ['>']), ("nbsp", [' ']), ("iexcl", ['¡']), ("cent", ['¢']),
    ("pound", ['£']), ("curren", ['¤']), ("yen", ['¥']), ("brvbar", ['¦']),
    ("sect", ['§']), ("uml", ['¨']), ("copy", ['©']), ("ordf", ['ª']),
    ("laquo", ['«']), ("not", ['¬']), ("shy", ['\u00AD', ' ']), ("reg", ['®']),
    ("macr", ['¯']), ("deg", ['°']), ("plusmn", ['±']), ("sup2", ['²']),
    ("sup3", ['³']), ("acute", ['´']), ("micro", ['µ']), ("para", ['¶']),
    ("middot", ['·']), ("cedil", ['¸']), ("sup1", ['¹']), ("ordm", ['º']),
    ("raquo", ['»']), ("frac14", ['¼']), ("frac12", ['½']), ("frac34", ['¾']),
    ("iquest", ['¿']), ("times", ['×']), ("divide", ['÷'])]

/-- A name between `&` and `;`. -/
def putBack (ename : Bytes) : Bytes := AMP :: (ename ++ [SEMI])

/-- The number that is read from what is behind a `#`, with zero in front. -/
def nameCode (digits : Bytes) : UInt32 := (myAtoi ('0' :: digits)).toUInt32

/-- What is appended for a name at its `;`. A name that begins with `#` is a code point, and the
others are looked up; where there is nothing to append the reference is put back as it was. -/
def decodeName (ename : Bytes) : Bytes :=
  match ename with
  | [] => putBack ename
  | c :: digits =>
    if c = HASH then
      let (cl, buf) := utf8Encode (nameCode digits) 8
      if cl ≤ 0 then putBack ename else cstr (buf.take cl.toNat)
    else match entityList.find? fun e => bytes e.1 = ename with
      | some e => utf8Text e.2
      | none => putBack ename

/-- The variable `mode`, with the name that is collected. -/
inductive EntityMode where
  | findAmp
  | collect (ename : Bytes)

/-- The loop of `decode_html_entities`: what is appended from a place on. At the end of the text
what has been collected of a name is appended, without its `&`. -/
def entityLoop : EntityMode → Bytes → Bytes
  | .findAmp, [] => []
  | .collect ename, [] => ename
  | .findAmp, c :: p =>
    if c = AMP then entityLoop (.collect []) p else c :: entityLoop .findAmp p
  | .collect ename, c :: p =>
    if c = SEMI then decodeName ename ++ entityLoop .findAmp p
    else entityLoop (.collect (ename ++ [c])) p

/-- `decode_html_entities` -/
def decodeHtmlEntities (str : Bytes) : Bytes := entityLoop .findAmp (cstr str)

/-! ## The loop -/

/-- A text without `&` is left alone. -/
lemma entityLoop_text {t : Bytes} (h : AMP ∉ t) (rest : Bytes) :
    entityLoop .findAmp (t ++ rest) = t ++ entityLoop .findAmp rest := by
  induction t with
  | nil => rfl
  | cons c t ih =>
    obtain ⟨hc, ht⟩ := List.ne_and_not_mem_of_not_mem_cons h
    rw [List.cons_append, entityLoop, if_neg hc.symm, ih ht, List.cons_append]

/-- A name is collected up to its `;`. -/
lemma entityLoop_name {n : Bytes} (h : SEMI ∉ n) (ename rest : Bytes) :
    entityLoop (.collect ename) (n ++ SEMI :: rest) =
      decodeName (ename ++ n) ++ entityLoop .findAmp rest := by
  induction n generalizing ename with
  | nil => rw [List.nil_append, entityLoop, if_pos rfl, List.append_nil]
  | cons c n ih =>
    obtain ⟨hc, hn⟩ := List.ne_and_not_mem_of_not_mem_cons h
    rw [List.cons_append, entityLoop, if_neg hc.symm, ih hn, List.append_assoc,
      List.singleton_append]

/-- A name that is not ended is appended. -/
lemma entityLoop_end {n : Bytes} (h : SEMI ∉ n) (ename : Bytes) :
    entityLoop (.collect ename) n = ename ++ n := by
  induction n generalizing ename with
  | nil => rw [entityLoop, List.append_nil]
  | cons c n ih =>
    obtain ⟨hc, hn⟩ := List.ne_and_not_mem_of_not_mem_cons h
    rw [entityLoop, if_neg hc.symm, ih hn, List.append_assoc, List.singleton_append]

/-- **A name with its `&` and `;`** in a text. -/
lemma entityLoop_putBack {n : Bytes} (h : SEMI ∉ n) (rest : Bytes) :
    entityLoop .findAmp (putBack n ++ rest) = decodeName n ++ entityLoop .findAmp rest := by
  rw [putBack, List.cons_append, entityLoop, if_pos rfl, List.append_assoc, List.singleton_append,
    entityLoop_name h, List.nil_append]

/-- **The parts of a text**: there is no `&`, or a first one; then its name is ended, or not. -/
lemma entityLoop_cases (s : Bytes) :
    (AMP ∉ s) ∨
    (∃ t r, AMP ∉ t ∧ SEMI ∉ r ∧ s = t ++ AMP :: r) ∨
    (∃ t n r, AMP ∉ t ∧ SEMI ∉ n ∧ s = t ++ (putBack n ++ r)) := by
  by_cases hamp : AMP ∈ s
  · obtain ⟨t, r, rfl, ht⟩ := List.eq_append_cons_of_mem hamp
    by_cases hend : SEMI ∈ r
    · obtain ⟨n, r, rfl, hn⟩ := List.eq_append_cons_of_mem hend
      exact .inr (.inr ⟨t, n, r, ht, hn, by simp [putBack]⟩)
    · exact .inr (.inl ⟨t, r, ht, hend, rfl⟩)
  · exact .inl hamp

/-! ## Names -/

/-- A number of a character. -/
def IsScalar (n : UInt32) : Prop :=
  n.toNat ≤ 0x10FFFF ∧ ¬ (0xD800 ≤ n.toNat ∧ n.toNat ≤ 0xDFFF)

/-- **A name that is taken for a number**: there is a `#`, and what is behind it is read as the
number of a character, whatever it is. -/
def IsCodeName (n : Bytes) : Prop :=
  ∃ digits, n = HASH :: digits ∧ IsScalar (nameCode digits)

/-- A character is encoded if there is one. -/
lemma utf8Buf_eq_nil_iff (n : UInt32) : utf8Buf n = [] ↔ ¬ IsScalar n := by
  rw [utf8Buf, IsScalar]
  simp only [ge_iff_le, UInt32.le_iff_toNat_le, UInt32.reduceToNat]
  split_ifs <;> simp <;> omega

/-- What is appended for a number. -/
lemma decodeName_number (digits : Bytes) :
    decodeName (HASH :: digits) = if utf8Buf (nameCode digits) = [] then putBack (HASH :: digits)
      else cstr (utf8EncodeS (nameCode digits)) := by
  have hlen : (utf8Buf (nameCode digits)).length ≤ 4 := by
    unfold utf8Buf
    split_ifs <;> simp
  rw [decodeName, if_pos rfl, utf8EncodeS, utf8Encode]
  by_cases hnil : utf8Buf (nameCode digits) = []
  · simp [hnil]
  · have hpos := List.length_pos_iff.mpr hnil
    simp only [if_neg hnil, if_neg (show ¬ 8 < (utf8Buf (nameCode digits)).length by omega)]
    rw [if_neg (by omega)]

/-- **What is appended for a number** is shorter than the number.

**Proof sketch.** A character has at most four bytes, and the name of a number at least three, with
the two bytes around it. For a name with one byte behind its `#` all bytes are tried. -/
lemma length_decodeName_number {digits : Bytes} (h : IsScalar (nameCode digits)) :
    (decodeName (HASH :: digits)).length < (putBack (HASH :: digits)).length := by
  have hle : ∀ n, (cstr (utf8EncodeS n)).length ≤ 4 := by
    intro n
    have hcstr : (cstr (utf8EncodeS n)).length ≤ (utf8EncodeS n).length :=
      (List.takeWhile_sublist _).length_le
    have hbuf : (utf8EncodeS n).length ≤ 4 := by
      rw [utf8EncodeS_eq]
      unfold utf8Buf
      split_ifs <;> simp
    omega
  have hput : (putBack (HASH :: digits)).length = digits.length + 3 := by simp [putBack]
  rw [hput, decodeName_number, if_neg (fun hnil => (utf8Buf_eq_nil_iff _).mp hnil h)]
  clear h
  match digits with
  | [] => decide
  | [d] =>
    have hone : ∀ d, (cstr (utf8EncodeS (nameCode [d]))).length ≤ 1 :=
      forall_byte (by decide +kernel)
    have := hone d
    rw [List.length_singleton]
    omega
  | d :: d' :: digits =>
    have := hle (nameCode (d :: d' :: digits))
    simp only [List.length_cons]
    omega

/-- **A name that is put back**: it is not known, and not taken for a number. -/
lemma decodeName_eq_putBack {n : Bytes} (hknown : ∀ e ∈ entityList, n ≠ bytes e.1)
    (hcode : ¬ IsCodeName n) : decodeName n = putBack n := by
  match n with
  | [] => rfl
  | c :: digits =>
    by_cases hc : c = HASH
    · subst hc
      rw [decodeName_number, if_pos]
      exact (utf8Buf_eq_nil_iff _).mpr fun h => hcode ⟨digits, rfl, h⟩
    · have hfind : (entityList.find? fun e => bytes e.1 = c :: digits) = none := by
        rw [List.find?_eq_none]
        intro e he
        exact fun h => hknown e he (of_decide_eq_true h).symm
      rw [decodeName, if_neg hc, hfind]

/-- What is appended for a name is no longer than the name.

**Proof sketch.** A number gives less bytes than its name has (`length_decodeName_number`). A known
name is not shorter than its text, for every entry of the table. All others are put back. -/
lemma length_decodeName_le (n : Bytes) : (decodeName n).length ≤ (putBack n).length := by
  have htable : ∀ e ∈ entityList, (utf8Text e.2).length ≤ (putBack (bytes e.1)).length := by
    decide
  by_cases hcode : IsCodeName n
  · obtain ⟨digits, rfl, h⟩ := hcode
    exact (length_decodeName_number h).le
  · by_cases hknown : ∀ e ∈ entityList, n ≠ bytes e.1
    · rw [decodeName_eq_putBack hknown hcode]
    · match n with
      | [] => exact le_rfl
      | c :: digits =>
        by_cases hc : c = HASH
        · subst hc
          rw [decodeName_number,
            if_pos ((utf8Buf_eq_nil_iff _).mpr fun h => hcode ⟨digits, rfl, h⟩)]
        · rw [decodeName, if_neg hc]
          split
          · rename_i e he
            have hmem := List.mem_of_find?_eq_some he
            have hname := List.find?_some he
            rw [← of_decide_eq_true hname]
            exact htable e hmem
          · exact le_rfl

/-! ## Plain texts -/

/-- A reference, without its `&` and `;`: a known name, or a decimal or hexadecimal number. -/
def IsReference (n : Bytes) : Prop :=
  (∃ e ∈ entityList, n = bytes e.1) ∨
    (∃ ds : Bytes, ds ≠ [] ∧ (∀ d ∈ ds, (digit 10 d).isSome) ∧ n = HASH :: ds) ∨
      ∃ ds : Bytes, ds ≠ [] ∧ (∀ d ∈ ds, (digit 16 d).isSome) ∧ n = HASH :: 'x' :: ds

/-- **A text without references**, at any `&` of it. -/
def NoReference (s : Bytes) : Prop :=
  ∀ pre n post, s = pre ++ (putBack n ++ post) → ¬ IsReference n

/-- **The parts of a text**: behind the first `&` there is a name that is ended, and is not taken
for a number, and so on behind its `;`. -/
inductive EntityParts : Bytes → Prop
  | text {t : Bytes} : AMP ∉ t → EntityParts t
  | name {t n r : Bytes} : AMP ∉ t → SEMI ∉ n → ¬ IsCodeName n → EntityParts r →
      EntityParts (t ++ (putBack n ++ r))

/-- **A text of such parts**, that holds no NUL. -/
structure EntityPlain (s : Bytes) : Prop where
  noNul : 0 ∉ s
  parts : EntityParts s

/-- A text without references has none in its end. -/
lemma NoReference.of_append {t r : Bytes} (h : NoReference (t ++ r)) : NoReference r := by
  rintro pre n post rfl
  exact h (t ++ pre) n post (by rw [List.append_assoc])

/-- The first name of a text without references is put back, if it is not taken for a number. -/
lemma NoReference.decodeName_eq {t n r : Bytes} (h : NoReference (t ++ (putBack n ++ r)))
    (hcode : ¬ IsCodeName n) : decodeName n = putBack n := by
  refine decodeName_eq_putBack (fun e he hname => ?_) hcode
  exact h t n r rfl (.inl ⟨e, he, hname⟩)

/-- What is appended is no longer than the text.

**Proof sketch.** By strong induction on the length of the text, along its first reference: what a
name stands for is not longer than the reference itself, and the rest is shorter than the text. -/
lemma length_entityLoop_le (s : Bytes) : (entityLoop .findAmp s).length ≤ s.length := by
  induction hn : s.length using Nat.strong_induction_on generalizing s with
  | _ k ih =>
    subst hn
    obtain ht | ⟨t, r, ht, hr, rfl⟩ | ⟨t, n, r, ht, hn, rfl⟩ := entityLoop_cases s
    · have htext := entityLoop_text ht []
      rw [List.append_nil] at htext
      rw [htext, entityLoop, List.append_nil]
    · rw [entityLoop_text ht, entityLoop, if_pos rfl, entityLoop_end hr, List.nil_append,
        List.length_append, List.length_append, List.length_cons]
      omega
    · have hshort : r.length < (t ++ (putBack n ++ r)).length := by
        simp only [putBack, List.length_append, List.length_cons]
        omega
      have hrest := ih _ hshort r rfl
      have hname := length_decodeName_le n
      rw [entityLoop_text ht, entityLoop_putBack hn, List.length_append, List.length_append,
        List.length_append, List.length_append]
      omega

/-- **A text of such parts is left alone**, part by part. -/
lemma entityLoop_of_parts {s : Bytes} (h : EntityParts s) (hno : NoReference s) :
    entityLoop .findAmp s = s := by
  induction h with
  | @text t ht =>
    have htext := entityLoop_text ht []
    rwa [List.append_nil, entityLoop, List.append_nil] at htext
  | @name t n r ht hn hcode hr ih =>
    rw [entityLoop_text ht, entityLoop_putBack hn, hno.decodeName_eq hcode,
      ih hno.of_append.of_append]

/-- **A text that is left alone** is made of such parts: otherwise less is appended.

**Proof sketch.** By induction on the length of the text, with its first `&`. A name that is not
ended loses this byte; one that is ended is either put back, or what is appended is shorter. In both
of the other cases the result would be shorter than the text (`length_entityLoop_le`). -/
lemma parts_of_entityLoop {s : Bytes} (hno : NoReference s) (h : entityLoop .findAmp s = s) :
    EntityParts s := by
  induction hn : s.length using Nat.strong_induction_on generalizing s with
  | _ k ih =>
    subst hn
    obtain ht | ⟨t, r, ht, hr, rfl⟩ | ⟨t, n, r, ht, hn, rfl⟩ := entityLoop_cases s
    · exact .text ht
    · have hlen := congrArg List.length h
      rw [entityLoop_text ht, entityLoop, if_pos rfl, entityLoop_end hr, List.nil_append,
        List.length_append, List.length_append, List.length_cons] at hlen
      omega
    · rw [entityLoop_text ht, entityLoop_putBack hn] at h
      have hname := List.append_cancel_left h
      by_cases hcode : IsCodeName n
      · obtain ⟨digits, rfl, hscalar⟩ := hcode
        have hshort := length_decodeName_number hscalar
        have hrest := length_entityLoop_le r
        have hlen := congrArg List.length hname
        rw [List.length_append, List.length_append] at hlen
        omega
      · rw [hno.decodeName_eq hcode] at hname
        have hshort : r.length < (t ++ (putBack n ++ r)).length := by
          simp only [putBack, List.length_append, List.length_cons]
          omega
        exact .name ht hn hcode
          (ih _ hshort hno.of_append.of_append (List.append_cancel_left hname) rfl)

/-- A text with a NUL is cut off there. -/
lemma length_cstr_lt {s : Bytes} (h : 0 ∈ s) : (cstr s).length < s.length := by
  refine lt_of_le_of_ne (List.takeWhile_sublist _).length_le fun hlen => ?_
  have hself : cstr s = s := (List.takeWhile_prefix _).eq_of_length hlen
  exact zero_notMem_cstr s (by rwa [hself])

/-- **A text without references is left alone** exactly if it holds no NUL, each name that is
collected is ended, and none is taken for a number.

**Proof sketch.** A name that is not ended loses its `&`, and what is appended for a number is
shorter than the number; as nothing that is appended is longer than what it stands for, less is
appended then. -/
theorem decodeHtmlEntities_eq_self_iff {s : Bytes} (h : NoReference s) :
    decodeHtmlEntities s = s ↔ EntityPlain s := by
  constructor
  · intro hself
    have h0 : 0 ∉ s := by
      intro h0
      have hlen := congrArg List.length hself
      have hle : (decodeHtmlEntities s).length ≤ (cstr s).length := length_entityLoop_le _
      have := length_cstr_lt h0
      omega
    rw [decodeHtmlEntities, cstr_eq_self h0] at hself
    exact ⟨h0, parts_of_entityLoop h hself⟩
  · rintro ⟨h0, hparts⟩
    rw [decodeHtmlEntities, cstr_eq_self h0]
    exact entityLoop_of_parts hparts h

/-- A text without `&` or without `;` has no references. -/
lemma noReference_of_notMem {s : Bytes} (h : AMP ∉ s ∨ SEMI ∉ s) : NoReference s := by
  rintro pre n post rfl
  obtain h | h := h
  · exact absurd (by simp [putBack]) h
  · exact absurd (by simp [putBack]) h

/-- A text with one `&` and one `;` behind it has no references but what is between them. -/
lemma noReference_putBack {t n r : Bytes} (ht : AMP ∉ t) (hn : AMP ∉ n ∧ SEMI ∉ n)
    (hr : AMP ∉ r ∧ SEMI ∉ r) (h : ¬ IsReference n) : NoReference (t ++ (putBack n ++ r)) := by
  intro pre m post heq
  have hbehind : AMP ∉ n ++ SEMI :: r := by
    rw [List.mem_append, List.mem_cons]
    rintro (hmem | hmem | hmem)
    · exact hn.1 hmem
    · exact absurd hmem (by decide)
    · exact hr.1 hmem
  have hamp : t ++ AMP :: (n ++ SEMI :: r) = pre ++ AMP :: (m ++ SEMI :: post) := by
    simpa [putBack] using heq
  obtain ⟨-, -, hsemi⟩ := (List.append_cons_inj_of_notMem ht hbehind).mp hamp
  obtain ⟨rfl, -, -⟩ := (List.append_cons_inj_of_notMem hn.2 hr.2).mp hsemi
  exact h

/-- A name that is not known is put back, with its `&` and `;`. -/
theorem decodeHtmlEntities_text : decodeHtmlEntities (bytes "R&D; 1 < 2") = bytes "R&D; 1 < 2" := by
  have hname : ¬ IsReference (bytes "D") := by
    rintro (⟨e, he, heq⟩ | ⟨ds, -, -, heq⟩ | ⟨ds, -, -, heq⟩)
    · have hall : ∀ e ∈ entityList, bytes "D" ≠ bytes e.1 := by decide
      exact hall e he heq
    · cases heq
    · cases heq
  have hcode : ¬ IsCodeName (bytes "D") := by
    rintro ⟨digits, heq, -⟩
    cases heq
  have hsplit : bytes "R&D; 1 < 2" = bytes "R" ++ (putBack (bytes "D") ++ bytes " 1 < 2") := by decide
  rw [hsplit]
  refine (decodeHtmlEntities_eq_self_iff (noReference_putBack ?_ ?_ ?_ hname)).mpr
    ⟨by decide, .name ?_ ?_ hcode (.text ?_)⟩ <;> decide

/-- **An `&` without a `;`** is lost, and so is what is taken for the number zero. -/
theorem decodeHtmlEntities_lost :
    NoReference (bytes "a&b") ∧ decodeHtmlEntities (bytes "a&b") = bytes "ab" ∧
      bytes "ab" ≠ bytes "a&b" ∧ decodeHtmlEntities (bytes "a&#xzz;b") ≠ bytes "a&#xzz;b" := by
  exact ⟨noReference_of_notMem (.inr (by decide)), by decide +kernel, by decide, by decide +kernel⟩

/-! ## Texts with references -/

/-- The characters that a text is written with names for. -/
def namedChars : List (String × Char) :=
  [("amp", '&'), ("lt", '<'), ("gt", '>'), ("quot", '"'), ("apos", '\'')]

/-- **The ways to write a character**: as it is, by its name, by its number in decimal digits, or in
hexadecimal digits of either case. -/
inductive IsWritten : Char → Bytes → Prop
  | raw {c : Char} : c ≠ '&' → IsWritten c (String.utf8EncodeChar c)
  | named {c : Char} {name : String} : (name, c) ∈ namedChars → IsWritten c (putBack (bytes name))
  | decimal {c : Char} {ds : Bytes} : ds ≠ [] → (∀ d ∈ ds, (digit 10 d).isSome) →
      runValue 10 (digitRun 10 ds) = c.toNat → IsWritten c (putBack (HASH :: ds))
  | hexadecimal {c : Char} {ds : Bytes} : ds ≠ [] → (∀ d ∈ ds, (digit 16 d).isSome) →
      runValue 16 (digitRun 16 ds) = c.toNat → IsWritten c (putBack (HASH :: 'x' :: ds))

/-- A digit is no `;`, and no terminator. -/
lemma of_isSome_digit {limit : ℕ} (hle : limit ≤ 16) {d : Byte} (h : (digit limit d).isSome) :
    d ≠ SEMI ∧ d ≠ 0 := by
  have hbytes : ∀ d, (digit 16 d).isSome → d ≠ SEMI ∧ d ≠ 0 := forall_byte (by decide +kernel)
  obtain ⟨v, hv⟩ := Option.isSome_iff_exists.mp h
  exact hbytes d (Option.isSome_of_eq_some (digit_of_le hle hv))

/-- Digits below a limit are digits below a larger one, of the same values. -/
lemma digitRun_eq_of_le {limit limit' : ℕ} (hle : limit ≤ limit') {ds : Bytes}
    (h : ∀ d ∈ ds, (digit limit d).isSome) : digitRun limit' ds = digitRun limit ds := by
  have hall : (digitRun limit ds).length = ds.length := by
    induction ds with
    | nil => rfl
    | cons d ds ih =>
      obtain ⟨hd, hds⟩ := List.forall_mem_cons.mp h
      obtain ⟨v, hv⟩ := Option.isSome_iff_exists.mp hd
      simp only [digitRun, hv, List.length_cons, ih hds]
  rw [digitRun_of_le hle ds, hall, List.drop_length]
  simp [digitRun]

/-- The number of a numeral without a sign. -/
lemma toUInt32_withSign {str : Bytes} (h : (bytes "-").isPrefixOf str = false) (n : ℕ) :
    (withSign str n).toUInt32 = UInt32.ofNat n := by
  rw [withSign, h, if_neg Bool.false_ne_true, Int32.ofInt_eq_ofNat]
  rfl

/-- Decimal digits with zero in front have no prefix. -/
lemma numeral_decimal {ds : Bytes} (h : ∀ d ∈ ds, (digit 10 d).isSome) :
    numeral ('0' :: ds) = (10, ('0' : Byte) :: ds) := by
  have hbytes : ∀ d, (digit 10 d).isSome → d ≠ 'x' ∧ d ≠ 'b' := forall_byte (by decide +kernel)
  cases ds with
  | nil => rfl
  | cons d ds =>
    obtain ⟨hx, hb⟩ := hbytes d (h d List.mem_cons_self)
    have hprefix : ∀ b c : Byte, d ≠ c → [b, c].isPrefixOf (b :: d :: ds) = false := by
      intro b c hc
      simp [List.isPrefixOf, hc.symm]
    have hhex : (bytes "0x").isPrefixOf (('0' : Byte) :: d :: ds) = false := hprefix '0' 'x' hx
    have hbin : (bytes "0b").isPrefixOf (('0' : Byte) :: d :: ds) = false := hprefix '0' 'b' hb
    have hunsigned : unsignedPart ('0' :: d :: ds) = ('0' : Byte) :: d :: ds := rfl
    rw [numeral, hunsigned, hhex, hbin]
    rfl

/-- **The number of decimal digits.** -/
lemma nameCode_decimal {ds : Bytes} (h : ∀ d ∈ ds, (digit 10 d).isSome) :
    nameCode ds = UInt32.ofNat (runValue 10 (digitRun 10 ds)) := by
  have hrun : digitRun 10 ('0' :: ds) = 0 :: digitRun 10 ds := rfl
  rw [nameCode, myAtoi_eq, numeral_decimal h, toUInt32_withSign rfl,
    show atoiLimit (atoiBase 10) = 10 from rfl, show atoiBase 10 = 10 from rfl, hrun,
    runValue_cons, zero_mul, zero_add]

/-- **The number of hexadecimal digits.** -/
lemma nameCode_hexadecimal {ds : Bytes} (h : ∀ d ∈ ds, (digit 16 d).isSome) :
    nameCode ('x' :: ds) = UInt32.ofNat (runValue 16 (digitRun 16 ds)) := by
  have hnum : numeral ('0' :: 'x' :: ds) = (16, ds) := rfl
  rw [nameCode, myAtoi_eq, hnum, toUInt32_withSign rfl]
  rw [show atoiLimit (atoiBase 16) = 36 from rfl, digitRun_eq_of_le (by omega) h]
  rfl

/-- A character of the first plane is appended for its number. -/
lemma decodeName_char {c : Char} (h0 : c.val ≠ 0) (hplane : c.toNat < 0x10000) {digits : Bytes}
    (h : nameCode digits = UInt32.ofNat c.toNat) :
    decodeName (HASH :: digits) = String.utf8EncodeChar c := by
  have hval : UInt32.ofNat c.toNat = c.val := UInt32.ofNat_toNat
  have henc : utf8EncodeS c.val = String.utf8EncodeChar c :=
    (utf8EncodeS_char_iff c).mpr (.inl hplane)
  have hne : utf8Buf c.val ≠ [] := by
    rw [← utf8EncodeS_eq, henc]
    exact List.ne_nil_of_length_pos (String.length_utf8EncodeChar c ▸ c.utf8Size_pos)
  rw [decodeName_number, h, hval, if_neg hne, henc, cstr_eq_self (zero_notMem_utf8EncodeChar h0)]

/-- The bytes of a character but `&` are no `&`. -/
lemma amp_notMem_utf8EncodeChar {c : Char} (hc : c ≠ '&') : AMP ∉ String.utf8EncodeChar c := by
  have hascii : ∀ v < 0x80, v ≠ 38 → AMP ≠ UInt8.ofNat v := by decide
  have htail : ∀ x < 0x40, AMP ≠ tailByte x := by decide
  have hlead2 : ∀ w < 0x20, AMP ≠ lead2 w := by decide
  have hlead3 : ∀ w < 0x10, AMP ≠ lead3 w := by decide
  have hlead4 : ∀ w < 5, AMP ≠ lead4 w := by decide
  have hval : c.val.toNat ≠ 38 := fun h => hc (Char.ext (UInt32.toNat_inj.mp h))
  rcases utf8EncodeChar_cases c with ⟨h, henc⟩ | ⟨w, hw, x, hx, -, -, henc⟩ |
    ⟨w, hw, x, hx, y, hy, -, -, -, henc⟩ | ⟨w, hw, x, hx, y, hy, z, hz, -, -, -, henc⟩
  all_goals simp only [henc, List.mem_cons, List.not_mem_nil, or_false, not_or]
  · exact hascii _ h hval
  · exact ⟨hlead2 w hw, htail x hx⟩
  · exact ⟨hlead3 w hw, htail x hx, htail y hy⟩
  · exact ⟨hlead4 w hw, htail x hx, htail y hy, htail z hz⟩

/-- The names of characters are known. -/
lemma decodeName_named {c : Char} {name : String} (h : (name, c) ∈ namedChars) :
    SEMI ∉ bytes name ∧ decodeName (bytes name) = String.utf8EncodeChar c := by
  have htable : ∀ e ∈ namedChars,
      SEMI ∉ bytes e.1 ∧ decodeName (bytes e.1) = String.utf8EncodeChar e.2 := by
    decide +kernel
  exact htable _ h

/-- Digits hold no `;`, and no terminator. -/
lemma notMem_digits {limit : ℕ} {ds : Bytes} (hle : limit ≤ 16)
    (h : ∀ d ∈ ds, (digit limit d).isSome) : SEMI ∉ ds ∧ 0 ∉ ds :=
  ⟨fun hmem => (of_isSome_digit hle (h _ hmem)).1 rfl,
    fun hmem => (of_isSome_digit hle (h _ hmem)).2 rfl⟩

/-- **A character that is written** is read back.

**Proof sketch.** By the way the character is written. As it is, it is no `&` and is copied;
otherwise it is a name without `;`, and the name is known, or its digits are read as the number of
the character. -/
lemma entityLoop_written {c : Char} {w : Bytes} (hw : IsWritten c w) (h0 : c.val ≠ 0)
    (hplane : c.toNat < 0x10000) (rest : Bytes) :
    entityLoop .findAmp (w ++ rest) = String.utf8EncodeChar c ++ entityLoop .findAmp rest := by
  cases hw with
  | raw hc => exact entityLoop_text (amp_notMem_utf8EncodeChar hc) rest
  | named hname =>
    obtain ⟨hsemi, hdecode⟩ := decodeName_named hname
    rw [entityLoop_putBack hsemi, hdecode]
  | @decimal ds _ hds hvalue =>
    have hsemi : SEMI ∉ HASH :: ds := by
      rw [List.mem_cons, not_or]
      exact ⟨by decide, (notMem_digits (by omega) hds).1⟩
    rw [entityLoop_putBack hsemi, decodeName_char h0 hplane ((nameCode_decimal hds).trans
      (congrArg UInt32.ofNat hvalue))]
  | @hexadecimal ds _ hds hvalue =>
    have hsemi : SEMI ∉ HASH :: 'x' :: ds := by
      rw [List.mem_cons, List.mem_cons, not_or, not_or]
      exact ⟨by decide, by decide, (notMem_digits le_rfl hds).1⟩
    rw [entityLoop_putBack hsemi, decodeName_char h0 hplane ((nameCode_hexadecimal hds).trans
      (congrArg UInt32.ofNat hvalue))]

/-- A character that is written holds no NUL. -/
lemma zero_notMem_of_isWritten {c : Char} {w : Bytes} (hw : IsWritten c w) (h0 : c.val ≠ 0) :
    0 ∉ w := by
  cases hw with
  | raw hc => exact zero_notMem_utf8EncodeChar h0
  | named hname =>
    have htable : ∀ e ∈ namedChars, 0 ∉ putBack (bytes e.1) := by decide
    exact htable (_, c) hname
  | decimal _ hds _ => simp [putBack, (notMem_digits (by omega) hds).2]
  | hexadecimal _ hds _ => simp [putBack, (notMem_digits le_rfl hds).2]

/-- **A text that was written with references** is read back: every character that is not NUL, of
the first plane, in any of the ways to write it.

**Proof sketch.** Induction on the text. What is written for a character is read over as a whole,
and leaves the loop where it looks for the next `&`. -/
theorem decodeHtmlEntities_written {ws : List (Char × Bytes)}
    (h : ∀ p ∈ ws, IsWritten p.1 p.2 ∧ p.1.val ≠ 0 ∧ p.1.toNat < 0x10000) :
    decodeHtmlEntities (ws.flatMap Prod.snd) = utf8Text (ws.map Prod.fst) := by
  have h0 : 0 ∉ ws.flatMap Prod.snd := by
    intro hmem
    obtain ⟨p, hp, hzero⟩ := List.mem_flatMap.mp hmem
    exact zero_notMem_of_isWritten (h p hp).1 (h p hp).2.1 hzero
  rw [decodeHtmlEntities, cstr_eq_self h0]
  clear h0
  induction ws with
  | nil => rfl
  | cons p ws ih =>
    obtain ⟨⟨hw, h0, hplane⟩, hws⟩ := List.forall_mem_cons.mp h
    rw [List.flatMap_cons, entityLoop_written hw h0 hplane, ih hws, utf8Text, utf8Text,
      List.map_cons, List.flatMap_cons]

/-- A character in each of the ways.

**Proof sketch.** Each character is written in one of the four ways, which is decided, and the
general theorem puts them together. -/
theorem decodeHtmlEntities_written_text :
    decodeHtmlEntities (bytes "a&lt;&#060;&#x3C;") = utf8Text ['a', '<', '<', '<'] := by
  have hraw : IsWritten 'a' (bytes "a") := .raw (by decide)
  have hname : IsWritten '<' (bytes "&lt;") := @IsWritten.named '<' "lt" (by decide)
  have hten : (bytes "060").all (fun d => (digit 10 d).isSome) = true := by decide
  have hdecimal : IsWritten '<' (bytes "&#060;") :=
    @IsWritten.decimal '<' (bytes "060") (by decide) (List.all_eq_true.mp hten) (by decide)
  have hsixteen : (bytes "3C").all (fun d => (digit 16 d).isSome) = true := by decide
  have hhex : IsWritten '<' (bytes "&#x3C;") :=
    @IsWritten.hexadecimal '<' (bytes "3C") (by decide) (List.all_eq_true.mp hsixteen) (by decide)
  have hwritten : ∀ p ∈ [('a', bytes "a"), ('<', bytes "&lt;"), ('<', bytes "&#060;"),
      ('<', bytes "&#x3C;")], IsWritten p.1 p.2 ∧ p.1.val ≠ 0 ∧ p.1.toNat < 0x10000 := by
    simp only [List.forall_mem_cons, List.not_mem_nil, false_imp_iff, implies_true, and_true]
    exact ⟨⟨hraw, by decide⟩, ⟨hname, by decide⟩, ⟨hdecimal, by decide⟩, ⟨hhex, by decide⟩⟩
  have htext : bytes "a&lt;&#060;&#x3C;" = [('a', bytes "a"), ('<', bytes "&lt;"),
      ('<', bytes "&#060;"), ('<', bytes "&#x3C;")].flatMap Prod.snd := by decide
  rw [htext]
  exact decodeHtmlEntities_written hwritten

end Meowbot
