import Meowbot.Highlight
import Meowbot.Lib.SeqPattern

set_option relaxedAutoImplicit false
set_option autoImplicit false

/-!
# The text that is sent without highlighting (`ircbot.cpp`)

`privmsg_nh` puts dots into the nicks of a message and takes those in a URL out again. The first
works on bytes: a nick is whatever bytes the server has sent, and a match for it may begin or end
within a character. The second finds the URLs by a regular expression on characters, and copies the
bytes of ASCII of each.

## Main definitions

* `Meowbot.removeDotsOnUrls` — the pass over the URLs.
* `Meowbot.privmsgNh` — the text that is sent.
* `Meowbot.eraseDots` — a text without any dot.
* `Meowbot.EndsAt` — the end of a character of a text.

## Main results

* `Meowbot.eraseDots_privmsgNh` — the message and the text that is sent differ in dots only.
-/

namespace Meowbot

open SeqPattern WordBreak

/-! ## The source -/

/-- `[a-zA-Z·]` -/
def isSchemeChar (c : Char) : Bool :=
  'a' ≤ c && c ≤ 'z' || 'A' ≤ c && c ≤ 'Z' || c = '·'

/-- `[0-9a-zA-Z./·-]` -/
def isUrlChar (c : Char) : Bool :=
  '0' ≤ c && c ≤ '9' || 'a' ≤ c && c ≤ 'z' || 'A' ≤ c && c ≤ 'Z' || c = '.' || c = '/' ||
    c = '·' || c = '-'

/-- The pattern `[a-zA-Z·]{3,4}://[0-9a-zA-Z./·-]+` for a number of characters of the scheme. -/
def urlAtoms (n : ℕ) : List (Atom Char) :=
  List.replicate n (.one isSchemeChar) ++ (lits [':', '/', '/'] ++ [.many isUrlChar 1 false])

/-- The match of the pattern of `re_remove_dots_on_urls` at the start of a text: four characters of
the scheme are tried first. -/
def matchUrl (s : List Char) : Option (List Char) :=
  ((matchAtoms (urlAtoms 4) s).or (matchAtoms (urlAtoms 3) s)).map List.flatten

/-- `remove_dots_on_urls_replace_cb`: the bytes of ASCII up to a terminator. -/
def removeDotsOnUrlsReplaceCb (group : Bytes) : Bytes :=
  (cstr group).filter fun p => p &&& 0x80 = 0

/-- The match at the start of a text is not empty. -/
lemma matchUrl_ne_nil {s m : List Char} (h : matchUrl s = some m) : m ≠ [] := by
  have hne : ∀ n ps, matchAtoms (urlAtoms (n + 1)) s = some ps → ps.flatten ≠ [] := by
    intro n ps hps
    cases s with
    | nil => cases hps
    | cons x s =>
      rw [urlAtoms, List.replicate_succ, List.cons_append, matchAtoms_one_cons] at hps
      split_ifs at hps
      obtain ⟨ps', -, rfl⟩ := Option.map_eq_some_iff.mp hps
      simp
  obtain ⟨ps, hps, rfl⟩ := Option.map_eq_some_iff.mp h
  obtain hps | ⟨-, hps⟩ := Option.or_eq_some_iff.mp hps
  · exact hne 3 ps hps
  · exact hne 2 ps hps

/-- The match at the start of a text is the first part of it. -/
lemma matchUrl_prefix {s m : List Char} (h : matchUrl s = some m) : m <+: s := by
  obtain ⟨ps, hps, rfl⟩ := Option.map_eq_some_iff.mp h
  obtain hps | ⟨-, hps⟩ := Option.or_eq_some_iff.mp hps
  · exact matchAtoms_prefix hps
  · exact matchAtoms_prefix hps

/-- What is behind a match is shorter than the text. -/
lemma length_lt_of_leftmost {s l m r : List Char} (h : leftmost matchUrl s = some (l, m, r)) :
    r.length < s.length := by
  obtain ⟨rfl, hm⟩ := leftmost_eq_some (fun _ _ => matchUrl_prefix) h
  have hpos := List.length_pos_iff.mpr (matchUrl_ne_nil hm)
  simp only [List.length_append]
  omega

/-- `pcrecpp::RE::GlobalReplaceCallback` on the characters from a place on: no match is empty. -/
def replaceUrls (s : List Char) : Bytes :=
  match _ : leftmost matchUrl s with
  | none => utf8Text s
  | some (l, m, r) => utf8Text l ++ removeDotsOnUrlsReplaceCb (utf8Text m) ++ replaceUrls r
termination_by s.length
decreasing_by exact length_lt_of_leftmost ‹_›

/-- The pass over the URLs: with the option `UTF8` there are no matches in a text that is not
well-formed. -/
def removeDotsOnUrls (buf : Bytes) : Bytes :=
  match utf8Chars? buf with
  | some s => replaceUrls s
  | none => buf

/-- `ircbot_conn::privmsg_nh` up to `privmsg`, for the users of the channel: the text that is sent,
none for an empty message. -/
def privmsgNh (myNick : Bytes) (list : List IrcUser) (msg : Bytes) : Option (Option Bytes) :=
  if msg = [] then some none
  else (preventIrcHighlightingAll myNick list msg).map fun buf => some (removeDotsOnUrls buf)

/-! ## What it is for -/

/-- **A text without any dot.** -/
def eraseDots : Bytes → Bytes
  | [] => []
  | [c] => [c]
  | c :: d :: s => if [c, d] = middleDot then eraseDots s else c :: eraseDots (d :: s)

/-- The characters but the dots. -/
def withoutDots (cs : List Char) : List Char := cs.filter (· ≠ '·')

/-- The end of a character of a text, or the start of the text. -/
def EndsAt (cs : List Char) (i : ℕ) : Prop := ∃ j, i = (utf8Text (cs.take j)).length

/-! ## Texts without dots -/

/-- A byte that is no first byte of a dot stays. -/
lemma eraseDots_cons {c : Byte} (hc : c ≠ 0xC2) (s : Bytes) :
    eraseDots (c :: s) = c :: eraseDots s := by
  cases s with
  | nil => rfl
  | cons d s =>
    rw [eraseDots, if_neg]
    rintro ⟨⟩
    exact hc rfl

/-- Bytes that are no first bytes of a dot stay. -/
lemma eraseDots_append {l : Bytes} (hl : ∀ c ∈ l, c ≠ 0xC2) (s : Bytes) :
    eraseDots (l ++ s) = l ++ eraseDots s := by
  induction l with
  | nil => rfl
  | cons c l ih =>
    obtain ⟨hc, hl⟩ := List.forall_mem_cons.mp hl
    rw [List.cons_append, eraseDots_cons hc, ih hl, List.cons_append]

/-- **The encoding of a character**: a first byte of a dot has the second one behind it only in a
dot.

**Proof sketch.** By the size of the character. The first byte `0xC2` begins characters of two bytes
only, and of these the dot is the one with `0xB7` behind it. A later byte is never `0xC2`. -/
lemma utf8EncodeChar_dot (c : Char) :
    (∀ b ∈ String.utf8EncodeChar c, b ≠ 0xC2) ∨
      ∃ t, t ≠ 0xC2 ∧ (t = 0xB7 ↔ c = '·') ∧ String.utf8EncodeChar c = [0xC2, t] := by
  have hascii : ∀ v < 0x80, UInt8.ofNat v ≠ 0xC2 := by decide
  have htail : ∀ x < 0x40, tailByte x ≠ 0xC2 ∧ (tailByte x = 0xB7 ↔ x = 0x37) := by decide
  have hlead2 : ∀ w < 0x20, lead2 w = 0xC2 ↔ w = 2 := by decide
  have hlead3 : ∀ w < 0x10, lead3 w ≠ 0xC2 := by decide
  have hlead4 : ∀ w < 5, lead4 w ≠ 0xC2 := by decide
  rcases utf8EncodeChar_cases c with ⟨h, henc⟩ | ⟨w, hw, x, hx, hv, -, henc⟩ |
    ⟨w, hw, x, hx, y, hy, -, -, -, henc⟩ | ⟨w, hw, x, hx, y, hy, z, hz, -, -, -, henc⟩
  · rw [henc]
    exact .inl (by simpa using hascii _ h)
  · rw [henc]
    by_cases h : w = 2
    · subst h
      refine .inr ⟨tailByte x, (htail x hx).1, (htail x hx).2.trans ?_, rfl⟩
      rw [← Char.val_inj, ← UInt32.toNat_inj, hv]
      show x = 0x37 ↔ 2 * 0x40 + x = 0xB7
      omega
    · exact .inl (by simpa using ⟨fun h' => h ((hlead2 w hw).mp h'), (htail x hx).1⟩)
  · rw [henc]
    exact .inl (by simpa using ⟨hlead3 w hw, (htail x hx).1, (htail y hy).1⟩)
  · rw [henc]
    exact .inl (by simpa using ⟨hlead4 w hw, (htail x hx).1, (htail y hy).1, (htail z hz).1⟩)

/-- The characters of two texts but the dots. -/
lemma withoutDots_append (cs ds : List Char) :
    withoutDots (cs ++ ds) = withoutDots cs ++ withoutDots ds := List.filter_append cs ds

/-- A dot is left out. -/
lemma withoutDots_dot (cs : List Char) : withoutDots ('·' :: cs) = withoutDots cs :=
  List.filter_cons_of_neg (by simp)

/-- Any other character is not. -/
lemma withoutDots_cons {c : Char} (hc : c ≠ '·') (cs : List Char) :
    withoutDots (c :: cs) = c :: withoutDots cs := List.filter_cons_of_pos (by simpa using hc)

/-- **A text without its dots** has the characters but the dots.

**Proof sketch.** By induction on the characters. The two bytes of a dot are erased where a dot
stands, and nowhere else, as `0xC2` is the first byte of a character (`utf8EncodeChar_dot`). -/
lemma eraseDots_utf8Text (cs : List Char) :
    eraseDots (utf8Text cs) = utf8Text (withoutDots cs) := by
  induction cs with
  | nil => rfl
  | cons c cs ih =>
    rw [utf8Text_cons]
    obtain hnone | ⟨t, ht, hdot, henc⟩ := utf8EncodeChar_dot c
    · have hc : c ≠ '·' := by
        rintro rfl
        exact absurd (hnone 0xC2 (by decide)) (by decide)
      rw [eraseDots_append hnone, ih, withoutDots_cons hc, utf8Text_cons]
    · rw [henc, List.cons_append, List.singleton_append, eraseDots]
      by_cases hc : c = '·'
      · have hpair : [0xC2, t] = middleDot := by rw [hdot.mpr hc, middleDot]
        rw [if_pos hpair, ih, hc, withoutDots_dot]
      · have hpair : [0xC2, t] ≠ middleDot := by
          rintro ⟨⟩
          exact hc (hdot.mp rfl)
        rw [if_neg hpair, eraseDots_cons ht, ih, withoutDots_cons hc, utf8Text_cons, henc]
        rfl

/-! ## The dots in the nicks -/

/-- The bytes behind the end of a character. -/
lemma drop_utf8Text (cs : List Char) (j : ℕ) :
    (utf8Text cs).drop (utf8Text (cs.take j)).length = utf8Text (cs.drop j) := by
  conv_lhs => rw [← List.take_append_drop j cs, utf8Text_append]
  rw [List.take_append_drop, List.drop_left]

/-- A later byte is no first byte. -/
lemma leadSize_of_isTail {t : Byte} (h : IsTail t) : leadSize t = none := by
  have hbytes : ∀ t : Byte, t &&& 0xC0 = 0x80 → leadSize t = none :=
    forall_byte (by decide +kernel)
  exact hbytes t h

/-- **A first byte tells where its character ends.**

**Proof sketch.** By induction on the characters in front of the place. The place is in the first
character only if it is its first byte, as no later byte begins a character; its size then tells
where it ends. -/
lemma endsAt_of_endsChar {cs : List Char} {i : ℕ} (h : EndsChar (utf8Text cs) i) : EndsAt cs i := by
  obtain ⟨p, b, l, n, hdrop, hlead, rfl⟩ := h
  induction cs generalizing p with
  | nil => simp [utf8Text] at hdrop
  | cons x cs ih =>
    rw [utf8Text_cons] at hdrop
    by_cases hp : (String.utf8EncodeChar x).length ≤ p
    · obtain ⟨q, rfl⟩ := Nat.exists_eq_add_of_le hp
      rw [List.drop_append, List.drop_of_length_le (by omega), List.nil_append,
        Nat.add_sub_cancel_left] at hdrop
      obtain ⟨j, hj⟩ := ih q hdrop
      refine ⟨j + 1, ?_⟩
      rw [List.take_succ_cons, utf8Text_cons, List.length_append, ← hj, Nat.add_assoc]
    · -- the byte belongs to the first character, and is the first byte of it
      have hpiece := isPiece_utf8EncodeChar x
      cases henc : String.utf8EncodeChar x with
      | nil =>
        rw [henc] at hpiece
        exact absurd hpiece id
      | cons a t =>
        rw [henc] at hdrop hp hpiece
        obtain ⟨hsize, htails⟩ := hpiece
        cases p with
        | zero =>
          obtain ⟨rfl, -⟩ := List.cons.inj hdrop
          obtain rfl : t.length = n := Option.some.inj (hsize.symm.trans hlead)
          exact ⟨1, by simp [utf8Text, henc]⟩
        | succ p =>
          have hlt : p < t.length := by simpa using hp
          have hb : b ∈ t := by
            rw [List.cons_append, List.drop_succ_cons, List.drop_append_of_le_length hlt.le,
              List.drop_eq_getElem_cons hlt] at hdrop
            obtain ⟨rfl, -⟩ := List.cons.inj hdrop
            exact List.getElem_mem hlt
          rw [leadSize_of_isTail (htails b hb)] at hlead
          cases hlead

/-- More characters have no fewer bytes. -/
lemma length_utf8Text_take_le (cs : List Char) {j j' : ℕ} (h : j ≤ j') :
    (utf8Text (cs.take j)).length ≤ (utf8Text (cs.take j')).length := by
  obtain ⟨d, rfl⟩ := Nat.exists_eq_add_of_le h
  rw [List.take_add, utf8Text_append, List.length_append]
  exact Nat.le_add_right _ _

/-- **Dots behind characters** change a text in dots only.

**Proof sketch.** By induction on the places. Each of them is behind a character, so the text up to
there stays a text, and a dot behind it is one more character. -/
lemma exists_insertAt {cs : List Char} {j : ℕ} {ks : List ℕ}
    (hks : Places (utf8Text cs) (utf8Text (cs.take j)).length ks) (hends : ∀ k ∈ ks, EndsAt cs k) :
    ∃ ds, insertAt middleDot (utf8Text cs) (utf8Text (cs.take j)).length ks = utf8Text ds ∧
      withoutDots ds = withoutDots (cs.drop j) := by
  induction ks generalizing j with
  | nil => exact ⟨cs.drop j, drop_utf8Text cs j, rfl⟩
  | cons k ks ih =>
    obtain ⟨hend, hrest⟩ := List.forall_mem_cons.mp hends
    have hge := hks.ge k List.mem_cons_self
    obtain ⟨d, rfl⟩ : ∃ d, k = (utf8Text (cs.take (j + d))).length := by
      obtain ⟨j', rfl⟩ := hend
      rcases Nat.le_total j j' with hle | hle
      · obtain ⟨d, rfl⟩ := Nat.exists_eq_add_of_le hle
        exact ⟨d, rfl⟩
      · exact ⟨0, le_antisymm (length_utf8Text_take_le cs hle) hge⟩
    obtain ⟨ds, hds, hdots⟩ := ih hks.tail hrest
    have hlen : (utf8Text (cs.take (j + d))).length - (utf8Text (cs.take j)).length =
        (utf8Text ((cs.drop j).take d)).length := by
      rw [List.take_add, utf8Text_append, List.length_append, Nat.add_sub_cancel_left]
    have hpart : (utf8Text (cs.drop j)).take (utf8Text ((cs.drop j).take d)).length =
        utf8Text ((cs.drop j).take d) := by
      conv_lhs => rw [← List.take_append_drop d (cs.drop j), utf8Text_append]
      rw [List.take_append_drop, List.take_left]
    refine ⟨(cs.drop j).take d ++ '·' :: ds, ?_, ?_⟩
    · rw [insertAt, hds, drop_utf8Text, hlen, hpart, utf8Text_append, utf8Text_cons,
        List.append_assoc]
      rfl
    · rw [withoutDots_append, withoutDots_dot, hdots, ← withoutDots_append, ← List.drop_drop,
        List.take_append_drop]

/-- **A round changes a text in dots only.** -/
lemma exists_preventUser_utf8Text (myNick : Bytes) (it : IrcUser) (cs : List Char) :
    ∃ ds, preventUser myNick it (utf8Text cs) = some (utf8Text ds) ∧
      withoutDots ds = withoutDots cs := by
  rw [preventUser]
  split_ifs
  · obtain ⟨ks, hks, hends, heq⟩ := exists_preventIrcHighlighting it.nick (utf8Text cs)
    have hplaces : Places (utf8Text cs) (utf8Text (cs.take 0)).length ks := hks
    obtain ⟨ds, hds, hdots⟩ := exists_insertAt hplaces fun k hk => endsAt_of_endsChar (hends k hk)
    exact ⟨ds, heq.trans (congrArg some hds), hdots⟩
  · exact ⟨cs, rfl, rfl⟩

/-- **All rounds change a text in dots only.** -/
lemma exists_preventIrcHighlightingAll (myNick : Bytes) (list : List IrcUser) (cs : List Char) :
    ∃ ds, preventIrcHighlightingAll myNick list (utf8Text cs) = some (utf8Text ds) ∧
      withoutDots ds = withoutDots cs := by
  induction list generalizing cs with
  | nil => exact ⟨cs, rfl, rfl⟩
  | cons it list ih =>
    obtain ⟨ds, hds, hdots⟩ := exists_preventUser_utf8Text myNick it cs
    obtain ⟨es, hes, hdots'⟩ := ih ds
    refine ⟨es, ?_, hdots'.trans hdots⟩
    rw [preventIrcHighlightingAll, hds, Option.bind_some, hes]

/-! ## The dots in the URLs -/

/-- A character that may stand in a match: a dot, or one of ASCII that is no terminator. -/
def DotOrAscii (c : Char) : Prop := c = '·' ∨ 0 < c.val.toNat ∧ c.val.toNat < 0x80

/-- A character of a range of ASCII. -/
lemma DotOrAscii.of_range {c lo hi : Char} (h : lo ≤ c ∧ c ≤ hi) (hlo : 0 < lo.val.toNat)
    (hhi : hi.val.toNat < 0x80) : DotOrAscii c :=
  .inr ⟨Nat.lt_of_lt_of_le hlo (UInt32.le_iff_toNat_le.mp h.1),
    Nat.lt_of_le_of_lt (UInt32.le_iff_toNat_le.mp h.2) hhi⟩

/-- All that the pattern consumes.

**Proof sketch.** Each of the atoms takes characters of one class, all of which are dots or ASCII,
or a literal that is. -/
lemma within_urlAtoms (n : ℕ) : ∀ a ∈ urlAtoms n, a.Within DotOrAscii := by
  have hscheme : ∀ c, isSchemeChar c = true → DotOrAscii c := by
    intro c hc
    simp only [isSchemeChar, Bool.or_eq_true, Bool.and_eq_true, decide_eq_true_eq] at hc
    obtain (hc | hc) | rfl := hc
    · exact .of_range hc (by decide) (by decide)
    · exact .of_range hc (by decide) (by decide)
    · exact .inl rfl
  have hurl : ∀ c, isUrlChar c = true → DotOrAscii c := by
    intro c hc
    simp only [isUrlChar, Bool.or_eq_true, Bool.and_eq_true, decide_eq_true_eq] at hc
    obtain (((((hc | hc) | hc) | rfl) | rfl) | rfl) | rfl := hc
    · exact .of_range hc (by decide) (by decide)
    · exact .of_range hc (by decide) (by decide)
    · exact .of_range hc (by decide) (by decide)
    · exact .inr (by decide)
    · exact .inr (by decide)
    · exact .inl rfl
    · exact .inr (by decide)
  have hlits : ∀ x ∈ [':', '/', '/'], DotOrAscii x := by
    intro x hx
    obtain rfl | rfl : x = ':' ∨ x = '/' := by simpa using hx
    · exact .inr (by decide)
    · exact .inr (by decide)
  intro a ha
  simp only [urlAtoms, lits, List.mem_append, List.mem_replicate, List.mem_map,
    List.mem_singleton] at ha
  obtain ⟨-, rfl⟩ | ⟨x, hx, rfl⟩ | rfl := ha
  · exact hscheme
  · intro y hy
    rw [of_decide_eq_true hy]
    exact hlits x hx
  · exact hurl

/-- A match consists of dots and ASCII. -/
lemma dotOrAscii_of_matchUrl {s m : List Char} (h : matchUrl s = some m) :
    ∀ c ∈ m, DotOrAscii c := by
  obtain ⟨ps, hps, rfl⟩ := Option.map_eq_some_iff.mp h
  obtain hps | ⟨-, hps⟩ := Option.or_eq_some_iff.mp hps
  · exact forall_of_matchAtoms (within_urlAtoms 4) hps
  · exact forall_of_matchAtoms (within_urlAtoms 3) hps

/-- **A match without its dots**: the callback copies the other characters.

**Proof sketch.** By induction on the characters, none of which is a NUL. The callback copies bytes
but for the pairs of a dot, and ASCII characters are one byte. -/
lemma removeDotsOnUrlsReplaceCb_utf8Text {m : List Char} (hm : ∀ c ∈ m, DotOrAscii c) :
    removeDotsOnUrlsReplaceCb (utf8Text m) = utf8Text (withoutDots m) := by
  have hzero : 0 ∉ utf8Text m := by
    rw [zero_mem_utf8Text_iff]
    rintro ⟨c, hc, hval⟩
    obtain rfl | ⟨hpos, -⟩ := hm c hc
    · exact absurd hval (by decide)
    · rw [hval] at hpos
      exact absurd hpos (by decide)
  rw [removeDotsOnUrlsReplaceCb, cstr_eq_self hzero]
  clear hzero
  induction m with
  | nil => rfl
  | cons c m ih =>
    obtain ⟨hc, hm⟩ := List.forall_mem_cons.mp hm
    rw [utf8Text_cons, List.filter_append, ih hm]
    by_cases hdot : c = '·'
    · rw [hdot, withoutDots_dot]
      rfl
    · rw [withoutDots_cons hdot, utf8Text_cons]
      have hascii := (hc.resolve_left hdot).2
      have hkeep : ∀ v < 0x80, UInt8.ofNat v &&& 0x80 = 0 := by decide
      obtain ⟨-, henc⟩ | ⟨-, -, -, -, -, hge, -⟩ | ⟨-, -, -, -, -, -, -, hge, -⟩ |
        ⟨-, -, -, -, -, -, -, -, -, hge, -⟩ := utf8EncodeChar_cases c
      · rw [henc, List.filter_cons_of_pos (by simpa using hkeep _ hascii), List.filter_nil]
      · omega
      · omega
      · omega

/-- **The pass over the URLs changes a text in dots only.**

**Proof sketch.** By strong induction on the length. The first URL is a part of the text, of which
the pass leaves out dots only, and what is behind it is shorter. -/
lemma exists_replaceUrls (s : List Char) :
    ∃ ds, replaceUrls s = utf8Text ds ∧ withoutDots ds = withoutDots s := by
  induction hn : s.length using Nat.strong_induction_on generalizing s with
  | _ n ih =>
    subst hn
    rw [replaceUrls]
    split
    · exact ⟨s, rfl, rfl⟩
    · rename_i l m r hfound
      obtain ⟨ds, hds, hdots⟩ := ih _ (length_lt_of_leftmost hfound) r rfl
      obtain ⟨rfl, hm⟩ := leftmost_eq_some (fun _ _ => matchUrl_prefix) hfound
      refine ⟨l ++ (withoutDots m ++ ds), ?_, ?_⟩
      · rw [removeDotsOnUrlsReplaceCb_utf8Text (dotOrAscii_of_matchUrl hm), hds, utf8Text_append,
          utf8Text_append, List.append_assoc]
      · have hidem : withoutDots (withoutDots m) = withoutDots m := by
          rw [withoutDots, withoutDots, List.filter_filter]
          simp only [Bool.and_self]
        simp only [withoutDots_append, hidem, hdots]

/-! ## The text that is sent -/

/-- **Only dots are added or removed**, whatever users there are: nothing is sent for an empty
message, and for any other the text that is sent is the message, but for dots.

**Proof sketch.** A dot is put behind the first character of a match, and that character begins with
a first byte, so that it ends where a character of the message ends. So each round has a text again,
with dots between its characters. A match for a URL consists of dots and ASCII, and of these the
callback leaves out the dots. -/
theorem eraseDots_privmsgNh (myNick : Bytes) (list : List IrcUser) (cs : List Char) :
    ∃ sent, privmsgNh myNick list (utf8Text cs) = some sent ∧ (sent = none ↔ cs = []) ∧
      ∀ buf ∈ sent, eraseDots buf = eraseDots (utf8Text cs) := by
  by_cases hcs : cs = []
  · subst hcs
    exact ⟨none, rfl, by simp, by simp⟩
  · have hmsg : utf8Text cs ≠ [] := fun h => hcs (utf8Text_injective (h.trans rfl))
    obtain ⟨ds, hds, hdots⟩ := exists_preventIrcHighlightingAll myNick list cs
    obtain ⟨es, hes, hdots'⟩ := exists_replaceUrls ds
    refine ⟨some (utf8Text es), ?_, by simpa using hcs, fun buf hbuf => ?_⟩
    · rw [privmsgNh, if_neg hmsg, hds, Option.map_some, removeDotsOnUrls, utf8Chars?_utf8Text]
      exact congrArg (some ∘ some) hes
    · obtain rfl : utf8Text es = buf := by simpa using hbuf
      rw [eraseDots_utf8Text, eraseDots_utf8Text, hdots', hdots]

end Meowbot
