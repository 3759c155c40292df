import Meowbot.IrcUtils
import Meowbot.Lib.WordBreak
import Meowbot.Utf8Index
import Meowbot.Wildcard

set_option relaxedAutoImplicit false
set_option autoImplicit false

/-!
# Highlight prevention (`etc.cpp`, `ircbot.cpp`)

So that a client does not highlight a message, a dot is put behind the first character of every nick
in it. The nicks are found by a regular expression for a literal text; the library replaces the
leftmost matches that do not overlap. It compares bytes, with the letters of ASCII in either case.

## Main definitions

* `Meowbot.preventIrcHighlighting1`, `Meowbot.preventIrcHighlighting`,
  `Meowbot.preventIrcHighlightingAll` — the three functions.
* `Meowbot.Nick` — a nick of at least two characters with no dot in it.
* `Meowbot.Highlights` — a nick occurs in a text.
* `Meowbot.Nick.EachBroken`, `Meowbot.EachStepBreaks` — a dot comes into each occurrence of a nick.

## Main results

* `Meowbot.preventsHighlighting_iff` — when a nick is left in a message, and when one of a list is.
* `Meowbot.Nick.prevented_forall_iff` — the nicks that are left in no message.
-/

namespace Meowbot

open WordBreak

/-! ## The source -/

/-- `"·"` -/
def middleDot : Bytes := [0xC2, 0xB7]

/-- A text with its letters in lower case, as the library compares them. -/
def foldCase (s : Bytes) : Bytes := s.map tolower

/-- `prevent_irc_highlighting_1` -/
def preventIrcHighlighting1 (nick : Bytes) : Option Bytes := do
  let b1 ← utf8StrposS nick 0
  let b2 ← utf8SubstrS nick 1 (-1)
  if b2 = [] then some nick else some (b1 ++ middleDot ++ b2)

/-- The places of the matches for a literal text. The pattern is a C string, and a match is given by
two `int`: nothing is found for a text that holds a terminator or is too long. -/
def matchPlaces (word str : Bytes) : List ℕ :=
  if 0 ∉ word ∧ word.length ≤ int32Max then found (foldCase word) (foldCase str) else []

/-- `pcrecpp::RE::GlobalReplaceCallback` from a place on, for the matches of one length that are
left. -/
def globalReplaceCallback (cb : Bytes → Option Bytes) (len : ℕ) (str : Bytes) :
    ℕ → List ℕ → Option Bytes
  | start, [] => some (str.drop start)
  | start, matchstart :: ps => do
    let s ← cb ((str.drop matchstart).take len)
    let out ← globalReplaceCallback cb len str (matchstart + len) ps
    some ((str.drop start).take (matchstart - start) ++ s ++ out)

/-- `prevent_irc_highlighting` -/
def preventIrcHighlighting (word msg : Bytes) : Option Bytes :=
  globalReplaceCallback preventIrcHighlighting1 word.length msg 0 (matchPlaces word msg)

/-- One round of the loop of `ircbot_conn::prevent_irc_highlighting_all`. -/
def preventUser (myNick : Bytes) (it : IrcUser) (msg : Bytes) : Option Bytes :=
  if it.nick ≠ myNick then preventIrcHighlighting it.nick msg else some msg

/-- `ircbot_conn::prevent_irc_highlighting_all`, for the users of the channel in their order. -/
def preventIrcHighlightingAll (myNick : Bytes) : List IrcUser → Bytes → Option Bytes
  | [], msg => some msg
  | it :: list, msg => (preventUser myNick it msg).bind (preventIrcHighlightingAll myNick list)

/-! ## What it is for -/

/-- **A nick occurs in a text**, in whatever case. -/
def Highlights (nick text : Bytes) : Prop := foldCase nick <:+: foldCase text

/-- **A nick** of at least two characters with no dot in it. -/
structure Nick extends Utf8String where
  two : 2 ≤ toUtf8String.size
  dotless : ¬ middleDot <:+: toUtf8String.str

/-- **The nick does not occur in the message any more.** -/
def Nick.Prevented (w : Nick) (msg : Bytes) : Prop :=
  ∃ r, preventIrcHighlighting w.str msg = some r ∧ ¬ Highlights w.str r

/-- **The nicks of the list do not occur in the message any more**, but for the own nick. -/
def PreventedAll (myNick : Bytes) (list : List IrcUser) (msg : Bytes) : Prop :=
  ∃ r, preventIrcHighlightingAll myNick list msg = some r ∧
    ∀ w : Nick, w.str ∈ list.map (·.nick) → w.str ≠ myNick → ¬ Highlights w.str r

/-- The places behind the first character of each match. -/
def Nick.dotPlaces (w : Nick) (msg : Bytes) : List ℕ :=
  (matchPlaces w.str msg).map (· + w.before 1)

/-- **Each occurrence of the nick is broken**, those that overlap another included: the end of the
first character of some match lies in it. -/
def Nick.EachBroken (w : Nick) (msg : Bytes) : Prop :=
  ∀ p, foldCase w.str <+: (foldCase msg).drop p →
    ∃ c ∈ w.dotPlaces msg, p < c ∧ c < p + w.str.length

/-- **Each round breaks the occurrences of its nick** in the text that it is given. -/
def EachStepBreaks (myNick : Bytes) : List IrcUser → Bytes → Prop
  | [], _ => True
  | it :: list, msg =>
    (it.nick ≠ myNick → ∀ w : Nick, w.str = it.nick → w.EachBroken msg) ∧
      ∀ msg', preventUser myNick it msg = some msg' → EachStepBreaks myNick list msg'

/-! ## Letters in either case -/

/-- A byte is of the same kind in lower case, and only ASCII changes. -/
lemma tolower_spec (c : Byte) :
    leadSize (tolower c) = leadSize c ∧ (IsTail (tolower c) ↔ IsTail c) ∧ (tolower c = 0 ↔ c = 0) ∧
      (0x80 ≤ tolower c → tolower c = c) := by
  have hbytes : ∀ c : Byte, leadSize (tolower c) = leadSize c ∧
      (tolower c &&& 0xC0 = 0x80 ↔ c &&& 0xC0 = 0x80) ∧ (tolower c = 0 ↔ c = 0) ∧
        (0x80 ≤ tolower c → tolower c = c) :=
    forall_byte (by decide +kernel)
  exact hbytes c

/-- A text has the length of its form in lower case. -/
@[simp] lemma length_foldCase (s : Bytes) : (foldCase s).length = s.length := List.length_map _

/-- There is no terminator in a text if there is none in its form in lower case. -/
lemma zero_mem_foldCase (s : Bytes) : 0 ∈ foldCase s ↔ 0 ∈ s := by
  rw [foldCase, List.mem_map]
  constructor
  · rintro ⟨c, hc, h0⟩
    rwa [(tolower_spec c).2.2.1.mp h0] at hc
  · exact fun h => ⟨0, h, rfl⟩

/-- The later bytes of a character are such in either case. -/
lemma forall_isTail_foldCase (l : Bytes) :
    (∀ t ∈ foldCase l, IsTail t) ↔ ∀ t ∈ l, IsTail t := by
  rw [foldCase, List.forall_mem_map]
  exact forall₂_congr fun t _ => (tolower_spec t).2.1

/-- A character in the one case is one in the other. -/
lemma isChar_foldCase (c : Bytes) : IsChar (foldCase c) ↔ IsChar c := by
  have hpiece : Pieces.IsPiece leadSize IsTail (foldCase c) ↔ Pieces.IsPiece leadSize IsTail c := by
    cases c with
    | nil => exact Iff.rfl
    | cons b l =>
      show leadSize (tolower b) = some (foldCase l).length ∧ (∀ t ∈ foldCase l, IsTail t) ↔
        leadSize b = some l.length ∧ ∀ t ∈ l, IsTail t
      rw [(tolower_spec b).1, length_foldCase, forall_isTail_foldCase]
  constructor
  · rintro ⟨h, h0⟩
    exact ⟨hpiece.mp h, fun hmem => h0 ((zero_mem_foldCase c).mpr hmem)⟩
  · rintro ⟨h, h0⟩
    exact ⟨hpiece.mpr h, fun hmem => h0 ((zero_mem_foldCase c).mp hmem)⟩

/-- **A text in another case** has the characters of the text in that case.

**Proof sketch.** By induction on the characters. Folding changes neither the number of bytes nor
which of them are later bytes of a character, so the same cut gives characters again. -/
lemma exists_chars_of_foldCase {cs : List Bytes} (hcs : ∀ c ∈ cs, IsChar c) {m : Bytes}
    (h : foldCase m = foldCase cs.flatten) :
    ∃ ds : List Bytes, (∀ d ∈ ds, IsChar d) ∧ ds.flatten = m ∧
      ds.map List.length = cs.map List.length := by
  induction cs generalizing m with
  | nil =>
    obtain rfl : m = [] := by simpa [foldCase] using h
    exact ⟨[], by simp, rfl, rfl⟩
  | cons c cs ih =>
    obtain ⟨hc, hcs⟩ := List.forall_mem_cons.mp hcs
    have hlen : c.length ≤ m.length := by
      rw [← length_foldCase m, h, length_foldCase, List.flatten_cons, List.length_append]
      omega
    have hsplit : foldCase (m.take c.length) ++ foldCase (m.drop c.length) =
        foldCase c ++ foldCase cs.flatten := by
      rw [foldCase, foldCase, ← List.map_append, List.take_append_drop]
      simpa [foldCase] using h
    obtain ⟨htake, hdrop⟩ := List.append_inj hsplit (by simp [hlen])
    obtain ⟨ds, hds, hflat, hlens⟩ := ih hcs hdrop
    refine ⟨m.take c.length :: ds, List.forall_mem_cons.mpr ⟨?_, hds⟩, ?_, ?_⟩
    · rw [← isChar_foldCase, htake, isChar_foldCase]
      exact hc
    · rw [List.flatten_cons, hflat, List.take_append_drop]
    · rw [List.map_cons, List.map_cons, hlens, List.length_take, Nat.min_eq_left hlen]

/-! ## The replacement -/

/-- A dot is put between two parts. -/
lemma preventIrcHighlighting1_of_ne_nil {nick b1 b2 : Bytes} (h1 : utf8StrposS nick 0 = some b1)
    (h2 : utf8SubstrS nick 1 (-1) = some b2) (hne : b2 ≠ []) :
    preventIrcHighlighting1 nick = some (b1 ++ middleDot ++ b2) := by
  rw [preventIrcHighlighting1, h1, h2]
  exact if_neg hne

/-- **A match of at least two characters** gets a dot behind the first.

**Proof sketch.** The first character and what is behind it are found, as the sizes are in the range
of `int` (`Utf8String.utf8StrposS_iff`, `Utf8String.utf8SubstrS_iff`), and the dot is put between
them. -/
lemma preventIrcHighlighting1_eq (s : Utf8String) (h2 : 2 ≤ s.size)
    (hlen : s.str.length ≤ int32Max) :
    preventIrcHighlighting1 s.str = some (insertAt middleDot s.str 0 [s.before 1]) := by
  have hpos := (s.utf8StrposS_iff 0).mpr
    ⟨fun h => absurd h (by decide), by simp [Utf8String.front, Utf8String.before]⟩
  have hsub := (s.utf8SubstrS_iff 1 (-1)).mpr ⟨fun h => absurd h (by decide), fun _ =>
    ⟨fun _ => hlen, fun h => absurd h (by decide), fun h => absurd h (by decide)⟩⟩
  obtain ⟨_ | ⟨c, _ | ⟨d, cs⟩⟩, hchars⟩ := s
  · simp [Utf8String.size] at h2
  · simp [Utf8String.size] at h2
  · have hd := (hchars d (by simp)).length_pos
    have hbefore : Utf8String.before ⟨c :: d :: cs, hchars⟩ 1 = c.length := by
      simp [Utf8String.before]
    have hne : (d :: cs).flatten ≠ [] := by
      rw [← List.length_pos_iff, List.flatten_cons, List.length_append]
      omega
    have hstr : Utf8String.str ⟨c :: d :: cs, hchars⟩ = c ++ (d :: cs).flatten := rfl
    rw [preventIrcHighlighting1_of_ne_nil hpos hsub hne, hbefore, hstr, insertAt, insertAt,
      List.drop_zero, Nat.sub_zero, List.take_left, List.drop_left]
    rfl

/-- The first character of a C string that is refused is empty.

**Proof sketch.** The loop takes one round: it asks for the size of the first character, which is
negative if the character is refused. -/
lemma utf8StrposS_zero {c : Byte} {cs : Bytes} (hc : c ≠ 0) (h : 0 ∉ cs) {n : ℤ}
    (hsize : utf8GetsizeCharMem (c :: (cs ++ [0])) = some n)
    (hn : n < 0 ∨ 0 < n ∧ n ≤ 4 ∧ n ≤ cs.length + 1) :
    utf8StrposS (c :: cs) 0 = some ((c :: cs).take n.toNat) := by
  have hpos : utf8StrposGetpos (c :: cs ++ [0]) (0 : Int32).toInt =
      some (if n < 0 then none else some (0, n.toNat)) := by
    show utf8StrposLoop 0 (c :: (cs ++ [0])) 0 0 = _
    rw [utf8StrposLoop_of_size hc hsize, if_pos rfl]
    split_ifs <;> rfl
  rw [utf8StrposS, utf8Strpos, hpos]
  by_cases hneg : n < 0
  · rw [if_pos hneg, Int.toNat_of_nonpos hneg.le]
    rfl
  · have hle : n.toNat ≤ (c :: cs).length := by
      rw [List.length_cons]
      omega
    have hmem : 0 ∉ (c :: cs).take n.toNat := by
      intro h0
      obtain rfl | h0 := List.mem_cons.mp (List.mem_of_mem_take h0)
      · exact hc rfl
      · exact h h0
    have hslice : slice (c :: cs ++ [0]) 0 n.toNat = some ((c :: cs).take n.toNat) := by
      rw [slice, if_pos ⟨le_rfl, by simp at hle ⊢; omega⟩, Int.toNat_zero, List.drop_zero,
        List.take_append_of_le_length hle]
    rw [if_neg hneg]
    simp only [Option.bind_eq_bind, Option.bind_some]
    rw [if_pos (by omega), hslice]
    exact congrArg some (cstr_eq_self hmem)

/-- There is no second character. -/
lemma utf8SubstrS_one_of_none {m : Bytes} {pos : ℤ}
    (hloop : utf8SubstrLoop (m ++ [0]) 1 (-1) (m ++ [0]) 0 0 (-1) = some (-1, -1, pos)) :
    utf8SubstrS m 1 (-1) = some [] := by
  have hget : utf8SubstrGetpos (m ++ [0]) (1 : Int32).toInt (-1 : Int32).toInt = some none := by
    show utf8SubstrFrom (m ++ [0]) (-1) 1 = some none
    rw [utf8SubstrFrom, hloop]
    rfl
  rw [utf8SubstrS, hget]
  rfl

/-- The characters from the second on. -/
lemma utf8SubstrS_one_of_some {m : Bytes} {k : ℕ} (hk : k ≤ m.length)
    (hloop : utf8SubstrLoop (m ++ [0]) 1 (-1) (m ++ [0]) 0 0 (-1) =
      some ((k : ℤ), (m.length : ℤ), (k : ℤ))) :
    utf8SubstrS m 1 (-1) = some (m.drop k) := by
  have hget : utf8SubstrGetpos (m ++ [0]) (1 : Int32).toInt (-1 : Int32).toInt =
      some (some ((k : ℤ), m.length - k)) := by
    show utf8SubstrFrom (m ++ [0]) (-1) 1 = _
    rw [utf8SubstrFrom, hloop]
    simp only [Option.bind_eq_bind, Option.bind_some]
    have hend : (if (m.length : ℤ) < 0 then (k : ℤ) else m.length) = m.length := if_neg (by omega)
    rw [hend, if_pos (by omega), if_pos (by omega),
      show ((m.length : ℤ) - k).toNat = m.length - k by omega]
  rw [utf8SubstrS, hget]
  show slice (m ++ [0]) k (m.length - k) = some (m.drop k)
  rw [slice, if_pos ⟨by omega, by simp; omega⟩, Int.toNat_natCast,
    List.drop_append_of_le_length hk, List.take_append_of_le_length (by simp),
    List.take_of_length_le (by simp)]

/-- The round of the loop for the second character: there is none, or it begins here. -/
lemma utf8SubstrLoop_second {rest : Bytes} (h0 : 0 ∉ rest) (str : Bytes) (k : ℤ) :
    utf8SubstrLoop str 1 (-1) (rest ++ [0]) k 1 (-1) = some (-1, -1, k) ∨
      utf8SubstrLoop str 1 (-1) (rest ++ [0]) k 1 (-1) =
        some (k, (Int32.ofNat (cstr str).length).toInt, k) := by
  cases rest with
  | nil => exact .inl (utf8SubstrLoop_nil _ 1 (-1) k 1 _)
  | cons d ds =>
    obtain ⟨hd, hds⟩ := List.ne_and_not_mem_of_not_mem_cons h0
    obtain ⟨n, hsize, hn⟩ := exists_utf8GetsizeCharMem hd.symm hds
    rw [List.cons_append, utf8SubstrLoop_of_size hd.symm hsize]
    obtain hneg | ⟨hpos, -, -⟩ := hn
    · exact .inl (if_neg (by omega))
    · rw [if_pos hpos, if_pos ⟨rfl, by omega⟩, if_pos rfl]
      exact .inr rfl

/-- What is behind the first character of a C string, if it is not refused.

**Proof sketch.** The first round of the loop ends at a character that is refused, with nothing;
otherwise the substring begins behind that character and goes to the end. -/
lemma utf8SubstrS_one {c : Byte} {cs : Bytes} (h0 : 0 ∉ c :: cs)
    (hlen : (c :: cs).length ≤ int32Max) {n : ℤ}
    (hsize : utf8GetsizeCharMem (c :: (cs ++ [0])) = some n)
    (hn : n < 0 ∨ 0 < n ∧ n ≤ 4 ∧ n ≤ cs.length + 1) :
    utf8SubstrS (c :: cs) 1 (-1) = some [] ∨
      0 < n ∧ utf8SubstrS (c :: cs) 1 (-1) = some ((c :: cs).drop n.toNat) := by
  obtain ⟨hc, -⟩ := List.ne_and_not_mem_of_not_mem_cons h0
  have hround := utf8SubstrLoop_of_size hc.symm hsize (c :: cs ++ [0]) 1 (-1) 0 0 (-1)
  obtain hneg | ⟨hpos, hle, hfit⟩ := hn
  · rw [if_neg (by omega)] at hround
    exact .inl (utf8SubstrS_one_of_none hround)
  · obtain ⟨k, rfl⟩ := Int.eq_ofNat_of_zero_le hpos.le
    have hk : k ≤ (c :: cs).length := by
      rw [List.length_cons]
      omega
    have hdrop : (c :: (cs ++ [0])).drop k = (c :: cs).drop k ++ [0] :=
      List.drop_append_of_le_length hk
    have hzero : 0 ∉ (c :: cs).drop k := fun h => h0 (List.mem_of_mem_drop h)
    have hadd : intAdd 0 (k : ℤ) = some (k : ℤ) := by
      rw [intAdd, int32Max, zero_add, if_pos ⟨by omega, by omega⟩]
    have hone : intAdd 0 1 = some 1 := rfl
    have hend : (Int32.ofNat (cstr (c :: cs ++ [0])).length).toInt = (c :: cs).length := by
      rw [cstr_append_zero h0]
      rw [int32Max] at hlen
      exact Int32.toInt_ofNat_of_lt (by omega)
    rw [if_pos hpos, if_neg (by omega), if_neg (by omega), Option.bind_some,
      if_neg Bool.false_ne_true, hadd, hone, Option.bind_some, Option.bind_some, if_neg (by omega),
      Int.toNat_natCast, hdrop] at hround
    obtain hsecond | hsecond := utf8SubstrLoop_second hzero (c :: cs ++ [0]) k
    · exact .inl (utf8SubstrS_one_of_none (hround.trans hsecond))
    · rw [hend] at hsecond
      exact .inr ⟨hpos, utf8SubstrS_one_of_some hk (hround.trans hsecond)⟩

/-- A place at which a character ends that begins with a first byte of the text. -/
def EndsChar (text : Bytes) (c : ℕ) : Prop :=
  ∃ p b l n, text.drop p = b :: l ∧ leadSize b = some n ∧ c = p + (n + 1)

/-- A character that is not refused begins with a first byte. -/
lemma leadSize_of_utf8GetsizeCharMem {c : Byte} {cs : Bytes} (hc : c ≠ 0) (h : 0 ∉ cs) {n : ℤ}
    (hsize : utf8GetsizeCharMem (c :: (cs ++ [0])) = some n) (hn : 0 < n) :
    ∃ k, leadSize c = some k ∧ n.toNat = k + 1 := by
  have heq := Option.some.inj ((utf8GetsizeCharMem_eq hc h).symm.trans hsize)
  cases hlead : leadSize c with
  | none =>
    obtain rfl : -1 = n := by simpa only [hlead] using heq
    omega
  | some k =>
    simp only [hlead] at heq
    refine ⟨k, rfl, ?_⟩
    split_ifs at heq
    · have hlen : (k : ℤ) + 1 = n := heq
      omega
    · have hlen : -((k : ℤ) + 1) = n := heq
      omega

/-- **What a match is replaced by**: itself, with a dot behind its first character or not.

**Proof sketch.** By the size of the first character: if it is refused, nothing is behind it and the
match stays; otherwise the match is cut behind it, which is a place in it, and the dot is put there.
-/
lemma exists_preventIrcHighlighting1 {m : Bytes} (h0 : 0 ∉ m) (hlen : m.length ≤ int32Max) :
    ∃ ks, Places m 0 ks ∧ (∀ k ∈ ks, ∃ b l n, m = b :: l ∧ leadSize b = some n ∧ k = n + 1) ∧
      preventIrcHighlighting1 m = some (insertAt middleDot m 0 ks) := by
  have hself : ∀ b1, utf8StrposS m 0 = some b1 → utf8SubstrS m 1 (-1) = some [] →
      ∃ ks, Places m 0 ks ∧ (∀ k ∈ ks, ∃ b l n, m = b :: l ∧ leadSize b = some n ∧ k = n + 1) ∧
        preventIrcHighlighting1 m = some (insertAt middleDot m 0 ks) := by
    intro b1 h1 h2
    refine ⟨[], ⟨List.Pairwise.nil, by simp, by simp⟩, by simp, ?_⟩
    rw [preventIrcHighlighting1, h1, h2]
    rfl
  match m, h0 with
  | [], _ =>
    have hpos : utf8StrposGetpos ([] ++ [0]) (0 : Int32).toInt = some none := by
      show utf8StrposLoop 0 [0] 0 0 = some none
      rw [utf8StrposLoop, dif_pos rfl]
    have hb1 : utf8StrposS [] 0 = some [] := by
      rw [utf8StrposS, utf8Strpos, hpos]
      rfl
    exact hself [] hb1 (utf8SubstrS_one_of_none (utf8SubstrLoop_nil _ 1 (-1) 0 0 (-1)))
  | c :: cs, h0 =>
    obtain ⟨hc, hcs⟩ := List.ne_and_not_mem_of_not_mem_cons h0
    obtain ⟨n, hsize, hn⟩ := exists_utf8GetsizeCharMem hc.symm hcs
    have hb1 := utf8StrposS_zero hc.symm hcs hsize hn
    obtain hb2 | ⟨hpos, hb2⟩ := utf8SubstrS_one h0 hlen hsize hn
    · exact hself _ hb1 hb2
    · by_cases hne : (c :: cs).drop n.toNat = []
      · rw [hne] at hb2
        exact hself _ hb1 hb2
      · have hle : n.toNat ≤ (c :: cs).length := by
          by_contra hlt
          exact hne (List.drop_of_length_le (by omega))
        obtain ⟨k, hlead, hk⟩ := leadSize_of_utf8GetsizeCharMem hc.symm hcs hsize hpos
        refine ⟨[n.toNat], ⟨List.pairwise_singleton _ _, by simp, by simpa using hle⟩,
          fun k' hk' => ⟨c, cs, k, rfl, hlead, (List.mem_singleton.mp hk').trans hk⟩, ?_⟩
        rw [preventIrcHighlighting1_of_ne_nil hb1 hb2 hne, insertAt, insertAt, List.drop_zero,
          Nat.sub_zero]

/-- **The replacement puts dots into the text** where it puts them into the matches.

**Proof sketch.** By induction on the matches. What is between two matches is copied, a match is
replaced with its dots, and these are at places of the text as the matches do not overlap. -/
lemma globalReplaceCallback_eq {cb : Bytes → Option Bytes} {len : ℕ} {str : Bytes} {K : ℕ → List ℕ}
    {start : ℕ} {ps : List ℕ} (hps : ps.Pairwise fun p q => p + len ≤ q)
    (hge : ∀ p ∈ ps, start ≤ p ∧ p + len ≤ str.length)
    (hK : ∀ p ∈ ps, Places ((str.drop p).take len) 0 (K p))
    (hcb : ∀ p ∈ ps, cb ((str.drop p).take len) =
      some (insertAt middleDot ((str.drop p).take len) 0 (K p))) :
    globalReplaceCallback cb len str start ps =
      some (insertAt middleDot str start (ps.flatMap fun p => (K p).map (p + ·))) := by
  induction ps generalizing start with
  | nil => rfl
  | cons p ps ih =>
    obtain ⟨hp, hps⟩ := List.pairwise_cons.mp hps
    obtain ⟨⟨hstart, hlen⟩, hge⟩ := List.forall_mem_cons.mp hge
    obtain ⟨hKp, hK⟩ := List.forall_mem_cons.mp hK
    obtain ⟨hcbp, hcb⟩ := List.forall_mem_cons.mp hcb
    have hnext := fun q hq => And.intro (hp q hq) (hge q hq).2
    have hrest := places_flatMap hps hnext hK
    have hall : ∀ c ∈ (K p).map (p + ·) ++ ps.flatMap (fun p => (K p).map (p + ·)), p ≤ c := by
      intro c hc
      obtain hc | hc := List.mem_append.mp hc
      · obtain ⟨k, -, rfl⟩ := List.mem_map.mp hc
        omega
      · have := hrest.ge c hc
        omega
    rw [globalReplaceCallback, hcbp, ih hps hnext hK hcb, List.flatMap_cons,
      insertAt_eq_append middleDot str hstart hall,
      insertAt_map_append middleDot str (by omega) hKp hrest.ge, ← List.append_assoc]
    rfl

/-- A match stands in the text, and is the word in whatever case. -/
lemma of_mem_matchPlaces {word str : Bytes} {p : ℕ} (h : p ∈ matchPlaces word str) :
    p + word.length ≤ str.length ∧ foldCase ((str.drop p).take word.length) = foldCase word ∧
      0 ∉ word ∧ word.length ≤ int32Max := by
  rw [matchPlaces] at h
  split_ifs at h with hword
  · have hlen := le_of_mem_found h
    have hprefix := List.prefix_iff_eq_take.mp (prefix_of_mem_found h)
    rw [length_foldCase, length_foldCase] at hlen
    rw [length_foldCase, foldCase, foldCase, ← List.map_drop, ← List.map_take] at hprefix
    exact ⟨hlen, hprefix.symm, hword⟩
  · exact absurd h List.not_mem_nil

/-- The matches do not overlap. -/
lemma pairwise_matchPlaces (word str : Bytes) :
    (matchPlaces word str).Pairwise fun p q => p + word.length ≤ q := by
  rw [matchPlaces]
  split_ifs
  · have h := pairwise_found (w := foldCase word) (t := foldCase str)
    rwa [length_foldCase] at h
  · exact List.Pairwise.nil

/-- **Any nick**: the replacement puts dots into the message, behind characters.

**Proof sketch.** A match is a part of the message without NUL, so each of them gets its dots
(`exists_preventIrcHighlighting1`), all behind characters, and `globalReplaceCallback_eq` puts these
together. -/
lemma exists_preventIrcHighlighting (word msg : Bytes) :
    ∃ cs, Places msg 0 cs ∧ (∀ c ∈ cs, EndsChar msg c) ∧
      preventIrcHighlighting word msg = some (insertAt middleDot msg 0 cs) := by
  have hmatch : ∀ p, ∃ ks, p ∈ matchPlaces word msg →
      Places ((msg.drop p).take word.length) 0 ks ∧
        (∀ k ∈ ks, ∃ b l n, (msg.drop p).take word.length = b :: l ∧ leadSize b = some n ∧
          k = n + 1) ∧ preventIrcHighlighting1 ((msg.drop p).take word.length) =
          some (insertAt middleDot ((msg.drop p).take word.length) 0 ks) := by
    intro p
    by_cases hp : p ∈ matchPlaces word msg
    · obtain ⟨hlen, hfold, h0, hmax⟩ := of_mem_matchPlaces hp
      have hzero : 0 ∉ (msg.drop p).take word.length := by
        rw [← zero_mem_foldCase, hfold, zero_mem_foldCase]
        exact h0
      obtain ⟨ks, hks⟩ := exists_preventIrcHighlighting1 hzero
        ((List.length_take_le _ _).trans hmax)
      exact ⟨ks, fun _ => hks⟩
    · exact ⟨[], fun h => absurd h hp⟩
  choose K hK using hmatch
  have hge : ∀ p ∈ matchPlaces word msg, 0 ≤ p ∧ p + word.length ≤ msg.length :=
    fun p hp => ⟨Nat.zero_le p, (of_mem_matchPlaces hp).1⟩
  have hps := pairwise_matchPlaces word msg
  refine ⟨_, places_flatMap hps hge fun p hp => (hK p hp).1, fun c hc => ?_,
    globalReplaceCallback_eq hps hge (fun p hp => (hK p hp).1) fun p hp => (hK p hp).2.2⟩
  obtain ⟨p, hp, hc⟩ := List.mem_flatMap.mp hc
  obtain ⟨k, hk, rfl⟩ := List.mem_map.mp hc
  obtain ⟨b, l, n, hmem, hlead, rfl⟩ := (hK p hp).2.1 k hk
  have hdrop : msg.drop p = b :: (l ++ (msg.drop p).drop word.length) := by
    rw [← List.cons_append, ← hmem, List.take_append_drop]
  exact ⟨p, b, _, n, hdrop, hlead, rfl⟩

/-- No character begins with a byte of the first character but its first.

**Proof sketch.** The bytes of a character behind its first are later bytes, and folding leaves
these as they are; the first byte of a character is never one of them. -/
lemma Utf8String.foldCase_getElem?_ne (s : Utf8String) {i : ℕ} (hi : 0 < i) (h : i < s.before 1) :
    (foldCase s.str)[i]? ≠ (foldCase s.str)[0]? := by
  have htailSize : ∀ t : Byte, IsTail t → leadSize t = none := by
    unfold IsTail
    exact forall_byte (by decide +kernel)
  obtain ⟨chars, hchars⟩ := s
  match chars, hchars, h with
  | [], _, h => exact absurd h (by simp [Utf8String.before])
  | [] :: cs, hchars, _ => exact (hchars [] List.mem_cons_self).piece.elim
  | (b :: l) :: cs, hchars, h =>
    obtain ⟨hsize, htail⟩ := (hchars (b :: l) List.mem_cons_self).piece
    have hl : i - 1 < l.length := by
      have hbefore : Utf8String.before ⟨(b :: l) :: cs, hchars⟩ 1 = l.length + 1 := by
        simp [Utf8String.before]
      omega
    have hstr : Utf8String.str ⟨(b :: l) :: cs, hchars⟩ = b :: (l ++ cs.flatten) := rfl
    have hget : (foldCase (b :: (l ++ cs.flatten)))[i]? = some (tolower l[i - 1]) := by
      rw [foldCase, List.getElem?_map, List.getElem?_cons, if_neg (by omega),
        List.getElem?_append_left hl, List.getElem?_eq_getElem hl]
      rfl
    intro heq
    rw [hstr, hget] at heq
    have hbyte : tolower l[i - 1] = tolower b := Option.some.inj heq
    have hlead := (tolower_spec b).1
    rw [← hbyte, (tolower_spec _).1, htailSize _ (htail _ (List.getElem_mem hl)), hsize] at hlead
    exact Option.some_ne_none _ hlead.symm

namespace Nick

variable (w : Nick)

/-- A match for the nick gets a dot behind its first character. -/
lemma preventIrcHighlighting1_match {m : Bytes} (h : foldCase m = foldCase w.str)
    (hlen : m.length ≤ int32Max) :
    preventIrcHighlighting1 m = some (insertAt middleDot m 0 [w.before 1]) := by
  obtain ⟨ds, hds, rfl, hlens⟩ := exists_chars_of_foldCase w.isChar h
  have hsize : ds.length = w.size := by
    rw [← List.length_map (f := List.length), hlens, List.length_map]
    rfl
  have hbefore : Utf8String.before ⟨ds, hds⟩ 1 = w.before 1 := by
    rw [Utf8String.before, Utf8String.before, List.length_flatten, List.length_flatten,
      List.map_take, List.map_take, hlens]
  rw [← hbefore]
  exact preventIrcHighlighting1_eq ⟨ds, hds⟩ (by rw [Utf8String.size, hsize]; exact w.two) hlen

/-- The first character is shorter than the nick. -/
lemma before_one_lt : 0 < w.before 1 ∧ w.before 1 < w.str.length := by
  have htwo := w.two
  have hfirst := w.before_lt (show 0 < 1 by omega) (by omega)
  have hsecond := w.before_lt (show 1 < 2 by omega) (by omega)
  have hmono := w.before_mono htwo
  rw [w.before_of_size_le le_rfl] at hmono
  exact ⟨by omega, by omega⟩

/-- **The message with the dots**: one behind the first character of each match.

**Proof sketch.** A match is the nick in some case, so it is a text of characters of the same sizes,
and the dot is put behind the first of them (`preventIrcHighlighting1_eq`). -/
lemma preventIrcHighlighting_eq (msg : Bytes) :
    Places msg 0 (w.dotPlaces msg) ∧
      preventIrcHighlighting w.str msg = some (insertAt middleDot msg 0 (w.dotPlaces msg)) := by
  have hplaces : w.dotPlaces msg =
      (matchPlaces w.str msg).flatMap fun p => [w.before 1].map (p + ·) := by
    rw [dotPlaces, List.map_eq_flatMap]
    rfl
  have hge : ∀ p ∈ matchPlaces w.str msg, 0 ≤ p ∧ p + w.str.length ≤ msg.length :=
    fun p hp => ⟨Nat.zero_le p, (of_mem_matchPlaces hp).1⟩
  have hps := pairwise_matchPlaces w.str msg
  have hK : ∀ p ∈ matchPlaces w.str msg,
      Places ((msg.drop p).take w.str.length) 0 [w.before 1] := by
    intro p hp
    have hlt := w.before_one_lt
    have hlen := (of_mem_matchPlaces hp).1
    refine ⟨List.pairwise_singleton _ _, by simp, ?_⟩
    simp only [List.mem_singleton, List.length_take, List.length_drop]
    omega
  have hcb : ∀ p ∈ matchPlaces w.str msg,
      preventIrcHighlighting1 ((msg.drop p).take w.str.length) =
        some (insertAt middleDot ((msg.drop p).take w.str.length) 0 [w.before 1]) := by
    intro p hp
    obtain ⟨-, hfold, -, hmax⟩ := of_mem_matchPlaces hp
    exact w.preventIrcHighlighting1_match hfold ((List.length_take_le _ _).trans hmax)
  rw [hplaces]
  exact ⟨places_flatMap hps hge hK, globalReplaceCallback_eq hps hge hK hcb⟩

/-! ## What the dots do -/

/-- The last byte of some characters is not the first one of the dot.

**Proof sketch.** By induction on the characters. The last byte of a text is the last one of its
last character, which is a character of one byte, or a later byte; `0xC2` is neither. -/
lemma getLast?_flatten_ne {cs : List Bytes} (hcs : ∀ c ∈ cs, IsChar c) :
    cs.flatten.getLast? ≠ some 0xC2 := by
  induction cs with
  | nil => simp
  | cons c cs ih =>
    obtain ⟨hc, hcs⟩ := List.forall_mem_cons.mp hcs
    rw [List.flatten_cons, List.getLast?_append]
    cases hlast : cs.flatten.getLast? with
    | some b =>
      have := ih hcs
      rw [hlast] at this
      simpa using this
    | none =>
      rw [Option.none_or]
      match c, hc.piece with
      | [b], ⟨hsize, _⟩ =>
        rintro ⟨⟩
        exact absurd hsize (by decide)
      | b :: t :: l, ⟨_, htail⟩ =>
        intro hmem
        rw [List.getLast?_cons_cons] at hmem
        exact absurd (htail 0xC2 (List.mem_of_getLast? hmem)) (by unfold IsTail; decide)

/-- The first byte of some characters is not the second one of the dot. -/
lemma head?_flatten_ne {cs : List Bytes} (hcs : ∀ c ∈ cs, IsChar c) :
    cs.flatten.head? ≠ some 0xB7 := by
  match cs, hcs with
  | [], _ => simp
  | c :: cs, hcs =>
    match c, (hcs c List.mem_cons_self).piece with
    | b :: l, ⟨hsize, _⟩ =>
      rintro ⟨⟩
      have hnone : leadSize 0xB7 = none := by decide
      exact Option.some_ne_none _ (hsize.symm.trans hnone)

/-- **No dot touches a nick.**

**Proof sketch.** A dot would touch the nick only with one of its two bytes at an end of the nick,
or inside of it. Neither byte begins or ends a text of whole characters, and the nick has no dot in
it; folding the case does not make one. -/
lemma clear_foldCase : Clear middleDot (foldCase w.str) := by
  have hbyte : ∀ b : Byte, tolower b = 0xC2 ∨ tolower b = 0xB7 → tolower b = b := by
    rintro b (h | h) <;> exact (tolower_spec b).2.2.2 (by rw [h]; decide)
  refine clear_pair (fun hlast => ?_) (fun hhead => ?_) fun hin => w.dotless ?_
  · rw [foldCase, List.getLast?_map, Option.map_eq_some_iff] at hlast
    obtain ⟨b, hb, h⟩ := hlast
    rw [← hbyte b (.inl h), h] at hb
    exact getLast?_flatten_ne w.isChar hb
  · rw [foldCase, List.head?_map, Option.map_eq_some_iff] at hhead
    obtain ⟨b, hb, h⟩ := hhead
    rw [← hbyte b (.inr h), h] at hb
    exact head?_flatten_ne w.isChar hb
  · obtain ⟨l, hl, hmap⟩ := List.infix_map_iff.mp hin
    have hlen : l.length = 2 := by simpa using congrArg List.length hmap.symm
    obtain ⟨b, b', rfl⟩ := List.length_eq_two.mp hlen
    simp only [List.map_cons, List.map_nil, List.cons.injEq, and_true] at hmap
    obtain ⟨h, h'⟩ := hmap
    rwa [← hbyte b (.inl h.symm), ← hbyte b' (.inr h'.symm), ← h, ← h'] at hl

/-- **A nick in a text with dots** stood in the text, and no dot came into it. -/
lemma highlights_insertAt_iff {text : Bytes} {cs : List ℕ} (hcs : Places text 0 cs) :
    Highlights w.str (insertAt middleDot text 0 cs) ↔
      ∃ p, foldCase w.str <+: (foldCase text).drop p ∧
        ∀ c ∈ cs, ¬ (p < c ∧ c < p + w.str.length) := by
  have hplaces : Places (foldCase text) 0 cs :=
    ⟨hcs.sorted, hcs.ge, by simpa only [length_foldCase] using hcs.le⟩
  have hdot : middleDot.map tolower = middleDot := by decide
  have hfold : foldCase (insertAt middleDot text 0 cs) =
      insertAt middleDot (foldCase text) 0 cs := by
    rw [foldCase, map_insertAt, hdot]
    rfl
  rw [Highlights, hfold, infix_insertAt_iff w.clear_foldCase hplaces, length_foldCase]
  simp only [Nat.zero_le, true_and]

/-- **One nick**: it does not occur in the message any more exactly if each of its occurrences is
broken. -/
lemma prevented_iff (msg : Bytes) : w.Prevented msg ↔ w.EachBroken msg := by
  obtain ⟨hplaces, heq⟩ := w.preventIrcHighlighting_eq msg
  have hiff := w.highlights_insertAt_iff hplaces
  constructor
  · rintro ⟨r, hr, hnot⟩ p hp
    obtain rfl := Option.some.inj (heq.symm.trans hr)
    by_contra hall
    exact hnot (hiff.mpr ⟨p, hp, fun c hc hin => hall ⟨c, hc, hin⟩⟩)
  · intro hall
    refine ⟨_, heq, fun h => ?_⟩
    obtain ⟨p, hp, hnone⟩ := hiff.mp h
    obtain ⟨c, hc, hin⟩ := hall p hp
    exact hnone c hc hin

/-- **A round does not bring a nick into the text.** -/
lemma highlights_of_preventUser {myNick : Bytes} {it : IrcUser} {msg msg' : Bytes}
    (h : preventUser myNick it msg = some msg') (hin : Highlights w.str msg') :
    Highlights w.str msg := by
  rw [preventUser] at h
  split_ifs at h
  · obtain ⟨cs, hcs, -, heq⟩ := exists_preventIrcHighlighting it.nick msg
    obtain rfl := Option.some.inj (heq.symm.trans h)
    obtain ⟨p, hp, -⟩ := (w.highlights_insertAt_iff hcs).mp hin
    exact infix_iff_exists_drop.mpr ⟨p, hp⟩
  · obtain rfl := Option.some.inj h
    exact hin

/-- The matches for a nick that is not too long. -/
lemma matchPlaces_eq (hlen : w.str.length ≤ int32Max) (msg : Bytes) :
    matchPlaces w.str msg = found (foldCase w.str) (foldCase msg) :=
  if_pos ⟨zero_notMem_flatten w.isChar, hlen⟩

/-- **A nick that overlaps itself** is left in a message that is too short for two matches.

**Proof sketch.** Take the nick with its first bytes in front of it. The message has the nick at two
places, but there is room for one match only, whose dot is behind the first character, in front of
the second occurrence. -/
lemma not_eachBroken_of_overlap (hlen : w.str.length ≤ int32Max) {s : ℕ} (hs : 0 < s)
    (hsw : s < w.str.length) (hpre : (foldCase w.str).drop s <+: foldCase w.str) :
    ¬ w.EachBroken (w.str.take s ++ w.str) := by
  intro hbroken
  have hfold : foldCase (w.str.take s ++ w.str) = (foldCase w.str).take s ++ foldCase w.str := by
    rw [foldCase, List.map_append, List.map_take]
    rfl
  have hsecond : foldCase w.str <+: (foldCase (w.str.take s ++ w.str)).drop s := by
    rw [hfold, List.drop_append_of_le_length (by rw [List.length_take, length_foldCase]; omega),
      List.drop_of_length_le (by rw [List.length_take]; omega)]
    exact List.prefix_rfl
  obtain ⟨c, hc, hsc, -⟩ := hbroken s hsecond
  rw [dotPlaces, w.matchPlaces_eq hlen, List.mem_map] at hc
  obtain ⟨p, hp, rfl⟩ := hc
  rw [hfold] at hp
  obtain rfl := eq_zero_of_mem_found (by rwa [length_foldCase]) hpre hp
  -- the second occurrence would begin within the first character
  refine w.foldCase_getElem?_ne hs (by omega) ?_
  obtain ⟨l, hl⟩ := hpre
  conv_rhs => rw [← hl]
  rw [List.getElem?_append_left (by rw [List.length_drop, length_foldCase]; omega),
    List.getElem?_drop, add_zero]

/-- **The nicks that occur in no message any more** are those that do not overlap themselves.

**Proof sketch.** An occurrence that is no match begins within one, and then the nick overlaps
itself. A nick that does occurs twice in a message that is too short for two matches. The first
character of the one match ends before the second occurrence, as it begins with a first byte. -/
theorem prevented_forall_iff (hlen : w.str.length ≤ int32Max) :
    (∀ msg, w.Prevented msg) ↔ ¬ OverlapsItself (foldCase w.str) := by
  have hlt := w.before_one_lt
  constructor
  · rintro h ⟨s, hs, hsw, hpre⟩
    rw [length_foldCase] at hsw
    exact w.not_eachBroken_of_overlap hlen hs hsw hpre ((w.prevented_iff _).mp (h _))
  · intro h msg
    rw [w.prevented_iff]
    intro p hp
    have hne : foldCase w.str ≠ [] := by
      rw [← List.length_pos_iff, length_foldCase]
      omega
    obtain ⟨q, hq, hqp, hpq⟩ := exists_mem_found hne hp
    obtain rfl : q = p := by
      by_contra hneq
      exact h (overlapsItself_of_overlap (prefix_of_mem_found hq) hp (by omega) hpq)
    refine ⟨q + w.before 1, ?_, by omega, by omega⟩
    rw [dotPlaces, w.matchPlaces_eq hlen]
    exact List.mem_map_of_mem hq

end Nick

/-! ## The users of a channel -/

/-- A round has a result. -/
lemma exists_preventUser (myNick : Bytes) (it : IrcUser) (msg : Bytes) :
    ∃ msg', preventUser myNick it msg = some msg' := by
  rw [preventUser]
  split_ifs
  · obtain ⟨cs, -, -, heq⟩ := exists_preventIrcHighlighting it.nick msg
    exact ⟨_, heq⟩
  · exact ⟨msg, rfl⟩

/-- **The rounds do not bring a nick into the text.** -/
lemma Nick.highlights_of_all (w : Nick) {myNick : Bytes} {list : List IrcUser} {msg r : Bytes}
    (h : preventIrcHighlightingAll myNick list msg = some r) (hin : Highlights w.str r) :
    Highlights w.str msg := by
  induction list generalizing msg with
  | nil =>
    obtain rfl := Option.some.inj h
    exact hin
  | cons it list ih =>
    obtain ⟨msg', hstep, hrest⟩ := Option.bind_eq_some_iff.mp h
    exact w.highlights_of_preventUser hstep (ih hrest)

/-- A round for a nick breaks its occurrences exactly if the nick does not occur behind it. -/
lemma Nick.eachBroken_iff (w : Nick) {myNick : Bytes} {it : IrcUser} {msg msg' : Bytes}
    (hne : it.nick ≠ myNick) (hw : w.str = it.nick) (h : preventUser myNick it msg = some msg') :
    w.EachBroken msg ↔ ¬ Highlights w.str msg' := by
  rw [preventUser, if_pos hne, ← hw] at h
  rw [← w.prevented_iff]
  constructor
  · rintro ⟨r, hr, hnot⟩
    rwa [Option.some.inj (h.symm.trans hr)]
  · exact fun hnot => ⟨msg', h, hnot⟩

/-- **A list of nicks**: the nicks of the list and of each of its beginnings do not occur in the
message any more exactly if each round breaks the occurrences of its nick.

**Proof sketch.** By induction on the list. The message of a round is the one that the rounds before
have made, so the beginnings of the list are followed through the rounds, and the last round of each
has to break its nick without making one of those before. -/
lemma preventedAll_iff (myNick : Bytes) (list : List IrcUser) (msg : Bytes) :
    (∀ done, done <+: list → PreventedAll myNick done msg) ↔ EachStepBreaks myNick list msg := by
  have hnil : ∀ msg, PreventedAll myNick [] msg := fun msg => ⟨msg, rfl, by simp⟩
  induction list generalizing msg with
  | nil =>
    refine iff_of_true (fun done hdone => ?_) trivial
    rw [List.prefix_nil.mp hdone]
    exact hnil msg
  | cons it list ih =>
    obtain ⟨msg', hstep⟩ := exists_preventUser myNick it msg
    have hall : ∀ done, preventIrcHighlightingAll myNick (it :: done) msg =
        preventIrcHighlightingAll myNick done msg' := by
      intro done
      rw [preventIrcHighlightingAll, hstep, Option.bind_some]
    constructor
    · intro h
      refine ⟨fun hne w hw => ?_, fun msg'' hstep' => (ih msg'').mp fun done hdone => ?_⟩
      · obtain ⟨r, hr, hnot⟩ := h [it] (List.prefix_append [it] list)
        obtain rfl : msg' = r := Option.some.inj ((hall []).symm.trans hr)
        exact (w.eachBroken_iff hne hw hstep).mpr (hnot w (by simp [hw]) (hw ▸ hne))
      · obtain rfl := Option.some.inj (hstep.symm.trans hstep')
        obtain ⟨r, hr, hnot⟩ := h (it :: done) (List.prefix_cons_inj it |>.mpr hdone)
        exact ⟨r, (hall done).symm.trans hr, fun w hw => hnot w (List.mem_cons_of_mem _ hw)⟩
    · rintro ⟨hbreaks, hrest⟩ done hdone
      match done, hdone with
      | [], _ => exact hnil msg
      | it' :: done, hdone =>
        obtain ⟨rfl, hdone'⟩ := List.cons_prefix_cons.mp hdone
        obtain ⟨r, hr, hnot⟩ := (ih msg').mpr (hrest msg' hstep) done hdone'
        refine ⟨r, (hall done).trans hr, fun w hw hne => ?_⟩
        obtain hw | hw := List.mem_cons.mp hw
        · have hne' : it'.nick ≠ myNick := fun h => hne (hw.trans h)
          have hgone := (w.eachBroken_iff hne' hw hstep).mp (hbreaks hne' w hw)
          exact fun hin => hgone (w.highlights_of_all hr hin)
        · exact hnot w hw hne

/-- **A message with dots in it highlights nobody**, as far as the matches reach. A nick does not
occur in the message any more exactly if each of its occurrences, those that overlap another
included, is broken: the end of the first character of some match lies in it. The nicks of a list
and of each of its beginnings do not occur any more exactly if each round breaks the occurrences of
its nick in the text that it is given.

**Proof sketch.** The replacement puts a dot behind the first character of each match. A nick has no
dot in it, and no part of one at its ends, so that an occurrence in the result is one in the message
into which no dot came. So no round brings back a nick that has gone. -/
theorem preventsHighlighting_iff (w : Nick) (msg myNick text : Bytes) (list : List IrcUser) :
    (w.Prevented msg ↔ w.EachBroken msg) ∧
      ((∀ done, done <+: list → PreventedAll myNick done text) ↔
        EachStepBreaks myNick list text) :=
  ⟨w.prevented_iff msg, preventedAll_iff myNick list text⟩

/-- A nick of one letter twice. -/
def nickAa : Nick where
  chars := [bytes "a", bytes "a"]
  isChar := by
    intro c hc
    obtain rfl : c = bytes "a" := by simpa using hc
    exact ⟨⟨rfl, by simp⟩, by decide⟩
  two := by decide
  dotless := by decide

/-- **An occurrence that overlaps a match is left**: the dot is put into the first two of three
letters, and the last two are the nick.

**Proof sketch.** The replacement is evaluated with `preventIrcHighlighting_eq`; the nick is an
infix of the result. -/
theorem not_preventsHighlighting :
    preventIrcHighlighting nickAa.str (bytes "aaa") = some (bytes "a" ++ middleDot ++ bytes "aa") ∧
      ¬ nickAa.Prevented (bytes "aaa") ∧
        ∀ user : IrcUser, user.nick = nickAa.str →
          ¬ PreventedAll (bytes "bot") [user] (bytes "aaa") := by
  have heq : preventIrcHighlighting nickAa.str (bytes "aaa") =
      some (bytes "a" ++ middleDot ++ bytes "aa") := by
    rw [(nickAa.preventIrcHighlighting_eq _).2]
    decide
  have hin : Highlights nickAa.str (bytes "a" ++ middleDot ++ bytes "aa") := by
    show foldCase nickAa.str <:+: foldCase (bytes "a" ++ middleDot ++ bytes "aa")
    decide
  refine ⟨heq, ?_, ?_⟩
  · rintro ⟨r, hr, hnot⟩
    obtain rfl := Option.some.inj (heq.symm.trans hr)
    exact hnot hin
  · rintro user huser ⟨r, hr, hnot⟩
    have hne : user.nick ≠ bytes "bot" := by
      rw [huser]
      decide
    rw [preventIrcHighlightingAll, preventUser, if_pos hne, huser, heq, Option.bind_some] at hr
    obtain rfl := Option.some.inj hr
    exact hnot nickAa (by simp [huser]) (by decide) hin

end Meowbot
