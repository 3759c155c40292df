import Meowbot.Lib.Chains
import Meowbot.Remember
import Meowbot.Utf8

set_option relaxedAutoImplicit false
set_option autoImplicit false

/-!
# Links between words (`modules/mod_remember.cpp`)

The text of a record may be a link to another word. `getremdb_v2` follows links from a word until it
comes to a record that is none. It gives up at a word without a record, at a link to a word that it
has been at before, and after ten records.

The words with their links are a partial function: a word has a next one if its record is a link.
Following it some times is in `Meowbot.Lib.Chains`. What a link is, and what the nick of a record is
without its host, is stated here without the patterns of the source (`linkWord`, `hostless`).

No lookup finds a record of the word that stands for an absent argument (`noArg`).

## Main definitions

* `Meowbot.getremdbPrimitive`, `Meowbot.getremdbV2` — the source.
* `Meowbot.linkWord`, `Meowbot.hostless` — the word that a text is a link to, and a nick without its
  host.
* `Meowbot.nextWord` — the word that a word is a link to.
* `Meowbot.Reaches` — at most nine links lead from a word to a record that is no link.
* `Meowbot.ResolvesLinks` — what a lookup should give.

## Main results

* `Meowbot.redirect_eq`, `Meowbot.stripHostname_eq` — what the patterns of the source match.
* `Meowbot.getremdbV2_resolves` — the lookup gives what it should.
-/

namespace Meowbot

open Chains SeqPattern

/-! ## The source -/

/-- `([^!@]+).*`, which `FullMatch` anchors at the start only. -/
def reStripHostname : Pattern Byte :=
  ⟨[.many (fun c => c ≠ '!' ∧ c ≠ '@') 1 false, .many dot 0 false], [(0, 1)]⟩

/-- The nick of a record without the host. -/
def stripHostname (nick : Bytes) : Bytes :=
  match reStripHostname.exec nick with
  | some [tmp] => tmp
  | _ => nick

/-- `getremdb_primitive`: the nick and the text. -/
def getremdbPrimitive (db : List WordRecord) (word : Bytes) : Option (Bytes × Bytes) :=
  (selectWord db word).map fun r => (stripHostname r.nick, r.data)

/-- The result of `getremdb_v2`, and its variables `nick`, `desc` and `realword`. -/
structure RemResult where
  ret : ℤ
  nick : Bytes
  desc : Bytes
  realword : Bytes
  deriving DecidableEq

/-- An error. -/
def remError (desc rword : Bytes) : RemResult := ⟨-1, utf8Text "오류".toList, desc, rword⟩

/-- `재귀적 연결은 금지되어있습니다` -/
def recursionDesc : Bytes := utf8Text "재귀적 연결은 금지되어있습니다".toList

/-- The loop of `getremdb_v2`, with the number of rounds that are left. A text that is a link is
followed, unless it leads back to a word that was looked up before; this is an error, as is a word
that does not exist. -/
def getremdbLoop (db : List WordRecord) : ℕ → Bytes → List Bytes → RemResult
  | 0, rword, _ => remError (utf8Text "연결 횟수 제한을 초과했습니다".toList) rword
  | left + 1, rword, redirHistory =>
    match getremdbPrimitive db rword with
    | none =>
      remError
        (if maxRedirects - (left + 1) ≠ 0 then
          utf8Text "존재하지 않는 값으로 redirect할 수 없습니다: ".toList ++
            redirHistory.getLast?.getD [] ++ bytes " -> " ++ rword
        else utf8Text "존재하지 않는 기억입니다".toList) rword
    | some (nick, desc) =>
      match redirect desc with
      | some tmp =>
        if redirHistory.contains tmp then remError recursionDesc rword
        else getremdbLoop db left tmp (redirHistory ++ [rword])
      | none => ⟨0, nick, desc, rword⟩

/-- `getremdb_v2` -/
def getremdbV2 (db : List WordRecord) (word : Bytes) : RemResult :=
  getremdbLoop db maxRedirects word []

/-! ## What a lookup should give -/

variable {db : List WordRecord} {word : Bytes}

/-- The word that a text is a link to: what is behind `link:`, if it is not empty and has no
space. -/
def linkWord (desc : Bytes) : Option Bytes :=
  if desc.take 5 = bytes "link:" ∧ desc.drop 5 ≠ [] ∧ (' ' : Byte) ∉ desc.drop 5 then
    some (desc.drop 5)
  else none

/-- A nick without its host: what is in front of the first `!` or `@`, if there is something. -/
def hostless (nick : Bytes) : Bytes :=
  let front := nick.takeWhile fun c : Byte => c ≠ '!' ∧ c ≠ '@'
  if front = [] then nick else front

/-- The record of a word is the first one that has it. The value of an absent argument has none. -/
def wordRecord (db : List WordRecord) (word : Bytes) : Option WordRecord :=
  if word = noArg then none else db.find? fun r => r.word = word

/-- The word that a word is a link to. -/
def nextWord (db : List WordRecord) (word : Bytes) : Option Bytes :=
  (wordRecord db word).bind fun r => linkWord r.data

/-- At most nine links lead to a record that is no link. -/
def Reaches (db : List WordRecord) (word : Bytes) (r : WordRecord) : Prop :=
  ∃ n ≤ 9, ∃ v, follow (nextWord db) n word = some v ∧ wordRecord db v = some r ∧
    linkWord r.data = none

/-- The links that are followed from a word lead to a word twice. -/
def FormsCycle (db : List WordRecord) (word : Bytes) : Prop :=
  ∃ m n v, m < n ∧ n ≤ maxRedirects ∧ follow (nextWord db) m word = some v ∧
    follow (nextWord db) n word = some v

/-- The result of a lookup is the record that the links lead to, or an error. -/
structure ResolvesLinks (db : List WordRecord) (word : Bytes) (res : RemResult) : Prop where
  found : ∀ r, Reaches db word r → res = ⟨0, hostless r.nick, r.data, r.word⟩
  ret_eq_zero_iff : res.ret = 0 ↔ ∃ r, Reaches db word r
  error : (¬∃ r, Reaches db word r) → res.ret = -1 ∧ res.nick = utf8Text "오류".toList
  cycle : res.ret = -1 → res.desc = recursionDesc → FormsCycle db word

/-! ## The patterns -/

/-- A run of a class that holds the line terminator, at the end of a line: it takes the whole
text, or nothing matches.

**Proof sketch.** If the run is the whole text, it is tried first. Otherwise a shorter run would
have to leave a line terminator, or nothing; but the byte behind the run is neither in the class
nor is it the terminator. -/
lemma matchAtoms_many_lineEnd {p : Byte → Bool} (hp : p LF = true) (s : Bytes) :
    matchAtoms [.many p 1 false, .lineEnd LF] s =
      if s ≠ [] ∧ s.all p then some [s, []] else none := by
  rw [matchAtoms]
  simp only [Bool.false_eq_true, if_false]
  by_cases hall : s.all p
  · have hrun : s.takeWhile p = s := List.takeWhile_eq_self_iff.mpr (List.all_eq_true.mp hall)
    rw [hrun]
    by_cases hs : s = []
    · rw [if_neg (fun h => h.1 hs), hs]
      exact longest_eq_none fun n h1 h2 => by simp at h2; omega
    · rw [if_pos ⟨hs, hall⟩]
      refine longest_eq_some (List.length_pos_iff.mpr hs) le_rfl ?_ fun m h1 h2 => by omega
      rw [List.drop_length, List.take_length]
      rfl
  · rw [if_neg (fun h => hall h.2)]
    refine longest_eq_none fun n h1 h2 => ?_
    have hne : s.dropWhile p ≠ [] := fun h =>
      hall (List.all_eq_true.mpr (List.dropWhile_eq_nil_iff.mp h))
    have hsplit := List.takeWhile_append_dropWhile (p := p) (l := s)
    have hlen := congrArg List.length hsplit
    have hpos := List.length_pos_iff.mpr hne
    rw [List.length_append] at hlen
    rw [Option.map_eq_none_iff, matchAtoms, if_neg]
    rintro (hnil | hlast)
    · rw [List.drop_eq_nil_iff] at hnil
      omega
    · -- the run leaves one byte, which is the one behind it
      have hone : (s.drop n).length = 1 := by rw [hlast]; rfl
      rw [List.length_drop] at hone
      have hn : n = (s.takeWhile p).length := by omega
      have hrest : s.dropWhile p = [LF] := by
        have hdrop := @List.drop_left _ (s.takeWhile p) (s.dropWhile p)
        rw [hsplit, ← hn, hlast] at hdrop
        exact hdrop.symm
      have hhead := List.head_dropWhile_not p hne
      simp only [hrest, List.head_cons] at hhead
      rw [hp] at hhead
      cases hhead

/-- **A link** is what the pattern of the source matches.

**Proof sketch.** The pattern matches if the text begins with its letters, and what is behind them
is not empty, is without a space, and reaches up to the end. -/
lemma redirect_eq (desc : Bytes) : redirect desc = linkWord desc := by
  have hlen : (bytes "link:").length = 5 := by decide
  have hmem : ((desc.drop 5).all fun c => decide (c ≠ (' ' : Byte))) = true ↔
      (' ' : Byte) ∉ desc.drop 5 := by
    simp only [List.all_eq_true, decide_eq_true_eq]
    exact ⟨fun h hin => h _ hin rfl, fun h c hc heq => h (heq ▸ hc)⟩
  rw [redirect, Pattern.exec, reRedir, linkWord]
  dsimp only
  rw [matchAtoms_lits, hlen, matchAtoms_many_lineEnd (by decide)]
  by_cases hpre : bytes "link:" <+: desc
  · have htake : desc.take 5 = bytes "link:" := by
      rw [← hlen]
      exact List.prefix_iff_eq_take.mp hpre |>.symm
    rw [if_pos hpre]
    by_cases hword : desc.drop 5 ≠ [] ∧ (' ' : Byte) ∉ desc.drop 5
    · rw [if_pos ⟨hword.1, hmem.mpr hword.2⟩, if_pos ⟨htake, hword⟩]
      change some (desc.drop 5 ++ []) = _
      rw [List.append_nil]
    · rw [if_neg (fun h => hword ⟨h.1, hmem.mp h.2⟩), if_neg (fun h => hword h.2)]
      rfl
  · have htake : desc.take 5 ≠ bytes "link:" := fun h => hpre (h ▸ List.take_prefix 5 desc)
    rw [if_neg hpre, if_neg (fun h => htake h.1)]
    rfl

/-- **A nick without its host** is what the pattern of the source captures. -/
lemma stripHostname_eq (nick : Bytes) : stripHostname nick = hostless nick := by
  rw [stripHostname, Pattern.exec, reStripHostname, hostless]
  dsimp only
  rw [matchAtoms]
  simp only [Bool.false_eq_true, if_false]
  by_cases hfront : (nick.takeWhile fun c : Byte => decide (c ≠ '!' ∧ c ≠ '@')) = []
  · rw [if_pos hfront, longest_eq_none (by rw [hfront]; intro n h1 h2; simp at h2; omega)]
    rfl
  · rw [if_neg hfront, longest_eq_some (List.length_pos_iff.mpr hfront) le_rfl
      (by rw [matchAtoms_many_end, if_pos (Nat.zero_le _)]; rfl) fun m h1 h2 => by omega]
    change nick.take _ ++ [] = _
    rw [List.append_nil]
    exact (List.prefix_iff_eq_take.mp (List.takeWhile_prefix _)).symm

/-- The lookup of a record. -/
lemma selectWord_eq (db : List WordRecord) (word : Bytes) :
    selectWord db word = wordRecord db word := by
  rw [selectWord, wordRecord]
  by_cases h : word = noArg
  · rw [if_pos h, h]
    exact if_neg (by decide)
  · rw [if_neg h, if_pos]
    rw [bindsAll_iff]
    exact fun hmem => h (List.mem_singleton.mp hmem).symm

/-- The lookup of a word: the nick of its record without the host, and the text. -/
lemma getremdbPrimitive_eq (db : List WordRecord) (word : Bytes) :
    getremdbPrimitive db word = (wordRecord db word).map fun r => (hostless r.nick, r.data) := by
  rw [getremdbPrimitive, selectWord_eq]
  simp only [stripHostname_eq]

/-- A record has the word that it is the record of. -/
lemma word_of_wordRecord {db : List WordRecord} {word : Bytes} {r : WordRecord}
    (h : wordRecord db word = some r) : r.word = word := by
  rw [wordRecord] at h
  split_ifs at h
  simpa using List.find?_some h

/-! ## The loop -/

/-- A record that is no link is the end of a chain. -/
lemma endsAt_of_reaches {r : WordRecord} (h : Reaches db word r) :
    ∃ n ≤ 9, ∃ v, EndsAt (nextWord db) word n v ∧ wordRecord db v = some r ∧
      linkWord r.data = none := by
  obtain ⟨n, hn, v, hfollow, hselect, hnone⟩ := h
  exact ⟨n, hn, v, ⟨hfollow, by rw [nextWord, hselect]; exact hnone⟩, hselect, hnone⟩

/-- An error, where no record is reached. -/
lemma resolvesLinks_remError {desc rword : Bytes} (h : ¬∃ r, Reaches db word r)
    (hcycle : desc = recursionDesc → FormsCycle db word) :
    ResolvesLinks db word (remError desc rword) where
  found r hr := absurd ⟨r, hr⟩ h
  ret_eq_zero_iff := iff_of_false (show (-1 : ℤ) ≠ 0 by decide) h
  error _ := ⟨rfl, rfl⟩
  cycle _ := hcycle

/-- A text with another beginning does not report a cycle. -/
lemma append_ne_recursionDesc {s t : Bytes} (hlen : 3 ≤ s.length)
    (hs : s.take 3 ≠ recursionDesc.take 3) : s ++ t ≠ recursionDesc := by
  intro h
  apply hs
  rw [← h, List.take_append_of_le_length hlen]

/-- **The loop resolves the links** when it is at a word that some links have led to, and the words
on the way are its history.

**Proof sketch.** By induction on the rounds that are left. A word without a record, and a record
that is no link, are the end of the chain of links, which has only one. A link to a word of the
history closes a cycle, and then there is no end. -/
lemma resolvesLinks_getremdbLoop {left : ℕ} {rword : Bytes} {redirHistory : List Bytes}
    (hcount : redirHistory.length + left = maxRedirects)
    (hrword : follow (nextWord db) redirHistory.length word = some rword)
    (hhistory : ∀ v ∈ redirHistory,
      ∃ m < redirHistory.length, follow (nextWord db) m word = some v) :
    ResolvesLinks db word (getremdbLoop db left rword redirHistory) := by
  rw [maxRedirects] at hcount
  induction left generalizing rword redirHistory with
  | zero =>
    refine resolvesLinks_remError ?_ fun h => absurd h (by decide)
    rintro ⟨r, hr⟩
    obtain ⟨n, hn, v, hend, -⟩ := endsAt_of_reaches hr
    have := hend.le_of_isSome (show (follow (nextWord db) redirHistory.length word).isSome by
      rw [hrword]; rfl)
    omega
  | succ left ih =>
    rw [getremdbLoop, getremdbPrimitive_eq]
    cases hselect : wordRecord db rword with
    | none =>
      refine resolvesLinks_remError ?_ ?_
      · rintro ⟨r, hr⟩
        obtain ⟨n, hn, v, hend, hv, -⟩ := endsAt_of_reaches hr
        have hnone : nextWord db rword = none := by rw [nextWord, hselect]; rfl
        obtain ⟨-, rfl⟩ := hend.unique ⟨hrword, hnone⟩
        rw [hselect] at hv
        cases hv
      · intro hdesc
        split_ifs at hdesc
        · rw [List.append_assoc, List.append_assoc] at hdesc
          exact absurd hdesc (append_ne_recursionDesc (by decide) (by decide))
        · exact absurd hdesc (by decide)
    | some r =>
      dsimp only [Option.map_some]
      rw [redirect_eq]
      cases hlink : linkWord r.data with
      | none =>
        have hnone : nextWord db rword = none := by rw [nextWord, hselect]; exact hlink
        have hreaches : Reaches db word r :=
          ⟨redirHistory.length, by omega, rword, hrword, hselect, hlink⟩
        have hunique : ∀ r', Reaches db word r' → r' = r := by
          intro r' hr'
          obtain ⟨n, hn, v, hend, hv, -⟩ := endsAt_of_reaches hr'
          obtain ⟨-, rfl⟩ := hend.unique ⟨hrword, hnone⟩
          exact Option.some.inj (hv.symm.trans hselect)
        have hword : r.word = rword := word_of_wordRecord hselect
        refine ⟨fun r' hr' => ?_, iff_of_true rfl ⟨r, hreaches⟩, fun h => absurd ⟨r, hreaches⟩ h,
          fun h => absurd h (show (0 : ℤ) ≠ -1 by decide)⟩
        rw [hunique r' hr', hword]
      | some tmp =>
        have hnext : nextWord db rword = some tmp := by rw [nextWord, hselect]; exact hlink
        have htmp : follow (nextWord db) (redirHistory.length + 1) word = some tmp := by
          rw [follow_succ, hrword, Option.bind_some, hnext]
        dsimp only
        split_ifs with hmem
        · obtain ⟨m, hm, hv⟩ := hhistory tmp (List.contains_iff_mem.mp hmem)
          refine resolvesLinks_remError ?_ fun _ => ⟨m, _, tmp, by omega, ?_, hv, htmp⟩
          · rintro ⟨r', hr'⟩
            obtain ⟨n, -, v, hend, -⟩ := endsAt_of_reaches hr'
            exact not_endsAt_of_cycle (show m < redirHistory.length + 1 by omega) hv htmp hend
          · rw [maxRedirects]
            omega
        · have hlen : (redirHistory ++ [rword]).length = redirHistory.length + 1 :=
            List.length_append
          refine ih ?_ ?_ ?_
          · rw [hlen]
            omega
          · rw [hlen]
            exact htmp
          · intro v hv
            rw [hlen]
            rcases List.mem_append.mp hv with hv | hv
            · obtain ⟨m, hm, hfollow⟩ := hhistory v hv
              exact ⟨m, by omega, hfollow⟩
            · rw [List.mem_singleton.mp hv]
              exact ⟨_, Nat.lt_succ_self _, hrword⟩

/-- **Links are resolved.** For every database and every word, the result is the record at the end
of at most nine links, with its nick, its text and its word, if there is one, and an error
otherwise; a cycle is reported only if the links form one. The value of an absent argument counts as
a word without a record. -/
theorem getremdbV2_resolves (db : List WordRecord) (word : Bytes) :
    ResolvesLinks db word (getremdbV2 db word) :=
  resolvesLinks_getremdbLoop rfl rfl (by simp)

/-- **A record that no lookup finds**: it is the record of its word, and it is no link, but its word
is the value of an absent argument. -/
theorem getremdbV2_noArg :
    [(⟨1, bytes "n", noArg, bytes "x", 0⟩ : WordRecord)].find? (fun r => r.word = noArg) =
        some ⟨1, bytes "n", noArg, bytes "x", 0⟩ ∧
      linkWord (bytes "x") = none ∧
      (getremdbV2 [⟨1, bytes "n", noArg, bytes "x", 0⟩] noArg).ret = -1 ∧
      (getremdbV2 [⟨1, bytes "n", noArg, bytes "x", 0⟩] noArg).desc =
        utf8Text "존재하지 않는 기억입니다".toList := by
  decide

end Meowbot
