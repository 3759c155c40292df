import Meowbot.Lib.Replacing
import Meowbot.WordQuiz

set_option relaxedAutoImplicit false
set_option autoImplicit false

/-!
# Replacing by patterns (`pcrecpp/pcrecpp.cpp`, `luapcrelib.cpp`, `etc.cpp`)

A pattern is taken as a way to match; `TryMatch` finds the first match from a place on. The loop of
`GlobalReplace` and the one of `GlobalReplaceCallback`, which was added to the library for the bot,
differ only in what they put for a match. `match_all` of the scripts consumes a text match by match,
and each match is searched in what is left.

Places and the count are of type `int` in the library. The count grows by three for a place at most,
so that both are in range for texts shorter than `2 ^ 31 / 3 - 1` bytes, which are meant here.

## Main definitions

* `Meowbot.RE` — a pattern; `RE.globalReplace`, `RE.globalReplaceCallback`, `RE.matchAll` — the
  source.
* `Meowbot.reRewrite` — `RE::Rewrite`.
* `Meowbot.ircColors` — the pattern of `strip_irc_colors`.

## Main results

* `Meowbot.RE.globalReplaceWith_spec` — what is replaced, and what is not.
* `Meowbot.RE.globalReplaceWith_le` — the result is at most three for each place.
* `Meowbot.stripIrcColors_eq_globalReplace` — no formatting is left in a stripped text.
* `Meowbot.RE.matchAll_isSome_iff` — when the consumption of a text ends.
-/

namespace Meowbot

open Replacing
open Replacing.Matcher (Scan)

/-! ## The source -/

/-- Where the groups of a match begin and end, if they take part in it. -/
abbrev Groups := List (Option (ℕ × ℕ))

/-- `pcrecpp::RE`: how the pattern matches, and the options of the loop. -/
structure RE where
  matcher : Matcher Byte Groups
  /-- `NewlineMode` is one of `CRLF`, `ANY` and `ANYCRLF`. -/
  crlf : Bool
  utf8 : Bool

/-- `vec`, with the whole match in front of the groups. -/
def matchVec (m : Hit Groups) : Groups := some (m.start, m.stop) :: m.data

/-- The text of a group. -/
def groupText (text : Bytes) : Option (ℕ × ℕ) → Bytes
  | some (start, limit) => between text start limit
  | none => []

/-- `RE::Rewrite`: what is appended, and the result. A backslash and a digit stand for the text of a
group, two backslashes for one; anything else behind a backslash is an error, and what has been
appended by then stays. -/
def reRewrite (text : Bytes) (vec : Groups) : Bytes → Bytes × Bool
  | [] => ([], true)
  | [c] => if c = 0x5c then ([], false) else ([c], true)
  | c :: d :: s =>
    if c = 0x5c then
      if isDigit d then
        match vec[d.toNat - 48]? with
        | none => ([], false)
        | some g => (groupText text g ++ (reRewrite text vec s).1, (reRewrite text vec s).2)
      else if d = 0x5c then (0x5c :: (reRewrite text vec s).1, (reRewrite text vec s).2)
      else ([], false)
    else (c :: (reRewrite text vec (d :: s)).1, (reRewrite text vec (d :: s)).2)

/-- The groups that `RE::RewriteCallback` collects. -/
def callbackGroups (text : Bytes) (vec : Groups) : List Bytes :=
  (vec.takeWhile Option.isSome).map (groupText text)

namespace RE

/-- `matchend` behind an empty match that is not taken. -/
def advance (re : RE) (str : Bytes) (start : ℕ) : ℕ :=
  let matchend := if start + 1 < str.length ∧ charAt str start = CR ∧ charAt str (start + 1) = LF ∧
    re.crlf then start + 2 else start + 1
  if re.utf8 then
    matchend + ((str.drop matchend).takeWhile fun c => c &&& 0xc0 = 0x80).length
  else matchend

/-- It is a later place. -/
lemma lt_advance (re : RE) (str : Bytes) (start : ℕ) : start < re.advance str start := by
  simp only [advance]
  split_ifs <;> omega

/-- The variables of the loop. -/
structure ReplaceVars where
  count : ℕ
  out : Bytes
  start : ℕ

/-- The loop of `GlobalReplace` and `GlobalReplaceCallback`, with what is put for a match. `lastend`
is none for -1. -/
def globalReplaceLoop (re : RE) (put : Hit Groups → Bytes) (str : Bytes) (lastend : Option ℕ)
    (v : ReplaceVars) : ReplaceVars :=
  if _ : v.start ≤ str.length then
    match _ : re.matcher.find str v.start with
    | none => v
    | some m =>
      if _ : m.start = m.stop ∧ lastend = some m.start then
        let matchend := re.advance str v.start
        globalReplaceLoop re put str lastend
          ⟨v.count + 1, v.out ++ between str v.start matchend, matchend⟩
      else
        globalReplaceLoop re put str (some m.stop)
          ⟨v.count + 2, v.out ++ between str v.start m.start ++ put m, m.stop⟩
  else v
termination_by (str.length + 1 - v.start, if lastend = some v.start then 0 else 1)
decreasing_by
  · have hlt := re.lt_advance str v.start
    exact Prod.Lex.left _ _ (by omega)
  · rename_i m hfind hnew
    obtain ⟨hmatch, hle, -⟩ := Matcher.find_eq_some hfind
    have hstop := hmatch.le
    by_cases heq : m.stop = v.start
    · have hlast : lastend ≠ some v.start := by
        rintro rfl
        exact hnew ⟨by omega, congrArg some (by omega)⟩
      simp only [heq, if_neg hlast, if_true]
      exact Prod.Lex.right _ Nat.zero_lt_one
    · exact Prod.Lex.left _ _ (by omega)

/-- `GlobalReplace` and `GlobalReplaceCallback`: the result, and the text afterwards. -/
def globalReplaceWith (re : RE) (put : Hit Groups → Bytes) (str : Bytes) : ℕ × Bytes :=
  let v := re.globalReplaceLoop put str none ⟨0, [], 0⟩
  if v.count = 0 then (0, str) else (v.count, v.out ++ str.drop v.start)

/-- `RE::GlobalReplace` -/
def globalReplace (re : RE) (rewrite str : Bytes) : ℕ × Bytes :=
  re.globalReplaceWith (fun m => (reRewrite str (matchVec m) rewrite).1) str

/-- `RE::GlobalReplaceCallback`, for a callback that appends a text. -/
def globalReplaceCallback (re : RE) (cb : List Bytes → Bytes) (str : Bytes) : ℕ × Bytes :=
  re.globalReplaceWith (fun m => cb (callbackGroups str (matchVec m))) str

/-- `RE::FindAndConsumeAll`, for a pattern with `n` groups: the rest of the input, and the texts of
the groups. -/
def findAndConsumeAll (re : RE) (n : ℕ) (input : Bytes) : Option (Bytes × List Bytes) :=
  (re.matcher.find input 0).map fun m =>
    (input.drop m.stop,
      (List.range (min n 16)).map fun i => groupText input ((m.data[i]?).getD none))

/-- The loop of `lua_pcre_match_all`, for so many rounds. -/
def matchAll (re : RE) (n : ℕ) : ℕ → Bytes → Option (List (List Bytes))
  | 0, _ => none
  | rounds + 1, input =>
    match re.findAndConsumeAll n input with
    | none => some []
    | some (rest, groups) => (re.matchAll n rounds rest).map (groups :: ·)

/-! ## What is replaced -/

/-- **The loop** takes the matches of a scan, and puts together the text with these replaced.

**Proof sketch.** By the recursion of the loop. A match that is taken is the next one of the scan;
an empty one at the end of the last is skipped, and what is jumped over is copied to the result. -/
lemma globalReplaceLoop_scan (re : RE) (put : Hit Groups → Bytes) (str : Bytes)
    (lastend : Option ℕ) (v : ReplaceVars) (hlast : ∀ l ∈ lastend, l ≤ v.start) :
    ∃ ms, Scan re.matcher str (re.advance str) v.start lastend ms ∧
      (re.globalReplaceLoop put str lastend v).out ++
          str.drop (re.globalReplaceLoop put str lastend v).start =
        v.out ++ splice str put v.start ms ∧
      v.count + 2 * ms.length ≤ (re.globalReplaceLoop put str lastend v).count ∧
      (ms = [] → lastend = none → (re.globalReplaceLoop put str lastend v).count = v.count) := by
  fun_induction globalReplaceLoop re put str lastend v with
  | case1 lastend v hin hfind =>
    exact ⟨[], .stop fun q hq => Matcher.find_eq_none hfind hq, rfl, le_rfl, fun _ _ => rfl⟩
  | case2 lastend v hin m hfind hempty matchend ih =>
    have hlt := re.lt_advance str v.start
    obtain ⟨ms, hscan, htext, hcount, -⟩ := ih fun l hl => (hlast l hl).trans hlt.le
    refine ⟨ms, .skip hfind hempty hscan, ?_, ?_, fun _ hnone => ?_⟩
    · have hbehind := hscan.behind (re.lt_advance str) fun l hl => (hlast l hl).trans hlt.le
      rw [htext, List.append_assoc,
        between_append_splice str put hlt.le fun m hm => (hbehind m hm).1]
    · simp only at hcount
      omega
    · rw [hnone] at hempty
      cases hempty.2
  | case3 lastend v hin m hfind hnew ih =>
    obtain ⟨ms, hscan, htext, hcount, -⟩ := ih fun l hl => by
      obtain rfl := Option.some.inj hl
      exact le_rfl
    refine ⟨m :: ms, .found hfind hnew hscan, ?_, ?_, fun h => by cases h⟩
    · exact htext.trans (by simp only [splice, List.append_assoc])
    · simp only [List.length_cons] at hcount ⊢
      omega
  | case4 lastend v hin =>
    refine ⟨[], .stop fun q hq => ?_, rfl, le_rfl, fun _ _ => rfl⟩
    cases hmatch : re.matcher.matchAt str q with
    | none => rfl
    | some r =>
      have hbounds := re.matcher.bounds hmatch
      omega

/-- What is replaced are the matches of a scan from the start. -/
lemma globalReplaceWith_scan (re : RE) (put : Hit Groups → Bytes) (str : Bytes) :
    ∃ ms, Scan re.matcher str (re.advance str) 0 none ms ∧
      (re.globalReplaceWith put str).2 = splice str put 0 ms ∧
      ((re.globalReplaceWith put str).1 = 0 ↔ ms = []) ∧
      2 * ms.length ≤ (re.globalReplaceWith put str).1 := by
  obtain ⟨ms, hscan, htext, hcount, hnone⟩ :=
    re.globalReplaceLoop_scan put str none ⟨0, [], 0⟩ (fun l hl => by cases hl)
  have hzero : (re.globalReplaceLoop put str none ⟨0, [], 0⟩).count = 0 ↔ ms = [] := by
    refine ⟨fun h => List.length_eq_zero_iff.mp ?_, fun h => hnone h rfl⟩
    simp only at hcount
    omega
  refine ⟨ms, hscan, ?_⟩
  rw [globalReplaceWith]
  split_ifs with h
  · rw [hzero.mp h]
    exact ⟨rfl, iff_of_true rfl rfl, le_rfl⟩
  · exact ⟨htext, hzero, by simpa using hcount⟩

/-- The count of the loop grows by three for each place at most.

**Proof sketch.** By the recursion of the loop. A match adds two to the count, and one more is added
for an empty match that is found again where the last one has ended; behind it the loop is at a
later place. So the two that a match has added at its end are set against the next place. -/
lemma globalReplaceLoop_count_le (re : RE) (put : Hit Groups → Bytes) (str : Bytes)
    (lastend : Option ℕ) (v : ReplaceVars) (hlast : ∀ l ∈ lastend, l ≤ v.start ∧ l ≤ str.length) :
    (re.globalReplaceLoop put str lastend v).count + (if lastend = some v.start then 2 else 0) ≤
      v.count + 3 * (str.length + 1 - v.start) := by
  fun_induction globalReplaceLoop re put str lastend v with
  | case1 lastend v hin hfind =>
    split_ifs <;> omega
  | case2 lastend v hin m hfind hempty matchend ih =>
    have hlt : v.start < matchend := re.lt_advance str v.start
    obtain ⟨hle, hlen⟩ := hlast m.start hempty.2
    have hafter := ih fun l hl => ⟨(hlast l hl).1.trans hlt.le, (hlast l hl).2⟩
    have hold : lastend ≠ some matchend := by
      rw [hempty.2]
      exact fun h => absurd (Option.some.inj h) (by omega)
    rw [if_neg hold] at hafter
    simp only at hafter
    split_ifs <;> omega
  | case3 lastend v hin m hfind hnew ih =>
    obtain ⟨hmatch, hstart, -⟩ := Matcher.find_eq_some hfind
    have hle := hmatch.le
    have hstop := hmatch.stop_le
    have hafter := ih fun l hl => by
      obtain rfl := Option.some.inj hl
      exact ⟨le_rfl, hstop⟩
    rw [if_pos rfl] at hafter
    simp only at hafter
    split_ifs with hold
    · -- the match is not empty, or it begins at a later place
      have hlater : v.start < m.stop := by
        refine Nat.lt_of_le_of_ne (hstart.trans hle) fun heq => hnew ⟨by omega, ?_⟩
        rw [hold]
        exact congrArg some (by omega)
      omega
    · omega
  | case4 lastend v hin =>
    have hold : lastend ≠ some v.start := fun h => hin (hlast v.start h).2
    rw [if_neg hold]
    omega

/-- The result is at most three for each place, so that it is an `int` for a text that is not too
long. -/
lemma globalReplaceWith_le (re : RE) (put : Hit Groups → Bytes) (str : Bytes) :
    (re.globalReplaceWith put str).1 ≤ 3 * (str.length + 1) := by
  have hcount := re.globalReplaceLoop_count_le put str none ⟨0, [], 0⟩ nofun
  rw [if_neg (by simp)] at hcount
  simp only at hcount
  rw [globalReplaceWith]
  split_ifs
  · exact Nat.zero_le _
  · exact hcount.trans (by omega)

/-- One consumption: what is left behind the first match. -/
def Consumes (re : RE) (input rest : Bytes) : Prop :=
  ∃ m, re.matcher.find input 0 = some m ∧ rest = input.drop m.stop

/-- A consumption is one round. -/
lemma matchAll_succ (re : RE) (n rounds : ℕ) {input : Bytes} {m : Hit Groups}
    (h : re.matcher.find input 0 = some m) :
    (re.matchAll n (rounds + 1) input).isSome =
      (re.matchAll n rounds (input.drop m.stop)).isSome := by
  rw [matchAll, findAndConsumeAll, h]
  exact Option.isSome_map

/-- When the consumption of a text ends, then the one of what is left as well. -/
lemma exists_matchAll_of_consumes (re : RE) (n : ℕ) {input rest : Bytes}
    (hpath : Relation.ReflTransGen re.Consumes input rest)
    (h : ∃ rounds, (re.matchAll n rounds input).isSome) :
    ∃ rounds, (re.matchAll n rounds rest).isSome := by
  induction hpath with
  | refl => exact h
  | tail hpath hstep ih =>
    obtain ⟨rounds, hsome⟩ := ih
    obtain ⟨m, hfind, rfl⟩ := hstep
    cases rounds with
    | zero => cases hsome
    | succ rounds => exact ⟨rounds, re.matchAll_succ n rounds hfind ▸ hsome⟩

/-- An empty match at the start is found again and again. -/
lemma matchAll_eq_none (re : RE) (n rounds : ℕ) {input : Bytes} {m : Hit Groups}
    (h : re.matcher.find input 0 = some m) (hstop : m.stop = 0) :
    re.matchAll n rounds input = none := by
  induction rounds with
  | zero => rfl
  | succ rounds ih =>
    have hround := re.matchAll_succ n rounds h
    rw [hstop, List.drop_zero, ih] at hround
    exact Option.isSome_eq_false_iff.mp hround |> Option.isNone_iff_eq_none.mp

/-- When no consumption is empty, a text of so many bytes is consumed in so many rounds. -/
lemma isSome_matchAll (re : RE) (n rounds : ℕ) (input : Bytes) (hlen : input.length < rounds)
    (h : ∀ rest m, Relation.ReflTransGen re.Consumes input rest →
      re.matcher.find rest 0 = some m → 0 < m.stop) :
    (re.matchAll n rounds input).isSome := by
  induction rounds generalizing input with
  | zero => omega
  | succ rounds ih =>
    cases hfind : re.matcher.find input 0 with
    | none => simp only [matchAll, findAndConsumeAll, hfind, Option.map_none, Option.isSome_some]
    | some m =>
      have hpos := h input m .refl hfind
      have hstop := (Matcher.find_eq_some hfind).1.stop_le
      rw [re.matchAll_succ n rounds hfind]
      refine ih (input.drop m.stop) (by rw [List.length_drop]; omega) fun rest m' hpath hm' => ?_
      exact h rest m' (hpath.head ⟨m, hfind, rfl⟩) hm'

/-- **When `match_all` ends**: exactly when no text that is reached by consuming has an empty match
at its start that is found first. It then takes at most one round more than the text has bytes. -/
theorem matchAll_isSome_iff (re : RE) (n : ℕ) (input : Bytes) :
    ((∃ rounds, (re.matchAll n rounds input).isSome) ↔
      ∀ rest m, Relation.ReflTransGen re.Consumes input rest →
        re.matcher.find rest 0 = some m → 0 < m.stop) ∧
    ((∃ rounds, (re.matchAll n rounds input).isSome) →
      (re.matchAll n (input.length + 1) input).isSome) := by
  have hforth : (∃ rounds, (re.matchAll n rounds input).isSome) →
      ∀ rest m, Relation.ReflTransGen re.Consumes input rest →
        re.matcher.find rest 0 = some m → 0 < m.stop := by
    intro h rest m hpath hfind
    refine Nat.pos_of_ne_zero fun hstop => ?_
    obtain ⟨rounds, hsome⟩ := re.exists_matchAll_of_consumes n hpath h
    rw [re.matchAll_eq_none n rounds hfind hstop] at hsome
    cases hsome
  have hback := re.isSome_matchAll n (input.length + 1) input (Nat.lt_succ_self _)
  exact ⟨⟨hforth, fun h => ⟨_, hback h⟩⟩, fun h => hback (hforth h)⟩

end RE

/-! ## Formatting -/

/-- What is formatting. -/
def isFormatting (c : Byte) : Bool := c = 0x03 || c = 0x02 || c = 0x1f || c = 0x0f

/-- What is left behind the colours is an end of the text. -/
lemma dropDigits_suffix (n : ℕ) (s : Bytes) : dropDigits n s <:+ s := by
  induction s generalizing n with
  | nil => cases n <;> exact List.suffix_rfl
  | cons c s ih =>
    cases n with
    | zero => exact List.suffix_rfl
    | succ n =>
      rw [dropDigits]
      split_ifs
      · exact (ih n).trans (List.suffix_cons c s)
      · exact List.suffix_rfl

/-- What is left behind the colours is an end of the text. -/
lemma dropColors_suffix (s : Bytes) : dropColors s <:+ s := by
  refine (dropDigits_suffix 2 _).trans ?_
  split_ifs
  · exact (List.drop_suffix 1 _).trans (dropDigits_suffix 2 s)
  · exact dropDigits_suffix 2 s

/-- The pattern of `strip_irc_colors` at the start of a text: what is left behind it. -/
def dropFormatting : Bytes → Option Bytes
  | [] => none
  | c :: s => if c = 0x03 then some (dropColors s) else if isFormatting c then some s else none

/-- What is left is shorter, and an end of the text. -/
lemma dropFormatting_eq_some {s t : Bytes} (h : dropFormatting s = some t) :
    t <:+ s ∧ t.length < s.length := by
  cases s with
  | nil => cases h
  | cons c s =>
    have hlen := length_dropColors_le s
    rw [dropFormatting] at h
    split_ifs at h
    · obtain rfl := Option.some.inj h
      exact ⟨(dropColors_suffix s).trans (List.suffix_cons c s), Nat.lt_succ_of_le hlen⟩
    · obtain rfl := Option.some.inj h
      exact ⟨List.suffix_cons c s, by simp⟩

/-- The pattern of `strip_irc_colors`: at a place it matches what the loop of the function drops
there. It has no groups, and the bounds of a match are part of the matcher. -/
def ircColors : RE where
  matcher :=
    { matchAt := fun s p => (dropFormatting (s.drop p)).map fun t => (s.length - t.length, [])
      bounds := by
        intro s p e g h
        obtain ⟨t, ht, heq⟩ := Option.map_eq_some_iff.mp h
        obtain ⟨rfl, -⟩ := Prod.mk.inj heq
        have hlt := (dropFormatting_eq_some ht).2
        rw [List.length_drop] at hlt
        omega }
  crlf := false
  utf8 := false

/-- A text without formatting stays in front of what is stripped. -/
lemma stripIrcColors_append (s t : Bytes) (h : ∀ c ∈ s, isFormatting c = false) :
    stripIrcColors (s ++ t) = s ++ stripIrcColors t := by
  induction s with
  | nil => rfl
  | cons c s ih =>
    have hc := h c List.mem_cons_self
    simp only [isFormatting, Bool.or_eq_false_iff, decide_eq_false_iff_not] at hc
    obtain ⟨⟨⟨h3, h2⟩, h1f⟩, hf⟩ := hc
    rw [List.cons_append, stripIrcColors, if_neg h3, if_neg (by simp [h2, h1f, hf]),
      ih fun c hc => h c (List.mem_cons_of_mem _ hc), List.cons_append]

/-- Formatting at the start is stripped. -/
lemma stripIrcColors_of_dropFormatting {s t : Bytes} (h : dropFormatting s = some t) :
    stripIrcColors s = stripIrcColors t := by
  cases s with
  | nil => cases h
  | cons c s =>
    rw [dropFormatting] at h
    split_ifs at h with h3 hf
    · obtain rfl := Option.some.inj h
      rw [stripIrcColors, if_pos h3]
    · obtain rfl := Option.some.inj h
      simp only [isFormatting, Bool.or_eq_true, decide_eq_true_eq, h3, false_or] at hf
      rw [stripIrcColors, if_neg h3, if_pos (by tauto)]

/-- What is between two places at none of which the pattern matches is not formatting. -/
lemma isFormatting_of_mem_between {s : Bytes} (start stop : ℕ)
    (h : ∀ q, start ≤ q → q < stop → ircColors.matcher.matchAt s q = none) {c : Byte}
    (hc : c ∈ between s start stop) : isFormatting c = false := by
  obtain ⟨i, hi, rfl⟩ := List.mem_iff_getElem.mp hc
  rw [between, List.length_take, List.length_drop] at hi
  have hnone := h (start + i) (Nat.le_add_right _ _) (by omega)
  have hdrop : s.drop (start + i) = s[start + i] :: s.drop (start + i + 1) :=
    List.drop_eq_getElem_cons (by omega)
  simp only [ircColors, hdrop, dropFormatting, Option.map_eq_none_iff] at hnone
  simp only [between, List.getElem_take, List.getElem_drop]
  split_ifs at hnone with h3 hf
  exact Bool.eq_false_iff.mpr hf

/-- A match is not empty, and what is left behind it is what is left of the formatting. -/
lemma ircColors_match {s : Bytes} {m : Hit Groups} (h : ircColors.matcher.IsMatch s m) :
    m.start < m.stop ∧ dropFormatting (s.drop m.start) = some (s.drop m.stop) := by
  obtain ⟨t, ht, heq⟩ := Option.map_eq_some_iff.mp h
  obtain ⟨hstop, -⟩ := Prod.mk.inj heq
  obtain ⟨hsuffix, hlt⟩ := dropFormatting_eq_some ht
  rw [List.length_drop] at hlt
  refine ⟨by omega, ht.trans (congrArg some ?_)⟩
  rw [← hstop]
  exact (List.suffix_iff_eq_drop.mp (hsuffix.trans (List.drop_suffix _ _)))

/-- **What the loop puts together** from a place on is the rest stripped.

**Proof sketch.** By induction on the scan. In front of a match there is no formatting, so this part
is kept; the match itself is stripped. An empty match does not occur. -/
lemma splice_ircColors {s : Bytes} {skip : ℕ → ℕ} {start : ℕ} {last : Option ℕ}
    {ms : List (Hit Groups)} (h : Scan ircColors.matcher s skip start last ms) :
    splice s (fun _ => []) start ms = stripIrcColors (s.drop start) := by
  induction h with
  | @stop start last h =>
    have hfree : ∀ c ∈ s.drop start, isFormatting c = false := by
      intro c hc
      refine isFormatting_of_mem_between start s.length (fun q hq _ => h q hq) ?_
      rwa [between, List.take_of_length_le (by rw [List.length_drop])]
    have hstrip := stripIrcColors_append (s.drop start) [] hfree
    rw [List.append_nil, stripIrcColors, List.append_nil] at hstrip
    exact hstrip.symm
  | @skip start last m ms hm hempty h ih =>
    have hlt := (ircColors_match (Matcher.find_eq_some hm).1).1
    omega
  | @found start last m ms hm hnew h ih =>
    obtain ⟨hmatch, hstart, hfirst⟩ := Matcher.find_eq_some hm
    have hstrip := stripIrcColors_of_dropFormatting (ircColors_match hmatch).2
    rw [splice, ih, ← hstrip, List.append_nil, ← stripIrcColors_append _ _ fun c hc =>
      isFormatting_of_mem_between start m.start hfirst hc, between_append_drop s hstart]

/-- Nothing of the formatting is left. -/
lemma isFormatting_of_mem_stripIrcColors {s : Bytes} {c : Byte} (hc : c ∈ stripIrcColors s) :
    isFormatting c = false := by
  fun_induction stripIrcColors s with
  | case1 => cases hc
  | case2 s ih => exact ih hc
  | case3 d s h3 hf ih => exact ih hc
  | case4 d s h3 hf ih =>
    rcases List.mem_cons.mp hc with rfl | hc
    · simp only [not_or] at hf
      simp [isFormatting, h3, hf]
    · exact ih hc

/-- **`strip_irc_colors`** is what replacing all matches of its pattern by nothing gives. Nothing of
the formatting is left in it, and exactly the texts without any stay as they are. -/
theorem stripIrcColors_eq_globalReplace (s : Bytes) :
    (ircColors.globalReplace [] s).2 = stripIrcColors s ∧
      (∀ c ∈ stripIrcColors s, isFormatting c = false) ∧
      (stripIrcColors s = s ↔ ∀ c ∈ s, isFormatting c = false) := by
  have hmem : ∀ c ∈ stripIrcColors s, isFormatting c = false := fun c hc =>
    isFormatting_of_mem_stripIrcColors hc
  refine ⟨?_, hmem, fun h => h ▸ hmem, fun h => ?_⟩
  · obtain ⟨ms, hscan, htext, -⟩ := ircColors.globalReplaceWith_scan (fun _ => []) s
    exact htext.trans (splice_ircColors hscan)
  · have hstrip := stripIrcColors_append s [] h
    rwa [List.append_nil, stripIrcColors, List.append_nil] at hstrip

end Meowbot
