import Meowbot.LuaText
import Meowbot.MainLoop
import Meowbot.Utf8Index
import Mathlib.Tactic.IntervalCases

set_option relaxedAutoImplicit false
set_option autoImplicit false

/-!
# Pages of a search (`modules/mod_remember.cpp`)

`cmd_find` shows the words with a given part, a page at a time. It asks the database for as many
words as `max_lines_per_cmd` lines have, and one more, from the start of the page on; of these it
shows as many as one line less has. It tells how to get the next page if there are words left of
those it has asked for.

The start of the next page is a whole `max_lines_per_cmd` lines behind that of the page before it,
so that the words of its last line are on no page.

The database is a function from a text to the matching words in some fixed order, of which
`LIMIT start, count` takes a part. The commands are defined for rows of any type; what is sent shows
the word of a row only.

## Main definitions

* `Meowbot.findArgs`, `Meowbot.srchremdb`, `Meowbot.displayLoop`, `Meowbot.cmdFind` — the source.
* `Meowbot.SearchWord` — a word that can be searched for.
* `Meowbot.PagesCover` — what the ten pages of a search should show.

## Main results

* `Meowbot.cmdFind_map` — what is sent depends on the words of the rows only.
* `Meowbot.pagesCover_iff` — the pages show that exactly when all words are on the first one.
-/

namespace Meowbot

/-! ## The source -/

/-- The product of two `int`, if it is an `int`. -/
def intMul (a b : ℤ) : Option ℤ :=
  if -(int32Max : ℤ) - 1 ≤ a * b ∧ a * b ≤ int32Max then some (a * b) else none

/-- A message of the command, in the order in which the source comes to them: how it is used, what
is wrong with the word or the page, that nothing was found, a line of words, and how to get the next
page. -/
inductive FindMessage (α : Type) where
  | usageWord (cmd : Bytes)
  | usagePage (cmd : Bytes)
  | noWord
  | badPage
  | noResult (tmp : Bytes)
  | words (line : List α)
  | nextPage (cmd tmp : Bytes) (page : ℕ)
  deriving DecidableEq

/-- The text of a message, as it is handed to `privmsg`. Each word of a line is followed by a comma
and a space, the last one too. -/
def FindMessage.text {α : Type} (word : α → Bytes) : FindMessage α → Bytes
  | .usageWord cmd => utf8Text "사용법: !".toList ++ cmd ++ utf8Text " <단어>".toList
  | .usagePage cmd => utf8Text "사용법: !".toList ++ cmd ++ utf8Text " <단어> [페이지]".toList
  | .noWord => utf8Text "검색어를 입력하세요".toList
  | .badPage => utf8Text "페이지가 너무 작거나 큽니다. (1 ~ 10)".toList
  | .noResult tmp => bytes " " ++ tmp ++ utf8Text "에 대한 검색결과가 없습니다.".toList
  | .words line => bytes " " ++ line.flatMap fun r => word r ++ bytes ", "
  | .nextPage cmd tmp page =>
    utf8Text "다음 페이지: !".toList ++ cmd ++ bytes " " ++ tmp ++ bytes " " ++ decimal page

/-- A partial match of `([^ ]+)(?: ([0-9]+))?`, for characters in UTF-8: `tmp` and `tmp2`. -/
def findArgs (carg : Bytes) : Option (Bytes × Bytes) :=
  if (utf8Chars? carg).isNone then none
  else
    let s := carg.dropWhile (· = (' ' : Byte))
    if s = [] then none
    else
      let tmp := s.takeWhile (· ≠ (' ' : Byte))
      let tmp2 := (s.drop (tmp.length + 1)).takeWhile fun c => ('0' : Byte) ≤ c ∧ c ≤ ('9' : Byte)
      some (tmp, tmp2)

section Search

variable {α : Type}

/-- `srchremdb`: `LIMIT start, count`. A count below zero is none. -/
def srchremdb (matching : Bytes → List α) (word : Bytes) (start count : ℤ) : List α :=
  let rows := (matching word).drop start.toNat
  if count < 0 then rows else rows.take count.toNat

/-- `maxitemsperline` -/
def maxitemsperline : ℤ := 20

/-- The loop that shows words, from the `i`-th one on, with those of the line that has been begun:
the lines, and the words that are left. -/
def displayLoop (bound : ℤ) : ℤ → List α → List α → List (List α) × List α
  | _, line, [] => (if line = [] then [] else [line], [])
  | i, line, r :: rest =>
    if i < bound then
      if (i + 1) % maxitemsperline = 0 then
        let (lines, left) := displayLoop bound (i + 1) [] rest
        ((line ++ [r]) :: lines, left)
      else displayLoop bound (i + 1) (line ++ [r]) rest
    else (if line = [] then [] else [line], r :: rest)

/-- The messages of a page. -/
def pageMessages (bound : ℤ) (cmd tmp : Bytes) (srchstart : ℤ) (remdbsrch : List α) :
    List (FindMessage α) :=
  let (lines, left) := displayLoop bound 0 [] remdbsrch
  (if remdbsrch = [] then [.noResult tmp] else []) ++ lines.map .words ++
    if left = [] then [] else [.nextPage cmd tmp (srchstart + 2).toNat]

/-- `cmd_find`, from the search on. It has no result where a number is not of type `int`. -/
def findPage (matching : Bytes → List α) (maxLinesPerCmd : ℤ) (cmd tmp : Bytes) (srchstart : ℤ) :
    Option (List (FindMessage α)) := do
  let start ← (intMul srchstart maxLinesPerCmd).bind (intMul · maxitemsperline)
  let count ← (intMul maxLinesPerCmd maxitemsperline).bind (intAdd · 1)
  let bound ← (intAdd maxLinesPerCmd (-1)).bind (intMul · maxitemsperline)
  some (pageMessages bound cmd tmp srchstart (srchremdb matching tmp start count))

/-- `cmd_find` -/
def cmdFind (matching : Bytes → List α) (maxLinesPerCmd : ℤ) (cmd carg : Bytes) :
    Option (List (FindMessage α)) :=
  match findArgs carg with
  | none => some [.usageWord cmd, .usagePage cmd]
  | some (tmp, tmp2) =>
    let tmp := tmp.filter (· ≠ ('%' : Byte))
    if tmp = [] then some [.noWord]
    else
      let srchstart := (atoi (if tmp2 = [] then bytes "1" else tmp2) - 1).toInt
      if srchstart < 0 ∨ srchstart > 9 then some [.badPage]
      else findPage matching maxLinesPerCmd cmd tmp srchstart

/-! ## What a search should show -/

/-- The rows that a message shows. -/
def FindMessage.shown : FindMessage α → List α
  | .words line => line
  | _ => []

/-- The message tells how to get the next page. -/
def FindMessage.isNextPage : FindMessage α → Bool
  | .nextPage _ _ _ => true
  | _ => false

end Search

/-- A word that can be searched for: UTF-8 without a space, and not just `%`. -/
structure SearchWord where
  text : Bytes
  valid : (utf8Chars? text).isSome
  noSpace : (' ' : Byte) ∉ text
  ne_nil : text.filter (· ≠ ('%' : Byte)) ≠ []

/-- What is searched for. -/
def SearchWord.key (w : SearchWord) : Bytes := w.text.filter (· ≠ ('%' : Byte))

/-- The argument for the page behind `p` others. -/
def SearchWord.pageArg (w : SearchWord) (p : ℕ) : Bytes := w.text ++ (' ' : Byte) :: decimal (p + 1)

/-- The ten pages of a search show slices of the matching words, each with its place, one behind the
other, and tell of a next page exactly when there are words left. -/
def PagesCover (matching : Bytes → List Bytes) (maxLinesPerCmd : ℤ) (cmd : Bytes)
    (w : SearchWord) : Prop :=
  ∃ pages : ℕ → List (FindMessage (Bytes × ℕ)),
    (∀ p < 10, cmdFind (fun word => (matching word).zipIdx) maxLinesPerCmd cmd (w.pageArg p) =
      some (pages p)) ∧
    ∀ p < 10,
      let shown := (List.range (p + 1)).flatMap fun q => (pages q).flatMap FindMessage.shown
      shown <+: (matching w.key).zipIdx ∧
        ((pages p).any FindMessage.isNextPage ↔ shown.length < (matching w.key).length)

/-! ## The loop -/

section Loop

variable {α β : Type}

/-- The lines have as many words as there is room for.

**Proof sketch.** By induction on the words. A word is put into the line while the number is below
the bound; a full line is given out and the next one starts empty. -/
lemma flatten_displayLoop (bound i : ℤ) (line rows : List α) :
    (displayLoop bound i line rows).1.flatten = line ++ rows.take (bound - i).toNat := by
  induction rows generalizing i line with
  | nil =>
    rw [displayLoop]
    split_ifs with hline
    · simp [hline]
    · simp
  | cons r rows ih =>
    rw [displayLoop]
    by_cases hi : i < bound
    · obtain ⟨k, hk⟩ : ∃ k, (bound - i).toNat = k + 1 := ⟨(bound - i).toNat - 1, by omega⟩
      have hk' : (bound - (i + 1)).toNat = k := by omega
      rw [if_pos hi, hk, List.take_succ_cons]
      split_ifs with hfull
      · rw [List.flatten_cons, ih, hk']
        simp
      · rw [ih, hk']
        simp
    · have hk : (bound - i).toNat = 0 := by omega
      rw [if_neg hi, hk]
      split_ifs with hline
      · simp [hline]
      · simp

/-- The other words are left. -/
lemma left_displayLoop (bound i : ℤ) (line rows : List α) :
    (displayLoop bound i line rows).2 = rows.drop (bound - i).toNat := by
  induction rows generalizing i line with
  | nil => simp [displayLoop]
  | cons r rows ih =>
    rw [displayLoop]
    by_cases hi : i < bound
    · obtain ⟨k, hk⟩ : ∃ k, (bound - i).toNat = k + 1 := ⟨(bound - i).toNat - 1, by omega⟩
      have hk' : (bound - (i + 1)).toNat = k := by omega
      rw [if_pos hi, hk, List.drop_succ_cons]
      split_ifs with hfull
      · exact (ih (i + 1) []).trans (by rw [hk'])
      · exact (ih (i + 1) (line ++ [r])).trans (by rw [hk'])
    · have hk : (bound - i).toNat = 0 := by omega
      rw [if_neg hi, hk]
      rfl

/-- The loop does not look at the rows.

**Proof sketch.** By induction on the rows: the tests of the loop are about lengths only, which the
map keeps. -/
lemma displayLoop_map (f : α → β) (bound i : ℤ) (line rows : List α) :
    displayLoop bound i (line.map f) (rows.map f) =
      ((displayLoop bound i line rows).1.map (List.map f),
        (displayLoop bound i line rows).2.map f) := by
  induction rows generalizing i line with
  | nil =>
    simp only [displayLoop, List.map_nil, List.map_eq_nil_iff]
    split_ifs <;> rfl
  | cons r rows ih =>
    have happend : line.map f ++ [f r] = (line ++ [r]).map f := by simp
    simp only [displayLoop, List.map_cons, List.map_eq_nil_iff, happend, ih]
    split_ifs with hi hfull
    · have := ih (i + 1) []
      rw [List.map_nil] at this
      rw [this]
      rfl
    · rfl
    · rfl
    · rfl

/-- A message about the images of some rows. -/
def FindMessage.map (f : α → β) : FindMessage α → FindMessage β
  | .usageWord cmd => .usageWord cmd
  | .usagePage cmd => .usagePage cmd
  | .noWord => .noWord
  | .badPage => .badPage
  | .noResult tmp => .noResult tmp
  | .words line => .words (line.map f)
  | .nextPage cmd tmp page => .nextPage cmd tmp page

/-- The messages of a page for the images of some rows. -/
lemma pageMessages_map (f : α → β) (bound : ℤ) (cmd tmp : Bytes) (srchstart : ℤ) (rows : List α) :
    pageMessages bound cmd tmp srchstart (rows.map f) =
      (pageMessages bound cmd tmp srchstart rows).map (FindMessage.map f) := by
  have hloop := displayLoop_map f bound 0 [] rows
  rw [List.map_nil] at hloop
  simp only [pageMessages, hloop, List.map_append, List.map_map, List.map_eq_nil_iff]
  congr 1
  · congr 1
    split_ifs <;> rfl
  · split_ifs <;> rfl

/-- **What is sent** depends on the words of the rows only.

**Proof sketch.** The search gives the images of the rows, and the pages are made from their number
and their places; so each message is that of the rows, mapped. -/
lemma cmdFind_map (f : α → β) (matching : Bytes → List α) (maxLinesPerCmd : ℤ) (cmd carg : Bytes) :
    cmdFind (fun word => (matching word).map f) maxLinesPerCmd cmd carg =
      (cmdFind matching maxLinesPerCmd cmd carg).map (List.map (FindMessage.map f)) := by
  have hrows : ∀ word start count, srchremdb (fun word => (matching word).map f) word start count =
      (srchremdb matching word start count).map f := by
    intro word start count
    simp only [srchremdb, ← List.map_drop, ← List.map_take]
    split_ifs <;> rfl
  rw [cmdFind, cmdFind]
  rcases findArgs carg with _ | ⟨tmp, tmp2⟩
  · rfl
  dsimp only
  generalize (atoi (if tmp2 = [] then bytes "1" else tmp2) - 1).toInt = srchstart
  split_ifs
  · rfl
  · rfl
  · simp only [findPage, Option.bind_eq_bind, Option.map_bind, Function.comp_def, Option.map_some,
      hrows, pageMessages_map]

end Loop

/-! ## A page -/

/-- The argument for a page is taken apart.

**Proof sketch.** The number is written in digits and the word is a text of UTF-8, so the argument
is one, too. The pattern takes all of the argument up to its last space for the word, which is not
empty, and the digits for the number. -/
lemma findArgs_pageArg (w : SearchWord) {p : ℕ} (hp : p < 10) :
    findArgs (w.pageArg p) = some (w.text, decimal (p + 1)) := by
  obtain ⟨cs, hcs⟩ := Option.isSome_iff_exists.mp w.valid
  obtain ⟨ds, hds⟩ : ∃ ds, decimal (p + 1) = utf8Text ds := by
    refine ⟨(decimal (p + 1)).map fun c => Char.ofNat c.toNat, ?_⟩
    interval_cases p <;> decide
  have hdigits : (decimal (p + 1)).all (fun c => ('0' : Byte) ≤ c && c ≤ ('9' : Byte)) = true := by
    interval_cases p <;> decide
  have hdigit : ∀ c ∈ decimal (p + 1), ('0' : Byte) ≤ c ∧ c ≤ ('9' : Byte) := by
    intro c hc
    simpa using List.all_eq_true.mp hdigits c hc
  have hne : w.text ≠ [] := by
    intro h
    exact w.ne_nil (by rw [h]; rfl)
  have hvalid : utf8Chars? (w.pageArg p) = some (cs ++ ' ' :: ds) := by
    rw [utf8Chars?_eq_some_iff, SearchWord.pageArg, hds, utf8Chars?_eq_some_iff.mp hcs]
    simp only [utf8Text, List.flatMap_append, List.flatMap_cons]
    rfl
  have hspace : ∀ c ∈ w.text, c ≠ (' ' : Byte) := fun c hc h => w.noSpace (h ▸ hc)
  have hstart : (w.pageArg p).dropWhile (· = (' ' : Byte)) = w.pageArg p := by
    cases htext : w.text with
    | nil => exact absurd htext hne
    | cons c s =>
      have hc := hspace c (by rw [htext]; exact List.mem_cons_self)
      rw [SearchWord.pageArg, htext, List.cons_append,
        List.dropWhile_cons_of_neg (by simpa using hc)]
  have htake : (w.pageArg p).takeWhile (· ≠ (' ' : Byte)) = w.text := by
    rw [SearchWord.pageArg, List.takeWhile_append_of_pos (by simpa using hspace)]
    simp
  have hdrop : (w.pageArg p).drop (w.text.length + 1) = decimal (p + 1) := by
    rw [SearchWord.pageArg, List.drop_length_add_append]
    rfl
  have hnonempty : w.pageArg p ≠ [] := by simp [SearchWord.pageArg]
  rw [findArgs, hvalid]
  simp only [Option.isNone_some, Bool.false_eq_true, if_false, hstart, htake, hdrop, hnonempty]
  rw [List.takeWhile_eq_self_iff.mpr (by simpa using hdigit)]

/-- The command for a page is the search for it. -/
lemma cmdFind_pageArg {α : Type} (matching : Bytes → List α) (m : ℤ) (cmd : Bytes) (w : SearchWord)
    {p : ℕ} (hp : p < 10) :
    cmdFind matching m cmd (w.pageArg p) = findPage matching m cmd w.key p := by
  have hpage : (atoi (if decimal (p + 1) = [] then bytes "1" else decimal (p + 1)) - 1).toInt =
      p := by
    interval_cases p <;> decide
  rw [cmdFind, findArgs_pageArg w hp]
  dsimp only
  rw [if_neg w.ne_nil, hpage, if_neg (by omega)]
  rfl

/-- The words that a page shows. -/
lemma shown_pageMessages {α : Type} (bound : ℤ) (cmd tmp : Bytes) (srchstart : ℤ) (rows : List α) :
    (pageMessages bound cmd tmp srchstart rows).flatMap FindMessage.shown =
      rows.take bound.toNat := by
  have hflatten := flatten_displayLoop bound 0 [] rows
  have hlines : ∀ lines : List (List α),
      (lines.map FindMessage.words).flatMap FindMessage.shown = lines.flatten := by
    intro lines
    rw [List.flatMap_map]
    exact List.flatMap_id
  rw [Int.sub_zero, List.nil_append] at hflatten
  simp only [pageMessages, List.flatMap_append, hlines, hflatten]
  split_ifs <;> simp [FindMessage.shown]

/-- A page tells of the next one if there are words left. -/
lemma isNextPage_pageMessages {α : Type} (bound : ℤ) (cmd tmp : Bytes) (srchstart : ℤ)
    (rows : List α) :
    (pageMessages bound cmd tmp srchstart rows).any FindMessage.isNextPage ↔
      bound.toNat < rows.length := by
  have hleft := left_displayLoop bound 0 [] rows
  have hlines : ∀ lines : List (List α),
      (lines.map FindMessage.words).any FindMessage.isNextPage = false := by
    intro lines
    simp [FindMessage.isNextPage]
  rw [Int.sub_zero] at hleft
  simp only [pageMessages, List.any_append, hlines, hleft, List.drop_eq_nil_iff]
  split_ifs <;> simp [FindMessage.isNextPage] <;> omega

/-- The rows that are asked for on a page. -/
def pageRows {α : Type} (rows : List α) (m p : ℕ) : List α :=
  (rows.drop (p * m * 20)).take (m * 20 + 1)

/-- The search for a page, if its numbers are of type `int`.

**Proof sketch.** The numbers of lines and of words are products of the page with constants, which
are in the range of `int` for pages below ten. The statement then finds the words of the page, and
one more. -/
lemma findPage_eq {α : Type} (matching : Bytes → List α) {m : ℕ} (hm : 1 ≤ m)
    (hint : m * 180 ≤ int32Max) (cmd tmp : Bytes) {p : ℕ} (hp : p < 10) :
    findPage matching m cmd tmp p =
      some (pageMessages ((m - 1) * 20 : ℤ) cmd tmp p (pageRows (matching tmp) m p)) := by
  have hpm : ((p * m : ℕ) : ℤ) ≤ 9 * m := by exact_mod_cast Nat.mul_le_mul_right m (by omega)
  have hpm0 : (0 : ℤ) ≤ (p * m : ℕ) := Int.natCast_nonneg _
  rw [int32Max] at hint
  have hstart : (intMul p m).bind (intMul · maxitemsperline) = some ((p * m : ℕ) * 20 : ℤ) := by
    rw [intMul, ← Int.natCast_mul, if_pos, Option.bind_some, maxitemsperline, intMul, if_pos]
    · rw [int32Max]
      omega
    · rw [int32Max]
      omega
  have hcount : (intMul m maxitemsperline).bind (intAdd · 1) = some (m * 20 + 1 : ℤ) := by
    rw [intMul, maxitemsperline, if_pos, Option.bind_some, intAdd, if_pos]
    · rw [int32Max]
      omega
    · rw [int32Max]
      omega
  have hbound : (intAdd m (-1)).bind (intMul · maxitemsperline) = some ((m - 1) * 20 : ℤ) := by
    rw [intAdd, if_pos, Option.bind_some, maxitemsperline, intMul, if_pos]
    · rfl
    · rw [int32Max]
      omega
    · rw [int32Max]
      omega
  have hrows : srchremdb matching tmp ((p * m : ℕ) * 20 : ℤ) (m * 20 + 1 : ℤ) =
      pageRows (matching tmp) m p := by
    have h1 : ((p * m : ℕ) * 20 : ℤ).toNat = p * m * 20 := by omega
    have h2 : (m * 20 + 1 : ℤ).toNat = m * 20 + 1 := by omega
    rw [srchremdb, if_neg (by omega), h1, h2, pageRows]
  rw [findPage, hstart, hcount, hbound]
  exact congrArg (fun rows => some (pageMessages _ cmd tmp p rows)) hrows

/-- The numbers of the last page are of type `int`. -/
lemma le_of_findPage_nine {α : Type} {matching : Bytes → List α} {m : ℕ} {cmd tmp : Bytes}
    {page : List (FindMessage α)} (h : findPage matching m cmd tmp 9 = some page) :
    m * 180 ≤ int32Max := by
  obtain ⟨start, hstart, -⟩ := Option.bind_eq_some_iff.mp h
  obtain ⟨pm, hpm, hstart⟩ := Option.bind_eq_some_iff.mp hstart
  rw [intMul] at hpm hstart
  split_ifs at hpm with h1
  obtain rfl := Option.some.inj hpm
  split_ifs at hstart with h2
  rw [maxitemsperline] at h2
  omega

/-! ## The result -/

/-- The place of a row. -/
lemma getElem?_zipIdx_eq {words : List Bytes} {i : ℕ} {r : Bytes × ℕ}
    (h : words.zipIdx[i]? = some r) : r.2 = i := by
  rw [List.getElem?_zipIdx] at h
  obtain ⟨word, -, rfl⟩ := Option.map_eq_some_iff.mp h
  exact Nat.zero_add i

/-- The bound of the loop. -/
lemma toNat_bound (m : ℕ) : ((m - 1) * 20 : ℤ).toNat = (m - 1) * 20 := by omega

/-- If not all words are on the first page, the second one begins at another place than behind the
first one, or there are words on neither.

**Proof sketch.** Suppose that there are more words. The first page is then full, so the second one
begins with the word behind those that are shown on the first; but it begins with a word a whole
line further on. Both are positions in one list without repetition. -/
lemma length_le_of_cover {words : List Bytes} {m : ℕ} (hm : 2 ≤ m)
    (hbegins : (pageRows words.zipIdx m 0).take ((m - 1) * 20) ++
      (pageRows words.zipIdx m 1).take ((m - 1) * 20) <+: words.zipIdx)
    (hnext : (m - 1) * 20 < (pageRows words.zipIdx m 1).length ↔
      ((pageRows words.zipIdx m 0).take ((m - 1) * 20)).length +
        ((pageRows words.zipIdx m 1).take ((m - 1) * 20)).length < words.length) :
    words.length ≤ (m - 1) * 20 := by
  by_contra hlong
  have hlen0 : ((pageRows words.zipIdx m 0).take ((m - 1) * 20)).length = (m - 1) * 20 := by
    simp only [pageRows, List.length_take, List.length_drop, List.length_zipIdx]
    omega
  have hlen1 : (pageRows words.zipIdx m 1).length = min (m * 20 + 1) (words.length - m * 20) := by
    simp only [pageRows, List.length_take, List.length_drop, List.length_zipIdx, Nat.one_mul]
  rw [hlen0, List.length_take, hlen1] at hnext
  obtain ⟨rest, hrest⟩ := hbegins
  have hfirst := congrArg (·[(m - 1) * 20]?) hrest
  have hget : ((pageRows words.zipIdx m 1).take ((m - 1) * 20))[0]? = words.zipIdx[m * 20]? := by
    rw [List.getElem?_take_of_lt (by omega), pageRows, List.getElem?_take_of_lt (by omega),
      List.getElem?_drop, Nat.one_mul, Nat.add_zero]
  have hmore : m * 20 < words.zipIdx.length := by
    rw [List.length_zipIdx]
    omega
  rw [List.append_assoc, List.getElem?_append_right (by omega), hlen0, Nat.sub_self,
    List.getElem?_append_left (by rw [List.length_take, hlen1]; omega), hget,
    List.getElem?_eq_getElem hmore] at hfirst
  have h1 := getElem?_zipIdx_eq (List.getElem?_eq_getElem hmore)
  have h2 := getElem?_zipIdx_eq hfirst.symm
  omega

/-- All words are on the first page, and none on the others. -/
lemma flatMap_pageRows {α : Type} {rows : List α} {m : ℕ} (hm : 1 ≤ m)
    (hshort : rows.length ≤ (m - 1) * 20) (p : ℕ) :
    (List.range (p + 1)).flatMap (fun q => (pageRows rows m q).take ((m - 1) * 20)) = rows := by
  have hfirst : (pageRows rows m 0).take ((m - 1) * 20) = rows := by
    rw [pageRows, Nat.zero_mul, Nat.zero_mul, List.drop_zero, List.take_of_length_le,
      List.take_of_length_le]
    · omega
    · rw [List.length_take]
      omega
  have hother : ∀ q, (pageRows rows m (q + 1)).take ((m - 1) * 20) = [] := by
    intro q
    have hq : m * 20 ≤ (q + 1) * m * 20 :=
      Nat.mul_le_mul_right 20 (Nat.le_mul_of_pos_left m (Nat.succ_pos q))
    rw [pageRows, List.drop_eq_nil_of_le (by omega), List.take_nil, List.take_nil]
  rw [List.range_succ_eq_map, List.flatMap_cons, hfirst, List.flatMap_map]
  simp [hother]

/-- If the pages show what they should, all words are on the first one.

**Proof sketch.** The tenth page is asked for with the largest offset, which has to be an `int`. The
pages together show at most twenty rows for each line, so there are no more words than that. -/
lemma le_of_pagesCover {matching : Bytes → List Bytes} {m : ℕ} (hm : 2 ≤ m) {cmd : Bytes}
    {w : SearchWord} (h : PagesCover matching m cmd w) :
    m * 180 ≤ int32Max ∧ (matching w.key).length ≤ (m - 1) * 20 := by
  obtain ⟨pages, hpages, hcover⟩ := h
  have hnine := hpages 9 (by omega)
  rw [cmdFind_pageArg _ _ _ _ (by omega)] at hnine
  have hint := le_of_findPage_nine hnine
  have hpage : ∀ p < 10, pages p =
      pageMessages ((m - 1) * 20 : ℤ) cmd w.key p (pageRows (matching w.key).zipIdx m p) := by
    intro p hp
    have := hpages p hp
    rw [cmdFind_pageArg _ _ _ _ hp, findPage_eq _ (by omega) hint cmd w.key hp] at this
    exact (Option.some.inj this).symm
  obtain ⟨hbegins, hnext⟩ := hcover 1 (by omega)
  have hrange : List.range (1 + 1) = [0, 1] := rfl
  simp only [hrange, List.flatMap_cons, List.flatMap_nil, List.append_nil, hpage 0 (by omega),
    hpage 1 (by omega), shown_pageMessages, isNextPage_pageMessages, toNat_bound,
    List.length_append] at hbegins hnext
  exact ⟨hint, length_le_of_cover hm hbegins hnext⟩

/-- **Searches show every word once**, on ten pages, exactly when the numbers of the pages are of
type `int` and all the words are on the first page, which has room for a line less than
`max_lines_per_cmd`. -/
theorem pagesCover_iff (matching : Bytes → List Bytes) {m : ℕ} (hm : 2 ≤ m) (cmd : Bytes)
    (w : SearchWord) :
    PagesCover matching m cmd w ↔
      m * 180 ≤ int32Max ∧ (matching w.key).length ≤ (m - 1) * 20 := by
  constructor
  · exact le_of_pagesCover hm
  · rintro ⟨hint, hshort⟩
    have hrows : (matching w.key).zipIdx.length = (matching w.key).length := List.length_zipIdx
    refine ⟨fun p => pageMessages ((m - 1) * 20 : ℤ) cmd w.key p
      (pageRows (matching w.key).zipIdx m p), fun p hp => ?_, fun p hp => ?_⟩
    · rw [cmdFind_pageArg _ _ _ _ hp, findPage_eq _ (by omega) hint cmd w.key hp]
    · have hshown := flatMap_pageRows (by omega) (hrows.trans_le hshort) p
      simp only [shown_pageMessages, isNextPage_pageMessages, toNat_bound, hshown]
      refine ⟨List.prefix_rfl, ?_⟩
      rw [pageRows, List.length_take, List.length_drop, hrows]
      omega

/-- The word `a` is searched for. -/
def searchA : SearchWord := ⟨bytes "a", by decide, by decide, by decide⟩

/-- Two words, and two lines a command. -/
theorem pagesCover_iff_two : PagesCover (fun _ => [bytes "a", bytes "ab"]) (2 : ℕ) [] searchA ↔
    2 * 180 ≤ int32Max ∧ [bytes "a", bytes "ab"].length ≤ (2 - 1) * 20 :=
  pagesCover_iff (fun _ => [bytes "a", bytes "ab"]) (by decide) [] searchA

/-- Two lines a command, and twenty-one words: the last one is on no page. -/
theorem not_pagesCover : ¬∀ (matching : Bytes → List Bytes) (m : ℕ) (cmd : Bytes) (w : SearchWord),
    2 ≤ m → PagesCover matching m cmd w := by
  intro h
  have hle := (le_of_pagesCover le_rfl
    (h (fun _ => List.replicate 21 (bytes "a")) 2 [] searchA le_rfl)).2
  rw [List.length_replicate] at hle
  omega

end Meowbot
