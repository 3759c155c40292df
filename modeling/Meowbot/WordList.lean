import Meowbot.Basic
import Meowbot.Lib.BinarySearch
import Mathlib.Data.List.Lex

set_option relaxedAutoImplicit false
set_option autoImplicit false

/-!
# Words of the word quiz (`modules/mod_ewordquiz.cpp`)

A word list is a sorted array of C strings with nothing behind its last word. A word is looked up
with `bsearch`. A random word with a given beginning is looked for from the word on that `bsearch`
finds: the scan ends at the first word with another beginning, or by chance before it. Its condition
reads the next word before it compares the index with the number of words that are left, so that a
scan that is not stopped by another beginning reads behind the last word.

## Main definitions

* `Meowbot.cmpStart` — `memcmp` and `strncmp` of a beginning with a word.
* `Meowbot.isWordExists`, `Meowbot.findWordByStartwordRandom` — `is_word_exists` and
  `find_word_by_startword_random`, for a sequence of outcomes of `rand()`.
* `Meowbot.StaysInRange` — what the search for a beginning should give.

## Main results

* `Meowbot.isWordExists_iff` — in a sorted list exactly its words are found.
* `Meowbot.findWord_staysInRange_iff` — the search for a beginning stays in range, whatever the
  random numbers are, exactly when the last word has another beginning.
-/

namespace Meowbot

open BinarySearch

/-! ## Comparison -/

/-- The comparison of a beginning with a word, over the length of the beginning. The terminator of
the word is below every byte of the beginning. -/
def cmpStart : Bytes → Bytes → Ordering
  | [], _ => .eq
  | _ :: _, [] => .gt
  | a :: key, b :: word => if a < b then .lt else if b < a then .gt else cmpStart key word

/-- The comparison finds the words with the beginning. -/
lemma cmpStart_eq_iff {key word : Bytes} : cmpStart key word = .eq ↔ key <+: word := by
  induction key generalizing word with
  | nil => simp [cmpStart]
  | cons a key ih =>
    cases word with
    | nil => simp [cmpStart]
    | cons b word =>
      rw [cmpStart, List.cons_prefix_cons]
      split_ifs with hab hba
      · exact iff_of_false (by simp) fun h => by
          rw [h.1] at hab
          exact absurd hab (UInt8.lt_irrefl b)
      · exact iff_of_false (by simp) fun h => by
          rw [h.1] at hba
          exact absurd hba (UInt8.lt_irrefl b)
      · have hab' : a = b := UInt8.le_antisymm (UInt8.not_lt.mp hba) (UInt8.not_lt.mp hab)
        rw [ih, and_iff_right hab']

/-- The comparison goes down along sorted words.

**Proof sketch.** By induction on the beginning: where the words differ the larger letter is on the
side of the larger word. -/
lemma cmpStart_mono {key v w : Bytes} (h : v ≤ w) :
    (cmpStart key v = .lt → cmpStart key w = .lt) ∧
      (cmpStart key w = .gt → cmpStart key v = .gt) := by
  induction key generalizing v w with
  | nil => simp [cmpStart]
  | cons a key ih =>
    cases v with
    | nil => simp [cmpStart]
    | cons b v =>
      cases w with
      | nil => simp at h
      | cons d w =>
        rw [List.cons_le_cons_iff] at h
        simp only [cmpStart]
        rcases h with hbd | ⟨rfl, hvw⟩
        · simp only [UInt8.lt_iff_toNat_lt] at hbd ⊢
          constructor
          · intro hlt
            have hle : a.toNat ≤ b.toNat := by
              by_contra hgt
              rw [if_neg (by omega), if_pos (by omega)] at hlt
              cases hlt
            rw [if_pos (by omega)]
          · intro hgt
            have hle : d.toNat ≤ a.toNat := by
              by_contra hlt
              rw [if_pos (by omega)] at hgt
              cases hgt
            rw [if_neg (by omega), if_pos (by omega)]
        · split_ifs
          · simp
          · simp
          · exact ih hvw

/-! ## Words of a list -/

/-- `word_compare_function`, which is `strcmp`. -/
def wordCompareFunction (key item : Bytes) : Ordering :=
  if key < item then .lt else if item < key then .gt else .eq

/-- `is_word_exists`. It is also nonzero for the empty word. -/
def isWordExists (wordlist : List Bytes) (word : Bytes) : ℤ :=
  if word = [] then -1
  else if (bsearch (wordCompareFunction word) wordlist).isSome then 1 else 0

/-- What a search for a beginning gives. `outOfRange` is an access behind the last word. -/
inductive FoundWord where
  | null
  | word (w : Bytes)
  | outOfRange
  deriving DecidableEq

/-- `start[i]`. -/
def wordAt (start : List Bytes) (i : ℕ) : FoundWord :=
  match start[i]? with
  | some w => .word w
  | none => .outOfRange

/-- The scan from the word on that `bsearch` has found, at its `i`-th word. Each turn draws one
random number. -/
def startwordLoop (startword : Bytes) (rand : ℕ → ℕ) (start : List Bytes) :
    ℕ → List Bytes → FoundWord
  -- `start[i]` is read before `i < cnt` is checked
  | _, [] => .outOfRange
  | i, w :: rest =>
    if cmpStart startword w ≠ .eq then wordAt start (rand i % i)
    else if rand i % 100 = 50 then .word w
    else startwordLoop startword rand start (i + 1) rest

/-- `find_word_by_startword_random`. From the word that `bsearch` has found the words are gone
through: each of them may be drawn on the way, and at the first one with another beginning one of
those in front of it is. -/
def findWordByStartwordRandom (wordlist : List Bytes) (rand : ℕ → ℕ) (startword : Option Bytes) :
    FoundWord :=
  match startword with
  | none => .null
  | some [] => .null
  | some (a :: key) =>
    match bsearch (cmpStart (a :: key)) wordlist with
    | none => .null
    | some pos => startwordLoop (a :: key) rand (wordlist.drop pos) 0 (wordlist.drop pos)

/-- A result in range: `NULL` if no word has the beginning, and a word with it otherwise. -/
def StaysInRange (wordlist : List Bytes) (startword : Bytes) (r : FoundWord) : Prop :=
  r ≠ .outOfRange ∧ (r = .null ↔ ∀ w ∈ wordlist, ¬startword <+: w) ∧
    ∀ w, r = .word w → w ∈ wordlist ∧ startword <+: w

/-! ## Search in a sorted list -/

variable {wordlist : List Bytes}

/-- A sorted list is ordered for the search of a beginning. -/
lemma ordered_cmpStart (hs : wordlist.Pairwise (· ≤ ·)) (key : Bytes) :
    Ordered (cmpStart key) wordlist :=
  hs.imp fun h => cmpStart_mono h

/-- The comparison of words finds the word. -/
lemma wordCompareFunction_eq_iff {key item : Bytes} :
    wordCompareFunction key item = .eq ↔ key = item := by
  rw [wordCompareFunction]
  split_ifs with hlt hgt
  · exact iff_of_false (by simp) fun h => absurd (h ▸ hlt) (List.lt_irrefl item)
  · exact iff_of_false (by simp) fun h => absurd (h ▸ hgt) (List.lt_irrefl item)
  · exact iff_of_true rfl (List.le_antisymm hgt hlt)

/-- A sorted list is ordered for the search of a word. -/
lemma ordered_wordCompareFunction (hs : wordlist.Pairwise (· ≤ ·)) (key : Bytes) :
    Ordered (wordCompareFunction key) wordlist := by
  refine hs.imp fun {v w} hvw => ⟨fun h => ?_, fun h => ?_⟩
  · have hv : key < v := by
      by_contra hv
      rw [wordCompareFunction, if_neg hv] at h
      split_ifs at h
    have hw : key < w := by
      by_contra hw
      exact List.le_trans hvw hw hv
    rw [wordCompareFunction, if_pos hw]
  · have hw : ¬key < w ∧ w < key := by
      rw [wordCompareFunction] at h
      split_ifs at h with h1 h2
      exact ⟨h1, h2⟩
    have hv := List.lt_of_le_of_lt hvw hw.2
    rw [wordCompareFunction, if_neg (List.lt_asymm hv), if_pos hv]

/-- **In a sorted list** exactly its words are found, and the empty word. -/
lemma isWordExists_iff (hs : wordlist.Pairwise (· ≤ ·)) {word : Bytes} :
    isWordExists wordlist word ≠ 0 ↔ word = [] ∨ word ∈ wordlist := by
  rw [isWordExists]
  split_ifs with hnil hfound
  · simp [hnil]
  · rw [bsearch_isSome_iff (ordered_wordCompareFunction hs word)] at hfound
    obtain ⟨w, hmem, heq⟩ := hfound
    rw [wordCompareFunction_eq_iff.mp heq]
    simp [hmem]
  · rw [bsearch_isSome_iff (ordered_wordCompareFunction hs word)] at hfound
    refine iff_of_false (by simp) fun h => hfound ?_
    exact ⟨word, h.resolve_left hnil, wordCompareFunction_eq_iff.mpr rfl⟩

/-! ## The scan for a beginning -/

/-- A scan whose rest has a word with another beginning gives a word of the run in front of it.

**Proof sketch.** By induction on the rest. A word with the beginning makes the run longer, and the
first word with another one ends the scan: then one of the words of the run is drawn, which all have
the beginning. -/
lemma startwordLoop_of_stop {key : Bytes} {start : List Bytes} (rand : ℕ → ℕ)
    {i : ℕ} {rest : List Bytes} (hdrop : start.drop i = rest)
    (hrun : ∀ j < i, ∀ w ∈ start[j]?, key <+: w)
    (hi : ∀ w ∈ rest.head?, ¬key <+: w → 0 < i) (hstop : ∃ w ∈ rest, ¬key <+: w) :
    ∃ w ∈ start, startwordLoop key rand start i rest = .word w ∧ key <+: w := by
  induction rest generalizing i with
  | nil => simp at hstop
  | cons w rest ih =>
    have hmem : w ∈ start := List.mem_of_mem_drop (hdrop ▸ List.mem_cons_self)
    have hlt : i < start.length := by
      have := congrArg List.length hdrop
      rw [List.length_drop, List.length_cons] at this
      omega
    rw [startwordLoop]
    split_ifs with hcmp hdraw
    · -- a word with another beginning: one of the words in front of it is drawn
      have hpos := hi w rfl fun h => hcmp (cmpStart_eq_iff.mpr h)
      have hmod : rand i % i < i := Nat.mod_lt _ hpos
      have hget := List.getElem?_eq_getElem (Nat.lt_trans hmod hlt)
      rw [wordAt, hget]
      exact ⟨_, List.getElem_mem _, rfl, hrun _ hmod _ hget⟩
    · exact ⟨w, hmem, rfl, cmpStart_eq_iff.mp (not_not.mp hcmp)⟩
    · have hw : key <+: w := cmpStart_eq_iff.mp (not_not.mp hcmp)
      apply ih
      · rw [← List.drop_drop, hdrop]
        rfl
      · intro j hj v hv
        rcases Nat.lt_succ_iff_lt_or_eq.mp hj with hj | rfl
        · exact hrun j hj v hv
        · have hget : start[j]? = some w := by
            rw [← Nat.add_zero j, ← List.getElem?_drop, hdrop]
            rfl
          rw [hget] at hv
          rwa [← Option.some.inj hv]
      · exact fun _ _ _ => Nat.succ_pos i
      · obtain ⟨v, hv, hnot⟩ := hstop
        rcases List.mem_cons.mp hv with rfl | hv
        · exact absurd hw hnot
        · exact ⟨v, hv, hnot⟩

/-- A scan with the beginning up to the last word runs out of the list, if no draw stops it. -/
lemma startwordLoop_of_all {key : Bytes} {rest : List Bytes} (start : List Bytes) (i : ℕ)
    (hall : ∀ w ∈ rest, key <+: w) :
    startwordLoop key (fun _ => 0) start i rest = .outOfRange := by
  induction rest generalizing i with
  | nil => rfl
  | cons w rest ih =>
    have hcmp := cmpStart_eq_iff.mpr (hall w List.mem_cons_self)
    rw [startwordLoop, if_neg (not_not.mpr hcmp), if_neg (by simp)]
    exact ih (i + 1) fun v hv => hall v (List.mem_cons_of_mem _ hv)

/-- The search for a beginning, by what `bsearch` finds. -/
lemma findWordByStartwordRandom_eq {key : Bytes} (hk : key ≠ []) (rand : ℕ → ℕ) :
    findWordByStartwordRandom wordlist rand (some key) =
      match bsearch (cmpStart key) wordlist with
      | none => .null
      | some pos => startwordLoop key rand (wordlist.drop pos) 0 (wordlist.drop pos) := by
  cases key with
  | nil => exact absurd rfl hk
  | cons a key => rfl

/-- The words from a found position up to the last one, if that has the beginning. -/
lemma prefix_of_mem_drop (hs : wordlist.Pairwise (· ≤ ·)) {key last w : Bytes} {pos : ℕ}
    (hpos : bsearch (cmpStart key) wordlist = some pos) (hlast : last ∈ wordlist.getLast?)
    (hkey : key <+: last) (hw : w ∈ wordlist.drop pos) : key <+: w := by
  obtain ⟨v, hv, hve⟩ := bsearch_some hpos
  obtain ⟨j, hj, rfl⟩ := List.getElem_of_mem hw
  rw [List.length_drop] at hj
  have hget : wordlist[pos + j]? = some (wordlist.drop pos)[j] := by
    rw [← List.getElem?_drop, List.getElem?_eq_getElem]
  have hend : wordlist[wordlist.length - 1]? = some last := by
    rw [← List.getLast?_eq_getElem?]
    exact hlast
  exact cmpStart_eq_iff.mp ((ordered_cmpStart hs key).eq_of_between (Nat.le_add_right pos j)
    (by omega) hv hget hend hve (cmpStart_eq_iff.mpr hkey))

/-- **A random word by its beginning.** For every sorted list and every nonempty beginning, the
search gives `NULL` or a word with the beginning as it should and stays in range for every sequence
of random numbers exactly when the last word of the list has another beginning.

**Proof sketch.** If the last word has the beginning, so have all words from the one found on, and
the scan runs out of the list (`startwordLoop_of_all`). Otherwise the scan stops in front of it, and
one of the words between is drawn. -/
theorem findWord_staysInRange_iff (hs : wordlist.Pairwise (· ≤ ·)) {key : Bytes} (hk : key ≠ []) :
    (∀ rand, StaysInRange wordlist key (findWordByStartwordRandom wordlist rand (some key))) ↔
      ∀ last ∈ wordlist.getLast?, ¬key <+: last := by
  constructor
  · intro h last hlast hkey
    have hmem : last ∈ wordlist := List.mem_of_getLast? hlast
    obtain ⟨pos, hpos⟩ := Option.isSome_iff_exists.mp
      ((bsearch_isSome_iff (ordered_cmpStart hs key)).mpr ⟨last, hmem, cmpStart_eq_iff.mpr hkey⟩)
    refine (h fun _ => 0).1 ?_
    rw [findWordByStartwordRandom_eq hk, hpos]
    exact startwordLoop_of_all _ 0 fun w hw => prefix_of_mem_drop hs hpos hlast hkey hw
  · intro hlast rand
    rw [findWordByStartwordRandom_eq hk]
    cases hpos : bsearch (cmpStart key) wordlist with
    | none =>
      refine ⟨by simp, iff_of_true rfl fun w hw hkey => ?_, by simp⟩
      have := (bsearch_isSome_iff (ordered_cmpStart hs key)).mpr
        ⟨w, hw, cmpStart_eq_iff.mpr hkey⟩
      rw [hpos] at this
      cases this
    | some pos =>
      obtain ⟨v, hv, hve⟩ := bsearch_some hpos
      have hlt : pos < wordlist.length := (List.getElem?_eq_some_iff.mp hv).1
      -- the last word is behind the found one, and stops the scan
      have hne : wordlist.drop pos ≠ [] := by
        rw [Ne, List.drop_eq_nil_iff]
        omega
      have hstop : ∃ w ∈ wordlist.drop pos, ¬key <+: w := by
        refine ⟨_, List.getLast_mem hne, hlast _ ?_⟩
        rw [List.getLast_drop]
        exact List.getLast?_eq_some_getLast _
      have hhead : ∀ w ∈ (wordlist.drop pos).head?, ¬key <+: w → 0 < 0 := by
        intro w hw hnot
        rw [List.head?_drop, hv] at hw
        exact absurd (cmpStart_eq_iff.mp (Option.some.inj hw ▸ hve)) hnot
      have hdrop : (wordlist.drop pos).drop 0 = wordlist.drop pos := List.drop_zero
      obtain ⟨w, hw, hrun, hkey⟩ := startwordLoop_of_stop rand hdrop
        (fun j hj => absurd hj (Nat.not_lt_zero j)) hhead hstop
      have hmem := List.mem_of_mem_drop hw
      simp only [hrun]
      refine ⟨by simp, iff_of_false (by simp) fun h => h w hmem hkey, ?_⟩
      rintro _ ⟨⟩
      exact ⟨hmem, hkey⟩

/-- A list with a word behind those with the beginning. -/
theorem findWord_staysInRange_iff_two :
    (∀ rand, StaysInRange [bytes "ab", bytes "b"] (bytes "a")
      (findWordByStartwordRandom [bytes "ab", bytes "b"] rand (some (bytes "a")))) ↔
      ∀ last ∈ [bytes "ab", bytes "b"].getLast?, ¬bytes "a" <+: last :=
  findWord_staysInRange_iff (by decide) (by decide)

/-- The only word of a list is looked for by its beginning: the scan reads behind it. -/
theorem not_findWord_staysInRange : ¬∀ (wordlist : List Bytes) (key : Bytes) (rand : ℕ → ℕ),
    wordlist.Pairwise (· ≤ ·) → key ≠ [] →
      StaysInRange wordlist key (findWordByStartwordRandom wordlist rand (some key)) := by
  intro h
  have := (h [bytes "ab"] (bytes "a") (fun _ => 0) (by decide) (by decide)).1
  exact absurd rfl this

end Meowbot
