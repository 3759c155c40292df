import Meowbot.IrcUtils
import Meowbot.Lib.Runs

set_option relaxedAutoImplicit false
set_option autoImplicit false

/-!
# The database of words (`modules/mod_remember.cpp`)

`remember` looks for the record of a word, and either writes over it or takes the next free id and
inserts a record; `cmd_append` follows the links of a word to a record, reads its text and hands the
text with an addition to `remember`. Each statement locks the database, a call does not. Calls in
different event threads therefore interleave statement by statement, and nobody looks at whether an
INSERT or UPDATE has failed.

Texts come from protocol lines and contain no NUL, so a column is read as it was written.

`sqlite3_db::query` has a default value for arguments that are absent. An argument that is equal to
it is not bound; then the number of parameters is wrong and the statement is not executed, which
nobody looks at, either.

## Main definitions

* `Meowbot.WordRecord` — a row; `Meowbot.insertRecord`, `Meowbot.updateRecord` — the statements.
* `Meowbot.noArg`, `Meowbot.bindsAll` — the value of an absent argument, and the arguments that are
  all bound.
* `Meowbot.CallState`, `Meowbot.CallState.step` — a call between two statements.
* `Meowbot.WordDb`, `Meowbot.WordDb.step` — the database with all the calls, and their steps.
* `Meowbot.CallState.Undisturbed` — no other call has written what a call has read and depends on.

## Main results

* `Meowbot.WordDb.run_stored` — what is stored after a run whose writes are undisturbed.
-/

namespace Meowbot

open Runs SeqPattern

/-! ## The table -/

/-- A row of `remember_data`. -/
structure WordRecord where
  id : ℤ
  nick : Bytes
  word : Bytes
  data : Bytes
  time : ℤ
  deriving DecidableEq

/-- `SQLITE3_DB_NO_ARG_STR` -/
def noArg : Bytes := 1 :: (bytes "NO_ARG" ++ [1])

/-- `sqlite3_db::query` binds all of these arguments, and executes the statement. -/
def bindsAll (args : List Bytes) : Bool := !args.contains noArg

/-- `SELECT … WHERE word = ?`, the first row. -/
def selectWord (db : List WordRecord) (word : Bytes) : Option WordRecord :=
  if bindsAll [word] then db.find? fun r => r.word = word else none

/-- `SELECT max(id)`, without a value if there are no rows. -/
def selectMaxId (db : List WordRecord) : Option ℤ := (db.map WordRecord.id).max?

/-- `INSERT`, which fails if the primary key exists. -/
def insertRecord (db : List WordRecord) (r : WordRecord) : List WordRecord :=
  if r.id ∈ db.map WordRecord.id then db else db ++ [r]

/-- `UPDATE … WHERE id = ?`. -/
def updateRecord (db : List WordRecord) (id : ℤ) (nick data : Bytes) (time : ℤ) :
    List WordRecord :=
  db.map fun r => if r.id = id then { r with nick, data, time } else r

/-- The `INSERT` of `remember`, if it is executed. -/
def queryInsert (db : List WordRecord) (r : WordRecord) : List WordRecord :=
  if bindsAll [r.nick, r.word, r.data] then insertRecord db r else db

/-- The `UPDATE` of `remember`, if it is executed. -/
def queryUpdate (db : List WordRecord) (id : ℤ) (nick data : Bytes) (time : ℤ) :
    List WordRecord :=
  if bindsAll [nick, data] then updateRecord db id nick data time else db

/-- `atoi` of the largest id, the empty text of a missing one being read as `0`, and one more, as an
`int`. -/
def nextId (maxId : Option ℤ) : ℤ := (Int32.ofInt (maxId.getD 0) + 1).toInt

/-! ## Calls -/

/-- `^link:([^ ]+)$` -/
def reRedir : Pattern Byte :=
  ⟨lits (bytes "link:") ++ [.many (· ≠ ' ') 1 false, .lineEnd LF], [(5, 1)]⟩

/-- The word that a text is a link to. -/
def redirect (desc : Bytes) : Option Bytes :=
  match reRedir.exec desc with
  | some [tmp] => some tmp
  | _ => none

/-- `max_redirects`. -/
def maxRedirects : ℕ := 10

/-- A call, by the arguments left after the command has been taken apart. -/
inductive WordCall where
  | remember (nick word data : Bytes)
  | append (nick word data : Bytes)

/-- What a call of `remember` is to write, and on behalf of what. The text that a call appends to is
kept, so that one can say which texts the result should hold. -/
structure WordWrite where
  nick : Bytes
  word : Bytes
  data : Bytes
  /-- The text of the call, which is `data` or is appended to what was read. -/
  text : Bytes
  /-- The text read by `cmd_append`, or nothing for a call of `remember` itself. -/
  base : Option Bytes

/-- Where a call is: the next statement, and the variables needed for it. Each statement is executed
in one step, and other calls may execute theirs in between. -/
inductive CallState where
  /-- `getremdb_v2` reads a record, after some redirects. -/
  | lookup (nick data rword : Bytes) (history : List Bytes) (redirs : ℕ)
  /-- `remember` looks for the id of the word. -/
  | selectId (w : WordWrite)
  /-- `remember` looks for the largest id. -/
  | selectMax (w : WordWrite)
  /-- The number of rows when the largest id was looked for is kept for the record. -/
  | insert (w : WordWrite) (rows : ℕ) (id : ℤ)
  | update (w : WordWrite) (id : ℤ)
  /-- The call has ended: it reports success after a write, or an error. -/
  | done (written : Option WordWrite)

/-- The call has ended. -/
def CallState.isDone : CallState → Bool
  | .done _ => true
  | _ => false

/-- The start of a call. -/
def WordCall.start : WordCall → CallState
  | .remember nick word data => .selectId { nick, word, data, text := data, base := none }
  | .append nick word data => .lookup nick data word [] 0

/-- `cmd_append` has read the text of a record: it calls `remember` with the text and its own. -/
def appendTo (nick rword desc data : Bytes) : CallState :=
  .selectId { nick, word := rword, data := desc ++ bytes " | " ++ data, text := data,
              base := some desc }

/-- `getremdb_v2` after a statement: what to do with the text of a record. -/
def followLink (nick data rword desc : Bytes) (history : List Bytes) (redirs : ℕ) : CallState :=
  match redirect desc with
  | none => appendTo nick rword desc data
  | some tmp =>
    if tmp ∈ history then .done none
    else if redirs + 1 < maxRedirects then .lookup nick data tmp (history ++ [rword]) (redirs + 1)
    else .done none

/-- One statement of a call at a time, on a database: the database and the call afterwards, and the
write if there has been one. -/
def CallState.step (db : List WordRecord) (now : ℤ) :
    CallState → List WordRecord × CallState × Option WordWrite
  | .lookup nick data rword history redirs =>
    match selectWord db rword with
    | none => (db, .done none, none)
    | some r => (db, followLink nick data rword r.data history redirs, none)
  | .selectId w =>
    match selectWord db w.word with
    | none => (db, .selectMax w, none)
    | some r => (db, .update w r.id, none)
  | .selectMax w => (db, .insert w db.length (nextId (selectMaxId db)), none)
  | .insert w _ id =>
    (queryInsert db { id, nick := w.nick, word := w.word, data := w.data, time := now },
      .done (some w), some w)
  | .update w id => (queryUpdate db id w.nick w.data now, .done (some w), some w)
  | .done written => (db, .done written, none)

/-! ## Interleavings -/

/-- The database with the calls, and the writes made by calls that report success, in order. -/
structure WordDb where
  db : List WordRecord
  calls : List CallState
  writes : List WordWrite

/-- A step: a call is started in some thread, or a call runs one statement at a time. -/
inductive WordLabel where
  | start (call : WordCall)
  | run (i : ℕ) (now : ℤ)

namespace WordDb

/-- A database before any call. -/
def init (db : List WordRecord) : WordDb := { db, calls := [], writes := [] }

/-- The step function of the interleavings. -/
def step (s : WordDb) : WordLabel → Option WordDb
  | .start call => some { s with calls := s.calls ++ [call.start] }
  | .run i now => (s.calls[i]?).map fun call =>
    let r := call.step s.db now
    { db := r.1, calls := s.calls.set i r.2.1, writes := s.writes ++ r.2.2.toList }

/-- All calls have ended. -/
def Ended (s : WordDb) : Prop := ∀ call ∈ s.calls, call.isDone

/-- No two records share an id or a word. -/
structure Unique (db : List WordRecord) : Prop where
  ids : (db.map WordRecord.id).Nodup
  words : (db.map WordRecord.word).Nodup

/-- The text of a write is part of the record of its word. -/
def Stored (db : List WordRecord) (w : WordWrite) : Prop :=
  ∃ r ∈ db, r.word = w.word ∧ w.text <:+: r.data

instance (s : WordDb) : Decidable s.Ended :=
  inferInstanceAs (Decidable (∀ call ∈ s.calls, call.isDone))

instance (db : List WordRecord) (w : WordWrite) : Decidable (Stored db w) :=
  inferInstanceAs (Decidable (∃ r ∈ db, r.word = w.word ∧ w.text <:+: r.data))

/-- A later call of `remember` itself has written over the text of a write. -/
def Replaced (writes : List WordWrite) (w : WordWrite) : Prop :=
  ∃ pre post, writes = pre ++ w :: post ∧ ∃ w' ∈ post, w'.word = w.word ∧ w'.base = none

/-- The text of every write is stored, or has been replaced. -/
def Kept (db : List WordRecord) (writes : List WordWrite) : Prop :=
  ∀ pre w post, writes = pre ++ w :: post →
    Stored db w ∨ ∃ w' ∈ post, w'.word = w.word ∧ w'.base = none

end WordDb

/-- **A call is undisturbed** when it writes: its statement is executed; the word that it inserts is
still missing, no row has been inserted since it looked for the largest id, and the ids in the table
are `int`s below the largest one; the record to which it appends still holds the text that it has
read. -/
def CallState.Undisturbed (db : List WordRecord) : CallState → Prop
  | .insert w rows _ => bindsAll [w.nick, w.word, w.data] = true ∧ selectWord db w.word = none ∧
      db.length = rows ∧ ∀ r ∈ db, -(int32Max : ℤ) - 1 ≤ r.id ∧ r.id < int32Max
  | .update w id => bindsAll [w.nick, w.data] = true ∧
      ∀ base ∈ w.base, ∃ r ∈ db, r.id = id ∧ r.data = base
  | _ => True

instance (db : List WordRecord) : (call : CallState) → Decidable (call.Undisturbed db)
  | .insert w rows _ =>
    inferInstanceAs (Decidable (bindsAll [w.nick, w.word, w.data] = true ∧
      selectWord db w.word = none ∧ db.length = rows ∧
      ∀ r ∈ db, -(int32Max : ℤ) - 1 ≤ r.id ∧ r.id < int32Max))
  | .update w id =>
    inferInstanceAs (Decidable (bindsAll [w.nick, w.data] = true ∧
      ∀ base ∈ w.base, ∃ r ∈ db, r.id = id ∧ r.data = base))
  | .lookup .. | .selectId .. | .selectMax .. | .done .. => .isTrue trivial

/-! ## What the statements keep -/

/-- The ids and words of the rows. -/
def wordKeys (db : List WordRecord) : List (ℤ × Bytes) := db.map fun r => (r.id, r.word)

/-- An UPDATE keeps the ids and words. -/
lemma wordKeys_updateRecord (db : List WordRecord) (id : ℤ) (nick data : Bytes) (time : ℤ) :
    wordKeys (updateRecord db id nick data time) = wordKeys db := by
  rw [wordKeys, updateRecord, List.map_map]
  refine List.map_congr_left fun r _ => ?_
  simp only [Function.comp_apply]
  split_ifs <;> rfl

/-- An INSERT adds at most one row. -/
lemma wordKeys_insertRecord (db : List WordRecord) (r : WordRecord) :
    wordKeys db <+: wordKeys (insertRecord db r) := by
  unfold insertRecord
  split_ifs
  · exact List.prefix_rfl
  · rw [wordKeys, wordKeys, List.map_append]
    exact List.prefix_append _ _

/-- So does one that may not be executed. -/
lemma wordKeys_queryInsert (db : List WordRecord) (r : WordRecord) :
    wordKeys db <+: wordKeys (queryInsert db r) := by
  rw [queryInsert]
  split_ifs
  · exact wordKeys_insertRecord db r
  · exact List.prefix_rfl

/-- An UPDATE that may not be executed keeps the ids and words, too. -/
lemma wordKeys_queryUpdate (db : List WordRecord) (id : ℤ) (nick data : Bytes) (time : ℤ) :
    wordKeys (queryUpdate db id nick data time) = wordKeys db := by
  rw [queryUpdate]
  split_ifs
  · exact wordKeys_updateRecord db id nick data time
  · rfl

/-- The largest id depends on the ids. -/
lemma selectMaxId_eq (db : List WordRecord) :
    selectMaxId db = ((wordKeys db).map Prod.fst).max? := by
  rw [selectMaxId, wordKeys, List.map_map]
  rfl

/-- A word that is bound is looked up. -/
lemma selectWord_of_bindsAll {db : List WordRecord} {word : Bytes} (h : bindsAll [word] = true) :
    selectWord db word = db.find? fun r => r.word = word := if_pos h

/-- A word is bound unless it is the value of an absent argument. -/
lemma bindsAll_iff {args : List Bytes} : bindsAll args = true ↔ noArg ∉ args := by
  simp [bindsAll]

/-- A row that has been found is the first one of the word. -/
lemma find?_of_selectWord {db : List WordRecord} {word : Bytes} {r : WordRecord}
    (h : selectWord db word = some r) : db.find? (fun r => r.word = word) = some r := by
  rw [selectWord] at h
  split_ifs at h
  exact h

/-- No row has a word. -/
lemma selectWord_eq_none {db : List WordRecord} {word : Bytes} (hbound : bindsAll [word] = true)
    (h : selectWord db word = none) : ∀ r ∈ db, r.word ≠ word := by
  intro r hr
  rw [selectWord_of_bindsAll hbound] at h
  simpa using List.find?_eq_none.mp h r hr

/-- A row that has been found has the word. -/
lemma mem_of_selectWord {db : List WordRecord} {word : Bytes} {r : WordRecord}
    (h : selectWord db word = some r) : (r.id, word) ∈ wordKeys db := by
  have hfind := find?_of_selectWord h
  have hword : r.word = word := by simpa using List.find?_some hfind
  rw [← hword]
  exact List.mem_map_of_mem (f := fun r : WordRecord => (r.id, r.word))
    (List.mem_of_find?_eq_some hfind)

/-- The next id is larger than all others, as long as they are below the largest `int`.

**Proof sketch.** The next id is the largest one plus one, or 1 in an empty table. As the largest id
is below the largest `int`, the addition does not wrap. -/
lemma lt_nextId {db : List WordRecord}
    (h : ∀ r ∈ db, -(int32Max : ℤ) - 1 ≤ r.id ∧ r.id < int32Max) :
    ∀ r ∈ db, r.id < nextId (selectMaxId db) := by
  intro r hr
  rcases hmax : selectMaxId db with _ | m
  · have hnil : db.map WordRecord.id = [] := List.max?_eq_none_iff.mp hmax
    rw [List.map_eq_nil_iff.mp hnil] at hr
    exact absurd hr List.not_mem_nil
  · obtain ⟨hmem, hle⟩ := List.max?_eq_some_iff.mp hmax
    obtain ⟨r', hr', rfl⟩ := List.mem_map.mp hmem
    have hlast := hle r.id (List.mem_map_of_mem hr)
    obtain ⟨hlow, hhigh⟩ := h r' hr'
    have hnext : nextId (some r'.id) = r'.id + 1 := by
      simp only [int32Max] at hlow hhigh
      have hsame : (Int32.ofInt r'.id).toInt = r'.id :=
        Int32.toInt_ofInt_of_le (by omega) (by omega)
      have hone : Int32.toInt 1 = 1 := rfl
      rw [nextId, Option.getD_some, Int32.toInt_add, hsame, hone]
      exact Int.bmod_eq_of_le (by omega) (by omega)
    omega

/-! ## What a call knows -/

/-- The data of a write is its text, or its text behind the text that it appends to. -/
def WordWrite.WellFormed (w : WordWrite) : Prop :=
  w.data = match w.base with
    | none => w.text
    | some base => base ++ bytes " | " ++ w.text

/-- **What a call knows about the rows**, by their ids and words: as long as no row is inserted, the
id that it has taken is the next one; and a record that has been found stays. -/
def CallState.Knows (ks : List (ℤ × Bytes)) : CallState → Prop
  | .selectId w => w.WellFormed
  | .selectMax w => w.WellFormed
  | .insert w rows id => w.WellFormed ∧ rows ≤ ks.length ∧
      (ks.length = rows → id = nextId (ks.map Prod.fst).max?)
  | .update w id => w.WellFormed ∧ (id, w.word) ∈ ks
  | _ => True

/-- What a call knows stays true when rows are added. -/
lemma CallState.Knows.mono {ks ks' : List (ℤ × Bytes)} {call : CallState} (h : call.Knows ks)
    (hks : ks <+: ks') : call.Knows ks' := by
  have hsame : ks'.length ≤ ks.length → ks' = ks := fun hle =>
    (hks.eq_of_length (le_antisymm hks.length_le hle)).symm
  have hle := hks.length_le
  cases call with
  | lookup => trivial
  | selectId w => exact h
  | selectMax w => exact h
  | insert w rows id =>
    obtain ⟨hw, hrows, hknown⟩ := h
    refine ⟨hw, hrows.trans hle, fun hlen => ?_⟩
    have heq := hsame (by omega)
    subst heq
    exact hknown hlen
  | update w id => exact ⟨h.1, hks.subset h.2⟩
  | done => trivial

/-- A call knows nothing wrong at its start. -/
lemma WordCall.knows_start (call : WordCall) (ks : List (ℤ × Bytes)) : call.start.Knows ks := by
  cases call with
  | remember nick word data => exact rfl
  | append nick word data => trivial

/-- The next statement after a text has been read. -/
lemma knows_followLink (ks : List (ℤ × Bytes)) (nick data rword desc : Bytes)
    (history : List Bytes) (redirs : ℕ) :
    (followLink nick data rword desc history redirs).Knows ks := by
  unfold followLink
  split
  · exact rfl
  · split_ifs <;> trivial

/-- **One statement** adds rows at most, and what the call learns from it is true.

**Proof sketch.** By cases on where the call is. Only the INSERT adds a row, at the end; the call
learns the row that it selected, or that there is none, and the largest id of the rows so far. -/
lemma CallState.knows_step {db : List WordRecord} {call : CallState} (h : call.Knows (wordKeys db))
    (now : ℤ) :
    wordKeys db <+: wordKeys (call.step db now).1 ∧
      (call.step db now).2.1.Knows (wordKeys (call.step db now).1) := by
  have hlen : (wordKeys db).length = db.length := List.length_map _
  cases call with
  | lookup nick data rword history redirs =>
    simp only [step]
    split
    · exact ⟨List.prefix_rfl, trivial⟩
    · exact ⟨List.prefix_rfl, knows_followLink _ _ _ _ _ _ _⟩
  | selectId w =>
    simp only [step]
    split
    · exact ⟨List.prefix_rfl, h⟩
    · rename_i r hr
      exact ⟨List.prefix_rfl, h, mem_of_selectWord hr⟩
  | selectMax w =>
    refine ⟨List.prefix_rfl, h, hlen.ge, fun _ => ?_⟩
    rw [selectMaxId_eq]
    rfl
  | insert w rows id => exact ⟨wordKeys_queryInsert _ _, trivial⟩
  | update w id =>
    refine ⟨?_, trivial⟩
    simp only [step, wordKeys_queryUpdate]
    exact List.prefix_rfl
  | done written => exact ⟨List.prefix_rfl, trivial⟩

namespace WordDb

/-! ## What is stored -/

/-- One more write keeps the texts, if it is stored itself, and if the texts that it does not leave
stored have been replaced by it.

**Proof sketch.** By cases on whether the write is the new one. An older write is still stored, or
the new one replaces it, or a write that replaced it before comes after it. -/
lemma Kept.concat {db db' : List WordRecord} {writes : List WordWrite} {w : WordWrite}
    (h : Kept db writes)
    (hold : ∀ x ∈ writes, Stored db x → Stored db' x ∨ (w.word = x.word ∧ w.base = none))
    (hnew : Stored db' w) : Kept db' (writes ++ [w]) := by
  intro pre x post hsplit
  rcases List.eq_nil_or_concat' post with rfl | ⟨post, y, rfl⟩
  · obtain ⟨-, hx⟩ := List.append_inj' hsplit rfl
    obtain rfl := (List.cons.inj hx).1
    exact .inl hnew
  · rw [← List.cons_append, ← List.append_assoc] at hsplit
    obtain ⟨hwrites, hy⟩ := List.append_inj' hsplit rfl
    obtain rfl := (List.cons.inj hy).1
    have hx : x ∈ writes := by
      rw [hwrites]
      simp
    rcases h pre x post hwrites with hstored | ⟨w', hw', hword, hbase⟩
    · rcases hold x hx hstored with hstored | ⟨hword, hbase⟩
      · exact .inl hstored
      · exact .inr ⟨w, by simp, hword, hbase⟩
    · exact .inr ⟨w', List.mem_append_left _ hw', hword, hbase⟩

/-- The text of a well-formed write is part of its data. -/
lemma text_infix {w : WordWrite} (hw : w.WellFormed) : w.text <:+: w.data := by
  rw [hw]
  split
  · exact List.infix_rfl
  · exact (List.suffix_append _ _).isInfix

/-- **An undisturbed INSERT** stores its text, and leaves ids and words distinct.

**Proof sketch.** The call knows that the word was not there and the largest id, and no row has come
since: so word and id are new, and the row is stored by a table that keeps both distinct. A text
that is taken for an absent argument is excluded. -/
lemma insert_undisturbed {db : List WordRecord} {w : WordWrite} {rows : ℕ} {id : ℤ}
    (hdb : Unique db) (hknows : (CallState.insert w rows id).Knows (wordKeys db))
    (hund : (CallState.insert w rows id).Undisturbed db) {writes : List WordWrite}
    (hkept : Kept db writes) (now : ℤ) :
    Unique (queryInsert db ⟨id, w.nick, w.word, w.data, now⟩) ∧
      Kept (queryInsert db ⟨id, w.nick, w.word, w.data, now⟩) (writes ++ [w]) := by
  obtain ⟨hw, -, hknown⟩ := hknows
  obtain ⟨hbound, hnone, hrows, hfit⟩ := hund
  have hboundWord : bindsAll [w.word] = true := by
    rw [bindsAll_iff] at hbound ⊢
    exact fun h => hbound (by simp [List.mem_singleton.mp h])
  rw [queryInsert, if_pos hbound]
  have hid := hknown ((List.length_map _).trans hrows)
  rw [← selectMaxId_eq] at hid
  have hfresh : id ∉ db.map WordRecord.id := by
    intro hmem
    obtain ⟨r, hr, heq⟩ := List.mem_map.mp hmem
    have := lt_nextId hfit r hr
    omega
  have hword : w.word ∉ db.map WordRecord.word := by
    intro hmem
    obtain ⟨r, hr, heq⟩ := List.mem_map.mp hmem
    exact selectWord_eq_none hboundWord hnone r hr heq
  rw [insertRecord, if_neg hfresh]
  refine ⟨⟨?_, ?_⟩, hkept.concat (fun x _ hx => .inl ?_) ?_⟩
  · rw [List.map_append]
    exact List.nodup_append_comm.mp (List.nodup_cons.mpr ⟨hfresh, hdb.ids⟩)
  · rw [List.map_append]
    exact List.nodup_append_comm.mp (List.nodup_cons.mpr ⟨hword, hdb.words⟩)
  · obtain ⟨r, hr, hstored⟩ := hx
    exact ⟨r, List.mem_append_left _ hr, hstored⟩
  · exact ⟨_, List.mem_append_right _ (List.mem_singleton.mpr rfl), rfl, text_infix hw⟩

/-- The records of an updated database. -/
lemma mem_updateRecord {db : List WordRecord} {r : WordRecord} (hr : r ∈ db) (id : ℤ)
    (nick data : Bytes) (time : ℤ) :
    (if r.id = id then { r with nick, data, time } else r) ∈ updateRecord db id nick data time :=
  List.mem_map_of_mem (f := fun r : WordRecord => if r.id = id then _ else r) hr

/-- There is one record of an id. -/
lemma Unique.eq_of_id {db : List WordRecord} (hdb : Unique db) {r r' : WordRecord} (hr : r ∈ db)
    (hr' : r' ∈ db) (h : r.id = r'.id) : r = r' :=
  List.inj_on_of_nodup_map hdb.ids hr hr' h

/-- An UPDATE leaves ids and words distinct. -/
lemma Unique.updateRecord {db : List WordRecord} (hdb : Unique db) (id : ℤ) (nick data : Bytes)
    (time : ℤ) : Unique (updateRecord db id nick data time) := by
  have hkeys := wordKeys_updateRecord db id nick data time
  have hids := congrArg (List.map Prod.fst) hkeys
  have hwords := congrArg (List.map Prod.snd) hkeys
  simp only [wordKeys, List.map_map] at hids hwords
  exact ⟨hids ▸ hdb.ids, hwords ▸ hdb.words⟩

/-- **An undisturbed UPDATE** stores its text. A text that was stored is still there unless the call
replaces it: another record is not changed, and one that is appended to keeps what was read.

**Proof sketch.** The record is still there, as rows are not deleted. Its text is replaced by that
of the call; with a base the text still begins with what was read, as nobody has written in between.
-/
lemma update_undisturbed {db : List WordRecord} {w : WordWrite} {id : ℤ} (hdb : Unique db)
    (hknows : (CallState.update w id).Knows (wordKeys db))
    (hund : (CallState.update w id).Undisturbed db) {writes : List WordWrite}
    (hkept : Kept db writes) (now : ℤ) :
    Unique (queryUpdate db id w.nick w.data now) ∧
      Kept (queryUpdate db id w.nick w.data now) (writes ++ [w]) := by
  obtain ⟨hw, hmem⟩ := hknows
  obtain ⟨hbound, hund⟩ := hund
  rw [queryUpdate, if_pos hbound]
  obtain ⟨r₀, hr₀, hkey⟩ := List.mem_map.mp hmem
  obtain ⟨hid, hword⟩ := Prod.mk.inj hkey
  refine ⟨hdb.updateRecord _ _ _ _, hkept.concat (fun x _ hx => ?_) ?_⟩
  · obtain ⟨r, hr, hxword, hxdata⟩ := hx
    by_cases hsame : r.id = id
    · obtain rfl := hdb.eq_of_id hr hr₀ (hsame.trans hid.symm)
      rcases hbase : w.base with _ | base
      · exact .inr ⟨hword.symm.trans hxword, rfl⟩
      · obtain ⟨r₁, hr₁, hid₁, hdata⟩ := hund base hbase
        obtain rfl : r = r₁ := hdb.eq_of_id hr hr₁ (hsame.trans hid₁.symm)
        refine .inl ⟨_, mem_updateRecord hr id w.nick w.data now, ?_⟩
        rw [if_pos hsame]
        refine ⟨hxword, hxdata.trans ?_⟩
        have hnew : w.data = r.data ++ (bytes " | " ++ w.text) := by
          rw [hw, hbase, hdata]
          exact List.append_assoc _ _ _
        change r.data <:+: w.data
        rw [hnew]
        exact (List.prefix_append _ _).isInfix
    · refine .inl ⟨_, mem_updateRecord hr id w.nick w.data now, ?_⟩
      rw [if_neg hsame]
      exact ⟨hxword, hxdata⟩
  · refine ⟨_, mem_updateRecord hr₀ id w.nick w.data now, ?_⟩
    rw [if_pos hid]
    exact ⟨hword, text_infix hw⟩

/-! ## Runs -/

/-- The run step of a call is undisturbed. -/
def Quiet (s : WordDb) : WordLabel → Prop
  | .start _ => True
  | .run i _ => ∀ call ∈ s.calls[i]?, call.Undisturbed s.db

instance (s : WordDb) : (l : WordLabel) → Decidable (Quiet s l)
  | .start _ => .isTrue trivial
  | .run i _ => inferInstanceAs (Decidable (∀ call ∈ s.calls[i]?, call.Undisturbed s.db))

/-- What holds at every moment of a run whose writes are undisturbed. -/
structure Good (s : WordDb) : Prop where
  unique : Unique s.db
  kept : Kept s.db s.writes
  knows : ∀ call ∈ s.calls, call.Knows (wordKeys s.db)
  written : ∀ w, .done (some w) ∈ s.calls → w ∈ s.writes

/-- Before any call there is nothing to lose. -/
lemma Good.init {db : List WordRecord} (hdb : Unique db) : Good (init db) where
  unique := hdb
  kept pre w post h := absurd h (by simp [WordDb.init])
  knows call hcall := absurd hcall List.not_mem_nil
  written w hw := absurd hw List.not_mem_nil

/-- A call that ends with a write has just made it, or has ended before.

**Proof sketch.** By cases on where the call is: only the INSERT and the UPDATE end with a write,
and they make it. -/
lemma written_step {db : List WordRecord} {call : CallState} {now : ℤ} {w : WordWrite}
    (h : (call.step db now).2.1 = .done (some w)) :
    (call.step db now).2.2 = some w ∨ call = .done (some w) := by
  cases call with
  | lookup nick data rword history redirs =>
    simp only [CallState.step] at h
    split at h
    · cases h
    · simp only [followLink, appendTo] at h
      split at h
      · cases h
      · split_ifs at h <;> cases h
  | selectId v =>
    simp only [CallState.step] at h
    split at h <;> cases h
  | selectMax v => cases h
  | insert v rows id =>
    cases h
    exact .inl rfl
  | update v id =>
    cases h
    exact .inl rfl
  | done written => exact .inr h

/-- **One undisturbed statement** of one call.

**Proof sketch.** By cases on where the call is. Only the INSERT and the UPDATE write, and both are
lemmas of their own; the SELECTs change nothing. -/
lemma write_undisturbed {db : List WordRecord} {call : CallState} (hdb : Unique db)
    (hknows : call.Knows (wordKeys db)) (hund : call.Undisturbed db) {writes : List WordWrite}
    (hkept : Kept db writes) (now : ℤ) :
    Unique (call.step db now).1 ∧
      Kept (call.step db now).1 (writes ++ (call.step db now).2.2.toList) := by
  have hsame : Unique db ∧ Kept db (writes ++ (none : Option WordWrite).toList) := by
    rw [Option.toList_none, List.append_nil]
    exact ⟨hdb, hkept⟩
  cases call with
  | lookup nick data rword history redirs =>
    simp only [CallState.step]
    split <;> exact hsame
  | selectId w =>
    simp only [CallState.step]
    split <;> exact hsame
  | selectMax w => exact hsame
  | insert w rows id => exact insert_undisturbed hdb hknows hund hkept now
  | update w id => exact update_undisturbed hdb hknows hund hkept now
  | done written => exact hsame

/-- **An undisturbed step** of the calls.

**Proof sketch.** A call that begins knows nothing and has written nothing. A statement of a call
changes what this call knows, adds rows that the others may still know nothing about, and a write
that ends a call is one of the list. -/
lemma Good.step {s t : WordDb} {l : WordLabel} (h : Good s) (hquiet : Quiet s l)
    (hstep : s.step l = some t) : Good t := by
  cases l with
  | start call =>
    obtain rfl := Option.some.inj hstep
    refine ⟨h.unique, h.kept, fun c hc => ?_, fun w hw => ?_⟩
    · rcases List.mem_append.mp hc with hc | hc
      · exact h.knows c hc
      · obtain rfl := List.mem_singleton.mp hc
        exact call.knows_start _
    · rcases List.mem_append.mp hw with hw | hw
      · exact h.written w hw
      · cases call <;> cases List.mem_singleton.mp hw
  | run i now =>
    obtain ⟨call, hcall, rfl⟩ := Option.map_eq_some_iff.mp hstep
    have hknows := h.knows call (List.mem_of_getElem? hcall)
    obtain ⟨hadd, hnext⟩ := CallState.knows_step hknows now
    obtain ⟨hunique, hkept⟩ := write_undisturbed h.unique hknows (hquiet call hcall) h.kept now
    refine ⟨hunique, hkept, fun c hc => ?_, fun w hw => ?_⟩
    · rcases List.mem_or_eq_of_mem_set hc with hc | rfl
      · exact (h.knows c hc).mono hadd
      · exact hnext
    · rcases List.mem_or_eq_of_mem_set hw with hw | hw
      · exact List.mem_append_left _ (h.written w hw)
      · rcases written_step hw.symm with hnow | rfl
        · refine List.mem_append_right _ ?_
          rw [hnow]
          exact List.mem_singleton.mpr rfl
        · exact List.mem_append_left _ (h.written w (List.mem_of_getElem? hcall))

/-- **No lost word**: at every moment of a run in which the writes are undisturbed, from a database
without double ids and words, there are none, and the text of each call that has ended with success
is stored, if it has not been replaced.

**Proof sketch.** `Good` is kept by every step. -/
theorem run_stored {db : List WordRecord} (hdb : Unique db) {ls : List WordLabel} {s : WordDb}
    (hrun : Run (Under (Fun step) Quiet) (init db) ls s) :
    Unique s.db ∧ ∀ w, .done (some w) ∈ s.calls → Stored s.db w ∨ Replaced s.writes w := by
  have hgood : Good s :=
    hrun.preserves (fun _ _ _ hs hstep => hs.step hstep.2 hstep.1) (Good.init hdb)
  refine ⟨hgood.unique, fun w hw => ?_⟩
  obtain ⟨pre, post, hsplit⟩ := List.append_of_mem (hgood.written w hw)
  rcases hgood.kept pre w post hsplit with hstored | hreplaced
  · exact .inl hstored
  · exact .inr ⟨pre, post, hsplit, hreplaced⟩

/-- A word is remembered while another one is looked up, and then a text is appended to it. -/
theorem run_stored_append : ∃ ls s, Run (Under (Fun step) Quiet) (init []) ls s ∧ Ended s ∧
    Unique s.db ∧ ∀ w, .done (some w) ∈ s.calls → Stored s.db w ∨ Replaced s.writes w := by
  have hrun : Run (Under (Fun step) Quiet) (init [])
      [.start (.remember (bytes "n") (bytes "a") (bytes "x")), .run 0 1,
        .start (.append (bytes "m") (bytes "b") (bytes "y")), .run 1 1, .run 0 1, .run 0 1,
        .start (.append (bytes "m") (bytes "a") (bytes "y")), .run 2 2, .run 2 2, .run 2 2] _ :=
    Run.under_of_foldlM rfl
  have hdb : Unique [] := ⟨List.nodup_nil, List.nodup_nil⟩
  exact ⟨_, _, hrun, by decide +kernel, run_stored hdb hrun⟩

/-- **Words are lost**: when a word is remembered again, which is what `remember` is for; when two
new words are remembered at the same time, as both take the same id; when two texts are appended to
a word at the same time; when there is no id left; and when the text is taken for an absent
argument. A new word that is remembered twice at the same time has two records.

**Proof sketch.** Six runs, each of which is evaluated: in the first the second text replaces the
first; in the others two calls read the same state before either writes, the id wraps, the statement
is not executed, or two rows of one word are inserted. -/
theorem not_run_stored :
    (∃ ls s, Run (Under (Fun step) Quiet) (init []) ls s ∧ Ended s ∧
      ∃ w, .done (some w) ∈ s.calls ∧ ¬ Stored s.db w) ∧
    (∃ ls s, Run (Fun step) (init []) ls s ∧ Ended s ∧
      ∃ w, .done (some w) ∈ s.calls ∧ ¬ Stored s.db w) ∧
    (∃ ls s, Run (Fun step) (init [⟨1, bytes "n", bytes "a", bytes "x", 0⟩]) ls s ∧ Ended s ∧
      ∃ w, .done (some w) ∈ s.calls ∧ ¬ Stored s.db w) ∧
    (∃ ls s, Run (Fun step) (init [⟨int32Max, bytes "n", bytes "a", bytes "x", 0⟩,
        ⟨-int32Max - 1, bytes "n", bytes "b", bytes "x", 0⟩]) ls s ∧ Ended s ∧
      ∃ w, .done (some w) ∈ s.calls ∧ ¬ Stored s.db w) ∧
    (∃ ls s, Run (Fun step) (init []) ls s ∧ Ended s ∧
      ∃ w, .done (some w) ∈ s.calls ∧ w.text = noArg ∧ ¬ Stored s.db w) ∧
    (∃ ls s, Run (Fun step) (init []) ls s ∧ Ended s ∧ ¬ Unique s.db) := by
  refine ⟨⟨[.start (.remember (bytes "n") (bytes "a") (bytes "x")), .run 0 1, .run 0 1, .run 0 1,
      .start (.remember (bytes "n") (bytes "a") (bytes "y")), .run 1 1, .run 1 1], _,
      Run.under_of_foldlM rfl, ?_, ⟨_, _, bytes "x", bytes "x", none⟩, List.mem_cons_self, ?_⟩,
    ⟨[.start (.remember (bytes "n") (bytes "a") (bytes "x")),
      .start (.remember (bytes "n") (bytes "b") (bytes "y")), .run 0 1, .run 1 1, .run 0 1,
      .run 1 1, .run 0 1, .run 1 1], _, Run.of_foldlM rfl, ?_,
      ⟨_, _, bytes "y", bytes "y", none⟩,
      List.mem_cons_of_mem _ List.mem_cons_self, ?_⟩,
    ⟨[.start (.append (bytes "n") (bytes "a") (bytes "y")),
      .start (.append (bytes "n") (bytes "a") (bytes "z")), .run 0 1, .run 1 1, .run 0 1, .run 1 1,
      .run 0 1, .run 1 1], _, Run.of_foldlM rfl, ?_, ⟨_, _, _, bytes "y", _⟩,
      List.mem_cons_self, ?_⟩,
    ⟨[.start (.remember (bytes "n") (bytes "c") (bytes "y")), .run 0 1, .run 0 1, .run 0 1], _,
      Run.of_foldlM rfl, ?_, ⟨_, _, bytes "y", bytes "y", none⟩, List.mem_cons_self, ?_⟩,
    ⟨[.start (.remember (bytes "n") (bytes "a") noArg), .run 0 1, .run 0 1, .run 0 1], _,
      Run.of_foldlM rfl, ?_, ⟨_, _, noArg, noArg, none⟩, List.mem_cons_self, rfl, ?_⟩,
    ⟨[.start (.remember (bytes "n") (bytes "a") (bytes "x")),
      .start (.remember (bytes "n") (bytes "a") (bytes "y")), .run 0 1, .run 1 1, .run 0 1,
      .run 0 1, .run 1 1, .run 1 1], _, Run.of_foldlM rfl, ?_, ?_⟩⟩
  · decide +kernel
  · decide +kernel
  · decide +kernel
  · decide +kernel
  · decide +kernel
  · decide +kernel
  · decide +kernel
  · decide +kernel
  · decide +kernel
  · decide +kernel
  · decide +kernel
  · exact fun h => absurd h.words (by decide +kernel)

end WordDb

end Meowbot
