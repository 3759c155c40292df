import Mathlib.Data.List.Basic
import Mathlib.Data.List.Nodup
import Mathlib.Tactic.Common

set_option relaxedAutoImplicit false
set_option autoImplicit false

/-!
# Tables whose keys are compared through a normal form

A `FoldMap fold α` associates values with keys, two keys being the same key when `fold` sends
them to the same normal form. It is the ordered map of a library whose comparator is not the
equality of keys: the table keeps the spelling under which a key was first entered, and holds
at most one entry per normal form. That second fact is a field, so no operation can break it.

## Main definitions

* `FoldMap` — the table; `FoldMap.find?`, `FoldMap.update`, `FoldMap.erase` — lookup, the
  read-or-create access followed by an assignment, and removal.
* `FoldMap.All` — a predicate on spelling and value holds of every entry.

## Main results

* `FoldMap.find?_update`, `FoldMap.find?_erase` — lookup after an operation.
* `FoldMap.All.update`, `FoldMap.All.erase` — preservation of a predicate on entries.
-/

/-- A table from keys to values in which keys count as equal when `fold` identifies them. -/
structure FoldMap {κ ν : Type} (fold : κ → ν) (α : Type) where
  /-- The entries, each with the spelling of its key. -/
  entries : List (κ × α)
  /-- No two entries have the same normal form. -/
  nodup : (entries.map fun e => fold e.1).Nodup

namespace FoldMap

variable {κ ν α : Type} {fold : κ → ν}

/-- The table with no entry. -/
def empty : FoldMap fold α := ⟨[], List.nodup_nil⟩

/-- Every entry of the table satisfies `P`, a predicate on the spelling and the value. -/
def All (m : FoldMap fold α) (P : κ → α → Prop) : Prop := ∀ e ∈ m.entries, P e.1 e.2

/-- The empty table satisfies every predicate. -/
@[simp] lemma all_empty (P : κ → α → Prop) : (empty : FoldMap fold α).All P := by
  simp [All, empty]

/-- A predicate on entries may be weakened. -/
lemma All.imp {m : FoldMap fold α} {P Q : κ → α → Prop} (h : m.All P)
    (hPQ : ∀ k a, P k a → Q k a) : m.All Q :=
  fun e he => hPQ _ _ (h e he)

variable [DecidableEq ν]

/-! ## The operations -/

/-- The value stored under a key, whatever its spelling. -/
def find? (m : FoldMap fold α) (k : κ) : Option α :=
  (m.entries.find? fun e => fold e.1 = fold k).map Prod.snd

/-- Whether some spelling of the key has an entry. -/
def contains (m : FoldMap fold α) (k : κ) : Bool := (m.find? k).isSome

/-- Update the entry of `k` in a list of entries, or add one at its end. -/
def updateList (fold : κ → ν) (k : κ) (f : Option α → α) : List (κ × α) → List (κ × α)
  | [] => [(k, f none)]
  | e :: es =>
    if fold e.1 = fold k then (e.1, f (some e.2)) :: es else e :: updateList fold k f es

/-- The normal forms after an update are the old ones and that of the updated key. -/
lemma mem_keys_updateList (k : κ) (f : Option α → α) (es : List (κ × α)) (x : ν) :
    x ∈ (updateList fold k f es).map (fun e => fold e.1) ↔
      x = fold k ∨ x ∈ es.map fun e => fold e.1 := by
  induction es with
  | nil => simp [updateList]
  | cons e es ih =>
    by_cases h : fold e.1 = fold k
    · simp [updateList, h]
    · simp only [updateList, if_neg h, List.map_cons, List.mem_cons, ih]
      tauto

/-- An update keeps the normal forms distinct. -/
lemma nodup_updateList (k : κ) (f : Option α → α) {es : List (κ × α)}
    (h : (es.map fun e => fold e.1).Nodup) :
    ((updateList fold k f es).map fun e => fold e.1).Nodup := by
  induction es with
  | nil => simp [updateList]
  | cons e es ih =>
    rw [List.map_cons, List.nodup_cons] at h
    by_cases hk : fold e.1 = fold k
    · simpa only [updateList, if_pos hk, List.map_cons, List.nodup_cons] using h
    · simp only [updateList, if_neg hk, List.map_cons, List.nodup_cons, mem_keys_updateList]
      exact ⟨fun hm => hm.elim hk h.1, ih h.2⟩

/-- Read the entry of `k` (none if there is none yet) and store what `f` makes of it. An existing
entry keeps the spelling it was entered with. -/
def update (m : FoldMap fold α) (k : κ) (f : Option α → α) : FoldMap fold α :=
  ⟨updateList fold k f m.entries, nodup_updateList k f m.nodup⟩

/-- Remove the entry of `k`, if there is one. -/
def erase (m : FoldMap fold α) (k : κ) : FoldMap fold α :=
  ⟨m.entries.filter fun e => fold e.1 ≠ fold k, m.nodup.sublist (List.filter_sublist.map _)⟩

/-! ## Lookup after an operation -/

/-- Nothing is found in the empty table. -/
@[simp] lemma find?_empty (k : κ) : (empty : FoldMap fold α).find? k = none := rfl

/-- Lookup depends on the normal form only. -/
lemma find?_congr (m : FoldMap fold α) {k k' : κ} (h : fold k = fold k') :
    m.find? k = m.find? k' := by
  simp only [find?, h]

/-- A found value belongs to an entry whose key has the normal form searched for. -/
lemma exists_of_find? {m : FoldMap fold α} {k : κ} {a : α} (h : m.find? k = some a) :
    ∃ k', fold k' = fold k ∧ (k', a) ∈ m.entries := by
  obtain ⟨e, he, rfl⟩ := Option.map_eq_some_iff.mp h
  exact ⟨e.1, by simpa using List.find?_some he, List.mem_of_find?_eq_some he⟩

/-- A predicate on entries holds of a found value under some spelling of its key. -/
lemma All.of_find? {m : FoldMap fold α} {P : κ → α → Prop} (h : m.All P) {k : κ} {a : α}
    (hf : m.find? k = some a) : ∃ k', fold k' = fold k ∧ P k' a := by
  obtain ⟨k', hk, he⟩ := exists_of_find? hf
  exact ⟨k', hk, h _ he⟩

/-- Nothing is found exactly when no entry has the normal form searched for. -/
lemma find?_eq_none {m : FoldMap fold α} {k : κ} :
    m.find? k = none ↔ ∀ e ∈ m.entries, fold e.1 ≠ fold k := by
  simp [find?, List.find?_eq_none]

/-- Every entry is found under its own key.

**Proof sketch.** Induction on the entries. An entry behind another one has a different normal
form from it, by the distinctness of the normal forms. -/
lemma find?_of_mem {m : FoldMap fold α} {e : κ × α} (h : e ∈ m.entries) :
    m.find? e.1 = some e.2 := by
  obtain ⟨es, hnd⟩ := m
  simp only [find?] at h ⊢
  induction es with
  | nil => exact absurd h List.not_mem_nil
  | cons x es ih =>
    rw [List.map_cons, List.nodup_cons] at hnd
    rcases List.mem_cons.mp h with rfl | hmem
    · simp
    · have hne : ¬ fold x.1 = fold e.1 := by
        intro heq
        exact hnd.1 (heq ▸ List.mem_map_of_mem (f := fun e => fold e.1) hmem)
      rw [List.find?_cons_of_neg (by simpa using hne)]
      exact ih hnd.2 hmem

/-- **Lookup after an update**: the updated key yields the new value, every other key what it
yielded before.

**Proof sketch.** By induction on the entries: the update changes the first entry with the key, or
adds one at the end if there is none, which is where the lookup finds it. -/
lemma find?_update (m : FoldMap fold α) (k k' : κ) (f : Option α → α) :
    (m.update k f).find? k' =
      if fold k' = fold k then some (f (m.find? k)) else m.find? k' := by
  obtain ⟨es, hnd⟩ := m
  simp only [find?, update]
  clear hnd
  induction es with
  | nil =>
    by_cases h : fold k' = fold k
    · simp [updateList, h]
    · simp [updateList, h, Ne.symm h]
  | cons e es ih =>
    by_cases he : fold e.1 = fold k
    · by_cases h : fold k' = fold k
      · simp [updateList, he, h]
      · simp [updateList, he, h, Ne.symm h]
    · by_cases hk : fold e.1 = fold k'
      · simp [updateList, hk, show fold k' ≠ fold k from fun h => he (hk.trans h)]
      · simp only [updateList, if_neg he, List.find?_cons, decide_eq_false hk,
          decide_eq_false he]
        exact ih

/-- **Lookup after a removal**: the removed key yields nothing, every other key what it yielded
before. -/
lemma find?_erase (m : FoldMap fold α) (k k' : κ) :
    (m.erase k).find? k' = if fold k' = fold k then none else m.find? k' := by
  obtain ⟨es, hnd⟩ := m
  simp only [find?, erase]
  clear hnd
  induction es with
  | nil => simp
  | cons e es ih =>
    by_cases he : fold e.1 = fold k
    · rw [List.filter_cons_of_neg (by simpa using he), ih]
      by_cases h : fold k' = fold k
      · simp [h]
      · simp [h, he, Ne.symm h]
    · rw [List.filter_cons_of_pos (by simpa using he)]
      by_cases hk : fold e.1 = fold k'
      · simp [hk, show fold k' ≠ fold k from fun h => he (hk.trans h)]
      · simp only [List.find?_cons, decide_eq_false hk]
        exact ih

/-- An update of a key with an entry keeps the spellings of all keys. -/
lemma keys_update_of_contains {m : FoldMap fold α} {k : κ} (h : m.contains k)
    (f : Option α → α) : (m.update k f).entries.map Prod.fst = m.entries.map Prod.fst := by
  have hlist : ∀ es : List (κ × α), (∃ e ∈ es, fold e.1 = fold k) →
      (updateList fold k f es).map Prod.fst = es.map Prod.fst := by
    intro es hes
    induction es with
    | nil => simp at hes
    | cons e es ih =>
      by_cases he : fold e.1 = fold k
      · simp [updateList, he]
      · obtain ⟨e', hmem, he'⟩ := hes
        have hrest : e' ∈ es := (List.mem_cons.mp hmem).resolve_left fun h => he (h ▸ he')
        simp only [updateList, if_neg he, List.map_cons, ih ⟨e', hrest, he'⟩]
  obtain ⟨a, ha⟩ := Option.isSome_iff_exists.mp h
  obtain ⟨k', hk', hmem⟩ := exists_of_find? ha
  exact hlist m.entries ⟨_, hmem, hk'⟩

/-- An update of a key without an entry adds an entry at the end. -/
lemma entries_update_of_absent {m : FoldMap fold α} {k : κ}
    (h : ∀ e ∈ m.entries, fold e.1 ≠ fold k) (f : Option α → α) :
    (m.update k f).entries = m.entries ++ [(k, f none)] := by
  obtain ⟨es, hnd⟩ := m
  simp only [update] at h ⊢
  clear hnd
  induction es with
  | nil => rfl
  | cons e es ih =>
    obtain ⟨he, hes⟩ := List.forall_mem_cons.mp h
    rw [updateList, if_neg he, ih hes, List.cons_append]

/-- The keys after an update are the old ones and the updated one. -/
lemma contains_update (m : FoldMap fold α) (k k' : κ) (f : Option α → α) :
    (m.update k f).contains k' ↔ fold k' = fold k ∨ m.contains k' := by
  unfold contains
  rw [find?_update]
  split_ifs with h
  · simp [h]
  · simp [h]

/-- The keys after a removal are the others. -/
lemma contains_erase (m : FoldMap fold α) (k k' : κ) :
    (m.erase k).contains k' ↔ fold k' ≠ fold k ∧ m.contains k' := by
  unfold contains
  rw [find?_erase]
  split_ifs with h
  · simp [h]
  · simp [h]

/-! ## Predicates on entries -/

/-- A predicate on entries survives an update that establishes it for the updated entry. -/
lemma All.update {m : FoldMap fold α} {P : κ → α → Prop} (h : m.All P) {k : κ}
    {f : Option α → α}
    (hold : ∀ k' a, fold k' = fold k → m.find? k = some a → P k' a → P k' (f (some a)))
    (hnew : m.find? k = none → P k (f none)) : (m.update k f).All P := by
  obtain ⟨es, hnd⟩ := m
  simp only [All, FoldMap.update, find?] at h hold hnew ⊢
  clear hnd
  induction es with
  | nil => simpa [updateList] using hnew (by simp)
  | cons e es ih =>
    by_cases he : fold e.1 = fold k
    · simp only [updateList, if_pos he, List.forall_mem_cons] at h ⊢
      exact ⟨hold _ _ he (by simp [he]) h.1, h.2⟩
    · rw [List.find?_cons_of_neg (by simpa using he)] at hold hnew
      simp only [updateList, if_neg he, List.forall_mem_cons] at h ⊢
      exact ⟨h.1, ih h.2 hold hnew⟩

/-- A predicate on entries survives a removal. -/
lemma All.erase {m : FoldMap fold α} {P : κ → α → Prop} (h : m.All P) (k : κ) :
    (m.erase k).All P :=
  fun e he => h e (List.mem_filter.mp he).1

end FoldMap
