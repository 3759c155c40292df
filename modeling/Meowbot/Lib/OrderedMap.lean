import Mathlib.Order.Defs.Unbundled
import Mathlib.Data.List.Sort
import Mathlib.Tactic.Common

set_option relaxedAutoImplicit false
set_option autoImplicit false

/-!
# Ordered maps over a comparator

An `OrderedMap lt α` is a map of the kind of `std::map`: its entries stand in the order of a
comparator `lt`, and two keys count as the same when neither is in front of the other. The
comparator need not be a linear order; it has to be a strict weak order, and then an operation that
looks for a key by comparing finds the one entry whose key counts as the same. That the entries are
sorted is a field, so no operation can break it.

## Main definitions

* `OrderedMap` — the map; `OrderedMap.Same` — keys that count as the same.
* `OrderedMap.find?`, `OrderedMap.update`, `OrderedMap.erase` — the iterator found for a key, the
  read-or-create access followed by an assignment, and removal.

## Main results

* `OrderedMap.find?_eq_some_iff` — what is found.
* `OrderedMap.eq_of_same` — no two entries have keys that count as the same.
* `OrderedMap.mem_update_of_not_same`, `OrderedMap.mem_erase` — the entries after an operation.
* `OrderedMap.ext_of_mem` — a map is determined by what its entries are.
-/

/-- A map whose entries stand in the order of a comparator. -/
structure OrderedMap {κ : Type} (lt : κ → κ → Prop) (α : Type) where
  /-- The entries. -/
  entries : List (κ × α)
  /-- Each of them is in front of those behind it. -/
  sorted : entries.Pairwise fun a b => lt a.1 b.1

namespace OrderedMap

variable {κ α : Type} {lt : κ → κ → Prop}

/-- The map with no entry. -/
def empty : OrderedMap lt α := ⟨[], List.Pairwise.nil⟩

/-- Neither key is in front of the other. -/
def Same (lt : κ → κ → Prop) (a b : κ) : Prop := ¬ lt a b ∧ ¬ lt b a

instance [DecidableRel lt] (a b : κ) : Decidable (Same lt a b) :=
  inferInstanceAs (Decidable (¬ lt a b ∧ ¬ lt b a))

/-- Counting as the same is symmetric. -/
lemma Same.symm {a b : κ} (h : Same lt a b) : Same lt b a := ⟨h.2, h.1⟩

/-- **No two entries** have keys that count as the same. -/
lemma eq_of_same {m : OrderedMap lt α} {e e' : κ × α} (he : e ∈ m.entries) (he' : e' ∈ m.entries)
    (h : Same lt e.1 e'.1) : e = e' := by
  obtain ⟨es, hsorted⟩ := m
  dsimp only at he he'
  induction es with
  | nil => exact absurd he List.not_mem_nil
  | cons x es ih =>
    obtain ⟨hx, hes⟩ := List.pairwise_cons.mp hsorted
    rcases List.mem_cons.mp he with rfl | hmem <;> rcases List.mem_cons.mp he' with rfl | hmem'
    · rfl
    · exact absurd (hx e' hmem') h.1
    · exact absurd (hx e hmem) h.2
    · exact ih hes hmem hmem'

section Operations

variable [DecidableRel lt]

/-- The entry at the place of a key, if its key is not behind it. -/
def find? (m : OrderedMap lt α) (k : κ) : Option (κ × α) :=
  match m.entries.dropWhile fun e => lt e.1 k with
  | [] => none
  | e :: _ => if lt k e.1 then none else some e

/-- Update the entry of a key in a sorted list of entries, or put one at its place. -/
def updateList (lt : κ → κ → Prop) [DecidableRel lt] (k : κ) (f : Option α → α) :
    List (κ × α) → List (κ × α)
  | [] => [(k, f none)]
  | e :: es =>
    if lt e.1 k then e :: updateList lt k f es
    else if lt k e.1 then (k, f none) :: e :: es
    else (e.1, f (some e.2)) :: es

/-- The entries after an update are those from before, the new one, and the old one with its new
value.

**Proof sketch.** By induction on the entries, along the three cases of the update: further on, in
front, or at an entry with the same key. -/
lemma mem_updateList {k : κ} {f : Option α → α} {es : List (κ × α)} {x : κ × α}
    (h : x ∈ updateList lt k f es) :
    x ∈ es ∨ x.1 = k ∨ ∃ e ∈ es, x.1 = e.1 ∧ Same lt e.1 k := by
  induction es with
  | nil => simp_all [updateList]
  | cons e es ih =>
    rw [updateList] at h
    split_ifs at h with hek hke
    · rcases List.mem_cons.mp h with rfl | h
      · exact .inl List.mem_cons_self
      · rcases ih h with hmem | hk | ⟨e', he', hx⟩
        · exact .inl (List.mem_cons_of_mem _ hmem)
        · exact .inr (.inl hk)
        · exact .inr (.inr ⟨e', List.mem_cons_of_mem _ he', hx⟩)
    · rcases List.mem_cons.mp h with rfl | h
      · exact .inr (.inl rfl)
      · exact .inl h
    · rcases List.mem_cons.mp h with rfl | h
      · exact .inr (.inr ⟨e, List.mem_cons_self, rfl, hek, hke⟩)
      · exact .inl (List.mem_cons_of_mem _ h)

/-- An update does not move the other entries.

**Proof sketch.** By induction on the entries; the only entry that is new or changed is one with the
key. -/
lemma mem_updateList_of_not_same {k : κ} {f : Option α → α} {es : List (κ × α)} {x : κ × α}
    (hx : ¬ Same lt x.1 k) (hk : Same lt k k) : x ∈ updateList lt k f es ↔ x ∈ es := by
  induction es with
  | nil =>
    simp only [updateList, List.mem_singleton, List.not_mem_nil, iff_false]
    rintro rfl
    exact hx hk
  | cons e es ih =>
    have hnew : ∀ a, x ≠ (k, a) := by
      rintro a rfl
      exact hx hk
    rw [updateList]
    split_ifs with hek hke
    · rw [List.mem_cons, List.mem_cons, ih]
    · simp only [List.mem_cons, hnew, false_or]
    · have he : Same lt e.1 k := ⟨hek, hke⟩
      have hne : ∀ a, x ≠ (e.1, a) := by
        rintro a rfl
        exact hx he
      simp only [List.mem_cons, hne, false_or]

/-- A key without an entry gets one. -/
lemma mem_updateList_new {k : κ} (f : Option α → α) {es : List (κ × α)}
    (h : ∀ e ∈ es, ¬ Same lt e.1 k) : (k, f none) ∈ updateList lt k f es := by
  induction es with
  | nil => exact List.mem_singleton_self _
  | cons e es ih =>
    obtain ⟨he, hes⟩ := List.forall_mem_cons.mp h
    rw [updateList]
    split_ifs with hek hke
    · exact List.mem_cons_of_mem _ (ih hes)
    · exact List.mem_cons_self
    · exact absurd ⟨hek, hke⟩ he

/-- Remove the entries of a key. -/
def erase (m : OrderedMap lt α) (k : κ) : OrderedMap lt α :=
  ⟨m.entries.filter fun e => ¬ Same lt e.1 k, m.sorted.sublist List.filter_sublist⟩

/-- The entries after a removal are the others. -/
lemma mem_erase {m : OrderedMap lt α} {k : κ} {e : κ × α} :
    e ∈ (m.erase k).entries ↔ e ∈ m.entries ∧ ¬ Same lt e.1 k := by
  simp [erase]

end Operations

/-! ## Strict weak orders -/

variable [IsStrictWeakOrder κ lt]

/-- Every key counts as the same as itself. -/
lemma Same.refl (a : κ) : Same lt a a := ⟨irrefl_of lt a, irrefl_of lt a⟩

/-- Counting as the same is transitive. -/
lemma Same.trans {a b c : κ} (h : Same lt a b) (h' : Same lt b c) : Same lt a c :=
  IsStrictWeakOrder.incomp_trans a b c h h'

/-- What is in front of a key is in front of every key that counts as the same. -/
lemma lt_of_lt_of_same {a b c : κ} (h : lt a b) (h' : Same lt b c) : lt a c := by
  by_contra hac
  by_cases hca : lt c a
  · exact h'.2 (trans_of lt hca h)
  · exact ((Same.trans h' ⟨hca, hac⟩).2) h

/-- **A map is determined by what its entries are.** -/
lemma ext_of_mem {m m' : OrderedMap lt α} (h : ∀ e, e ∈ m.entries ↔ e ∈ m'.entries) : m = m' := by
  obtain ⟨es, hs⟩ := m
  obtain ⟨es', hs'⟩ := m'
  have hnodup : ∀ {es : List (κ × α)}, (es.Pairwise fun a b => lt a.1 b.1) → es.Nodup :=
    fun hs => hs.imp fun {a b} hab heq => by
      subst heq
      exact irrefl_of lt a.1 hab
  have hperm : es.Perm es' := (List.perm_ext_iff_of_nodup (hnodup hs) (hnodup hs')).mpr h
  have heq : es = es' := hperm.eq_of_pairwise
    (fun a b _ _ hab hba => absurd (trans_of lt hab hba) (irrefl_of lt a.1)) hs hs'
  subst heq
  rfl

variable [DecidableRel lt]

/-- **What is found** for a key is the entry whose key counts as the same.

**Proof sketch.** Induction on the entries. The first entry that is not in front of the key is
either the one, or it is in front of all entries that could be. -/
lemma find?_eq_some_iff {m : OrderedMap lt α} {k : κ} {e : κ × α} :
    m.find? k = some e ↔ e ∈ m.entries ∧ Same lt e.1 k := by
  obtain ⟨es, hsorted⟩ := m
  simp only [find?]
  induction es with
  | nil => simp
  | cons x es ih =>
    obtain ⟨hx, hes⟩ := List.pairwise_cons.mp hsorted
    by_cases hxk : lt x.1 k
    · rw [List.dropWhile_cons_of_pos (by simpa using hxk), ih hes, List.mem_cons]
      refine ⟨fun h => ⟨.inr h.1, h.2⟩, fun ⟨hmem, hsame⟩ => ⟨hmem.resolve_left ?_, hsame⟩⟩
      rintro rfl
      exact hsame.1 hxk
    · rw [List.dropWhile_cons_of_neg (by simpa using hxk)]
      dsimp only
      constructor
      · intro h
        split_ifs at h with hkx
        obtain rfl := Option.some.inj h
        exact ⟨List.mem_cons_self, hxk, hkx⟩
      · rintro ⟨hmem, hsame⟩
        rcases List.mem_cons.mp hmem with rfl | hmem
        · exact if_neg hsame.2
        · exact absurd (lt_of_lt_of_same (hx e hmem) hsame) hxk

/-- Nothing is found when no entry has a key that counts as the same. -/
lemma find?_eq_none_iff {m : OrderedMap lt α} {k : κ} :
    m.find? k = none ↔ ∀ e ∈ m.entries, ¬ Same lt e.1 k := by
  rw [Option.eq_none_iff_forall_ne_some]
  exact forall_congr' fun e => by rw [ne_eq, find?_eq_some_iff, not_and]

/-- Every entry is found under each spelling of its key. -/
lemma find?_of_mem {m : OrderedMap lt α} {e : κ × α} (he : e ∈ m.entries) {k : κ}
    (h : Same lt e.1 k) : m.find? k = some e :=
  find?_eq_some_iff.mpr ⟨he, h⟩

/-- An update keeps the entries sorted.

**Proof sketch.** By induction on the entries. What is behind the first entry after the update are
old entries, which are larger, or the new one, which is put behind it only if it is larger. -/
lemma pairwise_updateList (k : κ) (f : Option α → α) {es : List (κ × α)}
    (h : es.Pairwise fun a b => lt a.1 b.1) :
    (updateList lt k f es).Pairwise fun a b => lt a.1 b.1 := by
  induction es with
  | nil => exact List.pairwise_singleton _ _
  | cons e es ih =>
    obtain ⟨he, hes⟩ := List.pairwise_cons.mp h
    rw [updateList]
    split_ifs with hek hke
    · refine List.pairwise_cons.mpr ⟨fun x hx => ?_, ih hes⟩
      rcases mem_updateList hx with hmem | hk | ⟨e', he', hx, -⟩
      · exact he x hmem
      · rwa [hk]
      · rw [hx]
        exact he e' he'
    · refine List.pairwise_cons.mpr ⟨fun x hx => ?_, h⟩
      rcases List.mem_cons.mp hx with rfl | hx
      · exact hke
      · exact trans_of lt hke (he x hx)
    · exact List.pairwise_cons.mpr ⟨he, hes⟩

/-- Read the entry of a key (none if there is none yet) and store what `f` makes of it. An existing
entry keeps the spelling it was entered with. -/
def update (m : OrderedMap lt α) (k : κ) (f : Option α → α) : OrderedMap lt α :=
  ⟨updateList lt k f m.entries, pairwise_updateList k f m.sorted⟩

/-- The other entries are the same after an update. -/
lemma mem_update_of_not_same {m : OrderedMap lt α} {k : κ} {f : Option α → α} {e : κ × α}
    (h : ¬ Same lt e.1 k) : e ∈ (m.update k f).entries ↔ e ∈ m.entries :=
  mem_updateList_of_not_same h (Same.refl k)

/-- A key without an entry gets one, next to those that are there. -/
lemma mem_update_new {m : OrderedMap lt α} {k : κ} (f : Option α → α) (h : m.find? k = none)
    {e : κ × α} : e ∈ (m.update k f).entries ↔ e ∈ m.entries ∨ e = (k, f none) := by
  have hother := find?_eq_none_iff.mp h
  have hnew : (k, f none) ∈ (m.update k f).entries := mem_updateList_new f hother
  by_cases hsame : Same lt e.1 k
  · refine ⟨fun he => .inr (eq_of_same he hnew hsame), fun he => ?_⟩
    rcases he with he | rfl
    · exact absurd hsame (hother e he)
    · exact hnew
  · rw [mem_update_of_not_same hsame]
    refine (or_iff_left ?_).symm
    rintro rfl
    exact hsame (Same.refl k)

/-! ## Lookup after an operation -/

/-- The value stored under a key. -/
def get? (m : OrderedMap lt α) (k : κ) : Option α := (m.find? k).map Prod.snd

/-- The entry of a key gets a new value. -/
lemma mem_updateList_old {k : κ} (f : Option α → α) {es : List (κ × α)}
    (hsorted : es.Pairwise fun a b => lt a.1 b.1) {e : κ × α} (he : e ∈ es)
    (hsame : Same lt e.1 k) :
    (e.1, f (some e.2)) ∈ updateList lt k f es := by
  induction es with
  | nil => exact absurd he List.not_mem_nil
  | cons x es ih =>
    obtain ⟨hx, hes⟩ := List.pairwise_cons.mp hsorted
    rw [updateList]
    rcases List.mem_cons.mp he with rfl | hmem
    · rw [if_neg hsame.1, if_neg hsame.2]
      exact List.mem_cons_self
    · rw [if_pos (lt_of_lt_of_same (hx e hmem) hsame)]
      exact List.mem_cons_of_mem _ (ih hes hmem)

/-- Keys that count as the same yield the same. -/
lemma get?_congr (m : OrderedMap lt α) {k k' : κ} (h : Same lt k k') : m.get? k = m.get? k' := by
  have hfind : m.find? k = m.find? k' := by
    refine Option.ext fun e => ?_
    rw [find?_eq_some_iff, find?_eq_some_iff]
    exact and_congr_right fun _ => ⟨fun he => he.trans h, fun he => he.trans h.symm⟩
  rw [get?, hfind, get?]

/-- **Lookup after an update**: the updated key yields the new value, every other key what it
yielded before.

**Proof sketch.** An entry with the key is in the updated map, with the new value, and a lookup
finds it under any spelling of the key. The entries of other keys are not moved
(`mem_updateList_of_not_same`). -/
lemma get?_update (m : OrderedMap lt α) (k k' : κ) (f : Option α → α) :
    (m.update k f).get? k' = if Same lt k' k then some (f (m.get? k)) else m.get? k' := by
  split_ifs with h
  · have hentry : ∃ k₀, Same lt k₀ k ∧ (k₀, f (m.get? k)) ∈ (m.update k f).entries := by
      rcases hfind : m.find? k with _ | e
      · rw [get?, hfind]
        exact ⟨k, Same.refl k, mem_updateList_new f (find?_eq_none_iff.mp hfind)⟩
      · obtain ⟨he, hsame⟩ := find?_eq_some_iff.mp hfind
        rw [get?, hfind]
        exact ⟨e.1, hsame, mem_updateList_old f m.sorted he hsame⟩
    obtain ⟨k₀, hsame, hmem⟩ := hentry
    rw [get?, find?_of_mem hmem (hsame.trans h.symm), Option.map_some]
  · have hfind : (m.update k f).find? k' = m.find? k' := by
      refine Option.ext fun e => ?_
      rw [find?_eq_some_iff, find?_eq_some_iff]
      refine and_congr_left fun he => mem_update_of_not_same fun hek => h ?_
      exact he.symm.trans hek
    rw [get?, get?, hfind]

/-- **Lookup after a removal**: the removed key yields nothing, every other key what it yielded
before. -/
lemma get?_erase (m : OrderedMap lt α) (k k' : κ) :
    (m.erase k).get? k' = if Same lt k' k then none else m.get? k' := by
  split_ifs with h
  · have hfind : (m.erase k).find? k' = none := by
      rw [find?_eq_none_iff]
      exact fun e he hsame => (mem_erase.mp he).2 (hsame.trans h)
    rw [get?, hfind, Option.map_none]
  · have hfind : (m.erase k).find? k' = m.find? k' := by
      refine Option.ext fun e => ?_
      rw [find?_eq_some_iff, find?_eq_some_iff, mem_erase]
      refine and_congr_left fun he => and_iff_left fun hek => h ?_
      exact he.symm.trans hek
    rw [get?, get?, hfind]

end OrderedMap
