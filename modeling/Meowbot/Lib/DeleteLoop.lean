import Mathlib.Data.List.Chain
import Mathlib.Data.List.Basic
import Mathlib.Tactic.Common

set_option relaxedAutoImplicit false
set_option autoImplicit false

/-!
# Deleting by index from two lists

Entries of one list own items of another. A loop goes through the entries by an index, deletes those
that satisfy a predicate, and deletes the items that they own. When it has deleted an entry, the
next one is at the same index; a loop that keeps the index only if the entry has owned items skips
the entry behind one that has owned none.

## Main definitions

* `DeleteLoop.loop` — the loop; `DeleteLoop.rest` — what it makes of the entries that are left.

## Main results

* `DeleteLoop.covered_rest` — items whose owners are listed keep listed owners.
* `DeleteLoop.rest_eq_filter`, `DeleteLoop.isChain_of_rest` — all entries are deleted exactly when
  none of those to be deleted comes directly behind one that owns nothing.
-/

namespace DeleteLoop

variable {α β : Type} (p : α → Bool) (owns : α → β → Bool) (tidy : List β → List β)

/-- The loop, from an index on. The items are tidied up after each deletion. When an entry that owns
something is deleted the index stays, and with one that owns nothing it goes on, so that the next
entry is skipped. -/
def loop (i : ℕ) (xs : List α) (ys : List β) : List α × List β :=
  if h : i < xs.length then
    if p xs[i] then
      let kept := tidy (ys.filter fun y => !owns xs[i] y)
      if ys.any (owns xs[i]) then loop i (xs.eraseIdx i) kept
      else loop (i + 1) (xs.eraseIdx i) kept
    else loop (i + 1) xs ys
  else (xs, ys)
termination_by xs.length - i
decreasing_by
  · have := List.length_eraseIdx_of_lt h
    omega
  · have := List.length_eraseIdx_of_lt h
    omega
  · omega

/-- What the loop makes of the entries from the index on, by recursion on them. The entry behind one
that owned nothing is kept without a look. -/
def rest : List α → List β → List α × List β
  | [], ys => ([], ys)
  | x :: xs, ys =>
    if p x then
      let kept := tidy (ys.filter fun y => !owns x y)
      if ys.any (owns x) then rest xs kept
      else
        match xs with
        | [] => ([], kept)
        | x' :: xs => (x' :: (rest xs kept).1, (rest xs kept).2)
    else (x :: (rest xs ys).1, (rest xs ys).2)

variable {p owns tidy}

/-- The loop leaves the entries in front of the index.

**Proof sketch.** By strong induction on the entries that are left. Deleting at the index leaves
those in front of it, and going on moves one entry over to them. -/
lemma loop_append (pre xs : List α) (ys : List β) :
    loop p owns tidy pre.length (pre ++ xs) ys =
      (pre ++ (rest p owns tidy xs ys).1, (rest p owns tidy xs ys).2) := by
  induction hn : xs.length using Nat.strong_induction_on generalizing pre xs ys with
  | _ n ih =>
    subst hn
    cases xs with
    | nil => rw [loop, dif_neg (by simp), rest]
    | cons x xs =>
      have herase : (pre ++ x :: xs).eraseIdx pre.length = pre ++ xs := by
        rw [List.eraseIdx_append_of_length_le le_rfl]
        simp
      have hnext : ∀ x' xs', (pre ++ x' :: xs') = (pre ++ [x']) ++ xs' := fun x' xs' =>
        List.append_cons pre x' xs'
      have hlength : ∀ x' : α, pre.length + 1 = (pre ++ [x']).length := fun x' => by simp
      rw [loop, dif_pos (by simp), rest]
      simp only [List.getElem_append_right (le_refl _), Nat.sub_self, List.getElem_cons_zero, herase]
      split_ifs
      · exact ih xs.length (by simp) pre xs _ rfl
      · -- the next entry is skipped
        cases xs with
        | nil => rw [loop, dif_neg (by simp)]
        | cons x' xs =>
          rw [hnext, hlength x', ih xs.length (by simp only [List.length_cons]; omega) (pre ++ [x']) xs _ rfl]
          simp
      · rw [hnext, hlength x, ih xs.length (by simp) (pre ++ [x]) xs _ rfl]
        simp

/-- The loop from the start. -/
lemma loop_zero (xs : List α) (ys : List β) : loop p owns tidy 0 xs ys = rest p owns tidy xs ys :=
  loop_append [] xs ys

/-- No entry is added. -/
lemma rest_sublist (xs : List α) (ys : List β) : (rest p owns tidy xs ys).1.Sublist xs := by
  induction hn : xs.length using Nat.strong_induction_on generalizing xs ys with
  | _ n ih =>
    subst hn
    cases xs with
    | nil => exact .slnil
    | cons x xs =>
      rw [rest]
      split_ifs
      · exact (ih xs.length (by simp) xs _ rfl).cons x
      · cases xs with
        | nil => exact List.nil_sublist _
        | cons x' xs => exact ((ih xs.length (by simp only [List.length_cons]; omega) xs _ rfl).cons_cons x').cons x
      · exact (ih xs.length (by simp) xs _ rfl).cons_cons x

/-- **Covered items stay covered**: what the deleted entries own is deleted with them.

**Proof sketch.** By strong induction on the entries that are left. An item that is kept is not
owned by the entry that is deleted, so what owns it is among the others; an entry that is passed
still owns what it did. -/
lemma covered_rest (htidy : ∀ ys : List β, ∀ y ∈ tidy ys, y ∈ ys) (pre : List α) {xs : List α}
    {ys : List β} {c : β → Prop} (h : ∀ y ∈ ys, c y → ∃ x ∈ pre ++ xs, owns x y) :
    ∀ y ∈ (rest p owns tidy xs ys).2, y ∈ ys ∧
      (c y → ∃ x ∈ pre ++ (rest p owns tidy xs ys).1, owns x y) := by
  induction hn : xs.length using Nat.strong_induction_on generalizing pre xs ys with
  | _ n ih =>
    subst hn
    cases xs with
    | nil => exact fun y hy => ⟨hy, h y hy⟩
    | cons x xs =>
      have hkept : ∀ y ∈ tidy (ys.filter fun y => !owns x y), y ∈ ys ∧
          (c y → ∃ x ∈ pre ++ xs, owns x y) := by
        intro y hy
        obtain ⟨hy, hnot⟩ := List.mem_filter.mp (htidy _ y hy)
        refine ⟨hy, fun hc => ?_⟩
        obtain ⟨x', hx', howns⟩ := h y hy hc
        refine ⟨x', ?_, howns⟩
        rcases List.mem_append.mp hx' with hx' | hx'
        · exact List.mem_append_left _ hx'
        · rcases List.mem_cons.mp hx' with rfl | hx'
          · rw [howns] at hnot
            cases hnot
          · exact List.mem_append_right _ hx'
      rw [rest]
      split_ifs
      · intro y hy
        have hrest := ih xs.length (by simp) pre (fun y hy => (hkept y hy).2) rfl y hy
        exact ⟨(hkept y hrest.1).1, hrest.2⟩
      · cases xs with
        | nil => exact hkept
        | cons x' xs =>
          intro y hy
          have hrest := ih xs.length (by simp only [List.length_cons]; omega) (pre ++ [x'])
            (fun y hy hc => by simpa using (hkept y hy).2 hc) rfl y hy
          exact ⟨(hkept y hrest.1).1, by simpa using hrest.2⟩
      · intro y hy
        have hrest := ih xs.length (by simp) (pre ++ [x])
          (fun y hy hc => by simpa using h y hy hc) rfl y hy
        exact ⟨hrest.1, by simpa using hrest.2⟩

/-- Which entries own something does not change when the items of another one are deleted. -/
lemma any_filter_owns {x x' : α} {ys : List β} (hdis : ∀ y, ¬ (owns x y ∧ owns x' y)) :
    (ys.filter fun y => !owns x y).any (owns x') = ys.any (owns x') := by
  rw [List.any_filter]
  congr 1
  funext y
  have := hdis y
  cases h : owns x' y with
  | false => rw [Bool.and_false]
  | true =>
    have hx : owns x y = false := by simpa [h] using this
    simp [hx]

/-- **The entries that should be deleted are deleted**, with what they own, if none of them comes
directly behind one that owns nothing.

**Proof sketch.** By strong induction on the entries. An entry that is deleted with something it
owns is followed by one that is looked at too; one that owns nothing makes the loop skip the next
entry, which by the condition need not be deleted. -/
lemma rest_eq_filter {xs : List α} {ys : List β} {has : α → Bool}
    (hdis : xs.Pairwise fun x x' => ∀ y, ¬ (owns x y ∧ owns x' y))
    (hhas : ∀ x ∈ xs, ys.any (owns x) = has x) (h : xs.IsChain fun x x' => p x → p x' → has x) :
    rest p owns id xs ys =
      (xs.filter fun x => !p x, ys.filter fun y => !xs.any fun x => p x && owns x y) := by
  induction hn : xs.length using Nat.strong_induction_on generalizing xs ys with
  | _ n ih =>
    subst hn
    cases xs with
    | nil => simp [rest]
    | cons x xs =>
      obtain ⟨hx, hxs⟩ := List.pairwise_cons.mp hdis
      obtain ⟨hhasx, hhasxs⟩ := List.forall_mem_cons.mp hhas
      have hkept : ∀ x' ∈ xs, (ys.filter fun y => !owns x y).any (owns x') = has x' :=
        fun x' hx' => (any_filter_owns (hx x' hx')).trans (hhasxs x' hx')
      rw [rest]
      split_ifs with hp hany
      · rw [id, ih xs.length (by simp) hxs hkept h.tail rfl, List.filter_filter]
        simp [hp, Bool.and_comm]
      · cases xs with
        | nil => simp [hp]
        | cons x' xs =>
          rw [List.isChain_cons_cons] at h
          have hp' : p x' = false := by
            rw [hhasx] at hany
            simpa [hp, hany] using h.1
          have hrest := ih xs.length (by simp only [List.length_cons]; omega) (List.pairwise_cons.mp hxs).2
            (fun x'' hx'' => hkept x'' (List.mem_cons_of_mem _ hx'')) h.2.tail rfl
          dsimp only [id]
          rw [hrest, List.filter_filter]
          simp [hp, hp', Bool.and_comm]
      · rw [ih xs.length (by simp) hxs hhasxs h.tail rfl]
        simp [hp]

/-- **If no entry is left that should be deleted**, none of them comes directly behind one that owns
nothing.

**Proof sketch.** By strong induction on the entries. If an entry that owns nothing is deleted, the
next one is skipped and kept, so it is none that should be deleted. -/
lemma isChain_of_rest {xs : List α} {ys : List β} {has : α → Bool}
    (hdis : xs.Pairwise fun x x' => ∀ y, ¬ (owns x y ∧ owns x' y))
    (hhas : ∀ x ∈ xs, ys.any (owns x) = has x) (h : ∀ x ∈ (rest p owns id xs ys).1, ¬ p x) :
    xs.IsChain fun x x' => p x → p x' → has x := by
  induction hn : xs.length using Nat.strong_induction_on generalizing xs ys with
  | _ n ih =>
    subst hn
    cases xs with
    | nil => exact .nil
    | cons x xs =>
      obtain ⟨hx, hxs⟩ := List.pairwise_cons.mp hdis
      obtain ⟨hhasx, hhasxs⟩ := List.forall_mem_cons.mp hhas
      have hkept : ∀ x' ∈ xs, (ys.filter fun y => !owns x y).any (owns x') = has x' :=
        fun x' hx' => (any_filter_owns (hx x' hx')).trans (hhasxs x' hx')
      rw [rest] at h
      split_ifs at h with hp hany
      · refine List.isChain_cons.mpr ⟨fun x' _ _ _ => ?_, ?_⟩
        · rwa [← hhasx]
        · exact ih xs.length (by simp) hxs hkept h rfl
      · cases xs with
        | nil => exact .singleton x
        | cons x' xs =>
          obtain ⟨hp', hrest⟩ := List.forall_mem_cons.mp h
          refine List.isChain_cons_cons.mpr ⟨fun _ hx' => absurd hx' hp', ?_⟩
          refine List.isChain_cons.mpr ⟨fun _ _ hx' => absurd hx' hp', ?_⟩
          exact ih xs.length (by simp only [List.length_cons]; omega) (List.pairwise_cons.mp hxs).2
            (fun x'' hx'' => hkept x'' (List.mem_cons_of_mem _ hx'')) hrest rfl
      · obtain ⟨hp', hrest⟩ := List.forall_mem_cons.mp h
        refine List.isChain_cons.mpr ⟨fun _ _ hx' => absurd hx' hp', ?_⟩
        exact ih xs.length (by simp) hxs hhasxs hrest rfl

end DeleteLoop
