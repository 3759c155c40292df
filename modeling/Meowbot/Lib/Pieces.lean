import Mathlib.Data.List.Basic
import Mathlib.Tactic.Common

set_option relaxedAutoImplicit false
set_option autoImplicit false

/-!
# Pieces that say how long they are

The first element of a piece tells how many elements follow it in the piece. A list can be cut into
such pieces in at most one way, from the left to the right, whatever is asked of the elements that
follow.

## Main definitions

* `Pieces.IsPiece` — a piece, with a condition on the elements behind the first.
* `Pieces.IsCut`, `Pieces.Cut` — a list is cut into pieces; it can be cut.

## Main results

* `Pieces.cut_cons_iff` — how the first piece is cut off.
* `Pieces.IsCut.unique` — there is one way to cut a list.
-/

namespace Pieces

variable {α : Type} (size : α → Option ℕ)

/-- A piece: its first element tells how many follow, and these meet a condition. -/
def IsPiece (P : α → Prop) : List α → Prop
  | [] => False
  | a :: l => size a = some l.length ∧ ∀ b ∈ l, P b

/-- A list is cut into pieces. -/
structure IsCut (P : α → Prop) (l : List α) (ps : List (List α)) : Prop where
  flatten : ps.flatten = l
  piece : ∀ p ∈ ps, IsPiece size P p

/-- A list can be cut into pieces. -/
def Cut (P : α → Prop) (l : List α) : Prop := ∃ ps, IsCut size P l ps

variable {size} {P Q : α → Prop}

/-- A weaker condition on the elements. -/
lemma IsPiece.imp (h : ∀ b, P b → Q b) {p : List α} (hp : IsPiece size P p) :
    IsPiece size Q p := by
  cases p with
  | nil => exact hp
  | cons a l => exact ⟨hp.1, fun b hb => h b (hp.2 b hb)⟩

/-- A weaker condition on the elements of a list that can be cut. -/
lemma Cut.imp (h : ∀ b, P b → Q b) {l : List α} : Cut size P l → Cut size Q l :=
  fun ⟨ps, hps⟩ => ⟨ps, hps.flatten, fun p hp => (hps.piece p hp).imp h⟩

/-- The empty list is cut into no pieces. -/
lemma cut_nil : Cut size P [] := ⟨[], rfl, by simp⟩

/-- **The first piece**: its size is read off the first element.

**Proof sketch.** In one direction the first piece of a cut begins with the first element, and has
the size that this announces. In the other the piece is made from as many elements, in front of the
cut of the rest. -/
lemma cut_cons_iff {a : α} {l : List α} :
    Cut size P (a :: l) ↔
      ∃ n, size a = some n ∧ n ≤ l.length ∧ (∀ b ∈ l.take n, P b) ∧ Cut size P (l.drop n) := by
  constructor
  · rintro ⟨ps, hflat, hpiece⟩
    match ps, hflat, hpiece with
    | [] :: ps, _, hpiece => exact (hpiece [] List.mem_cons_self).elim
    | (b :: p) :: ps, hflat, hpiece =>
      obtain ⟨hp, hps⟩ := List.forall_mem_cons.mp hpiece
      rw [List.flatten_cons, List.cons_append, List.cons.injEq] at hflat
      obtain ⟨rfl, rfl⟩ := hflat
      refine ⟨p.length, hp.1, by simp, ?_, ps, ?_, hps⟩
      · rw [List.take_left]
        exact hp.2
      · rw [List.drop_left]
  · rintro ⟨n, hsize, hn, htake, ps, hflat, hpiece⟩
    refine ⟨(a :: l.take n) :: ps, ?_, List.forall_mem_cons.mpr ⟨⟨?_, htake⟩, hpiece⟩⟩
    · rw [List.flatten_cons, hflat, List.cons_append, List.take_append_drop]
    · rw [hsize, List.length_take, Nat.min_eq_left hn]

/-- **There is one way to cut a list.**

**Proof sketch.** By induction on the pieces. The first element says how long the first piece is, so
both first pieces are the same, and so is what is left. -/
lemma IsCut.unique {l : List α} {ps qs : List (List α)} (hp : IsCut size P l ps)
    (hq : IsCut size Q l qs) : ps = qs := by
  induction ps generalizing l qs with
  | nil =>
    obtain rfl := hp.flatten
    match qs, hq.flatten, hq.piece with
    | [], _, _ => rfl
    | [] :: qs, _, hpiece => exact (hpiece [] List.mem_cons_self).elim
    | (b :: q) :: qs, hflat, _ => simp at hflat
  | cons p ps ih =>
    obtain ⟨hp₁, hps⟩ := List.forall_mem_cons.mp hp.piece
    match p, hp₁ with
    | a :: p, hp₁ =>
      obtain rfl := hp.flatten
      match qs, hq.flatten, hq.piece with
      | [], hflat, _ => simp at hflat
      | [] :: qs, _, hpiece => exact (hpiece [] List.mem_cons_self).elim
      | (b :: q) :: qs, hflat, hpiece =>
        obtain ⟨hq₁, hqs⟩ := List.forall_mem_cons.mp hpiece
        rw [List.flatten_cons, List.flatten_cons, List.cons_append, List.cons_append,
          List.cons.injEq] at hflat
        obtain ⟨rfl, hrest⟩ := hflat
        have hlen : q.length = p.length := Option.some.inj (hq₁.1.symm.trans hp₁.1)
        obtain ⟨rfl, hflat⟩ := List.append_inj hrest hlen
        rw [ih ⟨rfl, hps⟩ ⟨hflat, hqs⟩]

end Pieces
