import Mathlib.Algebra.GroupWithZero.Nat
import Mathlib.Order.Interval.Finset.Nat

/-
  Extents of memory, and who holds which.

  Memory is handed out by cutting: a piece is taken off the
  front of what a holder has left. `Held` says that what has
  been handed out and what the holders have left do not
  overlap; cutting, splitting a holder in two and dropping a
  holder keep it.
-/

namespace Horus.Lib

open Function

structure Extent where
  start : Nat
  bytes : Nat
deriving DecidableEq, Repr

variable {e f : Extent}

namespace Extent

def stop (e : Extent) : Nat := e.start + e.bytes

/- The addresses in an extent. -/
def points (e : Extent) : Finset Nat := Finset.Ico e.start e.stop

def Inside (e f : Extent) : Prop := e.points ⊆ f.points

/- No address is in both. -/
def Apart (e f : Extent) : Prop := Disjoint e.points f.points

/- An extent without addresses. -/
def none : Extent := { start := 0, bytes := 0 }

theorem card_points (e : Extent) : e.points.card = e.bytes := by
  simp [points, stop]

theorem inside_of_le (hStart : f.start ≤ e.start) (hStop : e.stop ≤ f.stop) : e.Inside f :=
  Finset.Ico_subset_Ico hStart hStop

theorem Inside.refl (e : Extent) : e.Inside e := Finset.Subset.refl _

theorem Inside.trans {g : Extent} (hInner : e.Inside f) (hOuter : f.Inside g) : e.Inside g :=
  Finset.Subset.trans hInner hOuter

theorem none_inside (e : Extent) : Extent.none.Inside e := Finset.empty_subset _

theorem apart_of_le (hLe : e.stop ≤ f.start) : e.Apart f := by
  apply Finset.disjoint_left.mpr
  intro x hE hF
  simp only [points, Finset.mem_Ico] at hE hF
  omega

theorem Apart.symm (hApart : e.Apart f) : f.Apart e := Disjoint.symm hApart

theorem Apart.inside {e' f' : Extent} (hApart : e.Apart f)
    (hE : e'.Inside e) (hF : f'.Inside f) : e'.Apart f' :=
  Disjoint.mono hE hF hApart

end Extent

/- The addresses of a list of extents. -/
def covered (es : List Extent) : Finset Nat := es.foldr (fun e acc => e.points ∪ acc) ∅

variable {es : List Extent}

theorem mem_covered {x : Nat} : x ∈ covered es ↔ ∃ e ∈ es, x ∈ e.points := by
  induction es with
  | nil => simp [covered]
  | cons _ _ ih =>
    simp only [covered, List.foldr_cons, Finset.mem_union, List.mem_cons, exists_eq_or_imp]
    exact or_congr_right ih

theorem card_covered (hApart : es.Pairwise Extent.Apart) :
    (covered es).card = (es.map Extent.bytes).sum := by
  induction hApart with
  | nil => rfl
  | @cons e es hHead _ ih =>
  have hDisjoint : Disjoint e.points (covered es) := by
    apply Finset.disjoint_left.mpr
    intro x hIn hMem
    rcases mem_covered.mp hMem with ⟨f, hF, hX⟩
    exact Finset.disjoint_left.mp (hHead f hF) hIn hX
  rw [List.map_cons, List.sum_cons, ← ih, ← e.card_points]
  exact Finset.card_union_of_disjoint hDisjoint

/- What fits in an extent without overlap is no larger. -/
theorem sum_bytes_le (hApart : es.Pairwise Extent.Apart) (hInside : ∀ e ∈ es, e.Inside f) :
    (es.map Extent.bytes).sum ≤ f.bytes := by
  rw [← card_covered hApart, ← f.card_points]
  apply Finset.card_le_card
  intro x hMem
  rcases mem_covered.mp hMem with ⟨e, hE, hX⟩
  exact hInside e hE hX

----
-- Holders
----

/-
  `out` has been handed out, and holder `i` has `left i` left.
-/
structure Held {ι : Type} (out : List Extent) (left : ι → Extent) : Prop where
  pieces : out.Pairwise Extent.Apart
  apart : ∀ e ∈ out, ∀ i, e.Apart (left i)
  holders : ∀ i j, i ≠ j → (left i).Apart (left j)

variable {rest piece : Extent}

section Held

variable {ι : Type} [DecidableEq ι] {out : List Extent} {left : ι → Extent}

/- A holder is left with less. -/
theorem Held.shrink (hHeld : Held out left) (i : ι)
    (hRest : rest.Inside (left i)) : Held out (update left i rest) := by
  have hInside : ∀ j, (update left i rest j).Inside (left j) := by
    intro j
    rcases eq_or_ne j i with rfl | hEq
    · rw [update_self]
      exact hRest
    · rw [update_of_ne hEq]
      exact Extent.Inside.refl _
  refine ⟨hHeld.pieces, ?_, ?_⟩
  · intro e hMem j
    exact (hHeld.apart e hMem j).inside (Extent.Inside.refl _) (hInside j)
  · intro j j' hNe
    exact (hHeld.holders j j' hNe).inside (hInside j) (hInside j')

/- A piece is cut off what a holder has left. -/
theorem Held.cut (hHeld : Held out left) (i : ι)
    (hPiece : piece.Inside (left i)) (hRest : rest.Inside (left i)) (hApart : piece.Apart rest) :
    Held (piece :: out) (update left i rest) := by
  have hShrunk := hHeld.shrink i hRest
  refine ⟨List.pairwise_cons.mpr ⟨?_, hHeld.pieces⟩, ?_, hShrunk.holders⟩
  · intro e hMem
    exact ((hHeld.apart e hMem i).inside (Extent.Inside.refl _) hPiece).symm
  intro e hMem j
  rcases List.mem_cons.mp hMem with hEq | hOld
  · subst hEq
    rcases eq_or_ne j i with rfl | hEq
    · rw [update_self]
      exact hApart
    · rw [update_of_ne hEq]
      exact (hHeld.holders i j (Ne.symm hEq)).inside hPiece (Extent.Inside.refl _)
  · exact hShrunk.apart e hOld j

/- What holder `i` has left is divided with `j`, who has none. -/
theorem Held.split (hHeld : Held out left) {i j : ι} (hNe : j ≠ i) (hPiece : piece.Inside (left i))
    (hRest : rest.Inside (left i)) (hApart : piece.Apart rest) : Held out
      (update (update left i rest) j piece) := by
  have hCut := hHeld.cut i hPiece hRest hApart
  have hPieceApart := fun n => hCut.apart piece List.mem_cons_self n
  refine ⟨hHeld.pieces, ?_, ?_⟩
  · intro e hMem n
    rcases eq_or_ne n j with rfl | hEq
    · rw [update_self]
      exact (hHeld.apart e hMem i).inside (Extent.Inside.refl _) hPiece
    · rw [update_of_ne hEq]
      exact hCut.apart e (List.mem_cons_of_mem _ hMem) n
  · intro n n' hOther
    rcases eq_or_ne n j with rfl | hEq
    · rw [update_self, update_of_ne (Ne.symm hOther)]
      exact hPieceApart n'
    rw [update_of_ne hEq]
    rcases eq_or_ne n' j with rfl | hEq'
    · rw [update_self]
      exact (hPieceApart n).symm
    · rw [update_of_ne hEq']
      exact hCut.holders n n' hOther

theorem Held.drop (hHeld : Held out left) (i : ι) : Held out (update left i Extent.none) :=
  hHeld.shrink i (Extent.none_inside _)

end Held

end Horus.Lib
