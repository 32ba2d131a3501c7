import Mathlib.Algebra.Ring.Nat
import Mathlib.Data.Fin.Basic
import Mathlib.Logic.Function.Basic

/-
  A tree of hashes over numbered leaves, with `n` children to a
  node and some number of places at each height.

  A node is the table of its children's hashes, so what is in
  the leaves decides every node. A new content of one leaf
  changes one entry of each node above it.
-/

namespace Horus.Lib

open Function

/-
  Hashes of leaves and of nodes at their places, and of the
  node at the top. No two contents have one hash.
-/
structure TreeHash (n : Nat) (H B : Type) where
  leaf : Nat → B → H
  node : Nat → Nat → (Fin n → H) → H
  root : (Fin n → H) → H
  zero : H
  leaf_injective : ∀ i, Function.Injective (leaf i)
  node_injective : ∀ l k, Function.Injective (node l k)
  root_injective : Function.Injective root

variable {n : Nat} [NeZero n] {H B : Type}

/- The entry of its parent that a place has. -/
def slot (n : Nat) [NeZero n] (i : Nat) : Fin n := Fin.ofNat n i

namespace TreeHash

variable (h : TreeHash n H B) (width : Nat → Nat)

/-
  The node at a height and a place. `width` is how many places
  there are below each height.
-/
def nodeAt (leaves : Nat → B) : Nat → Nat → Fin n → H
  | 0, k, c => if k * n + c < width 0 then h.leaf (k * n + c) (leaves (k * n + c)) else h.zero
  | l + 1, k, c =>
    if k * n + c < width (l + 1) then h.node l (k * n + c) (nodeAt leaves l (k * n + c)) else h.zero

/- The hash at height `l` above leaf `i`, or of the leaf. -/
def childHash (leaves : Nat → B) (i : Nat) : Nat → H
  | 0 => h.leaf i (leaves i)
  | l + 1 => h.node l (i / n ^ (l + 1)) (h.nodeAt width leaves l (i / n ^ (l + 1)))

theorem place_eq_iff (i k : Nat) (c : Fin n) : k * n + c = i ↔ k = i / n ∧ c = slot n i := by
  have hPos : 0 < n := Nat.pos_of_ne_zero (NeZero.ne n)
  constructor
  · rintro rfl
    constructor
    · rw [Nat.add_comm, Nat.add_mul_div_right _ _ hPos, Nat.div_eq_of_lt c.isLt, Nat.zero_add]
    · simp [slot, Fin.ofNat, Nat.mod_eq_of_lt c.isLt]
  · rintro ⟨rfl, rfl⟩
    rw [Nat.mul_comm]
    exact Nat.div_add_mod i n

omit [NeZero n] in
theorem div_pow_succ (i l : Nat) : i / n ^ (l + 1) = i / n ^ l / n := by
  rw [Nat.pow_succ, Nat.div_div_eq_div_mul]

/- Nodes that are not above the leaf stay. -/
theorem nodeAt_set_of_ne (leaves : Nat → B) (i : Nat) (b : B) {l k : Nat}
    (hNe : k ≠ i / n ^ (l + 1)) : h.nodeAt width (update leaves i b) l k =
      h.nodeAt width leaves l k := by
  induction l generalizing k with
  | zero =>
    funext c
    have hOther : k * n + c ≠ i := by
      intro hEq
      have hPlace := ((place_eq_iff i k c).mp hEq).1
      rw [Nat.pow_one] at hNe
      exact hNe hPlace
    simp only [nodeAt, update_of_ne hOther]
  | succ l ih =>
  funext c
  have hOther : k * n + c ≠ i / n ^ (l + 1) := by
    intro hEq
    have hPlace := ((place_eq_iff (i / n ^ (l + 1)) k c).mp hEq).1
    rw [← div_pow_succ] at hPlace
    exact hNe hPlace
  simp only [nodeAt, ih hOther]

/- A node above the leaf changes in one entry. -/
theorem nodeAt_set_above (leaves : Nat → B) (i : Nat) (b : B) (l : Nat)
    (hWidth : i / n ^ l < width l) : h.nodeAt width (update leaves i b) l (i / n ^ (l + 1)) =
      update (h.nodeAt width leaves l (i / n ^ (l + 1))) (slot n (i / n ^ l))
        (h.childHash width (update leaves i b) i l) := by
  funext c
  by_cases hHere : c = slot n (i / n ^ l)
  · have hPlace : i / n ^ (l + 1) * n + c = i / n ^ l :=
      (place_eq_iff (i / n ^ l) _ c).mpr ⟨div_pow_succ i l, hHere⟩
    rw [hHere, update_self, ← hHere]
    cases l with simp only [nodeAt, hPlace]
    | zero =>
      rw [Nat.pow_zero, Nat.div_one] at hWidth ⊢
      rw [if_pos hWidth]
      rfl
    | succ =>
      rw [if_pos hWidth]
      rfl
  · rw [update_of_ne hHere]
    have hPlace : i / n ^ (l + 1) * n + c ≠ i / n ^ l := by
      intro hEq
      exact hHere ((place_eq_iff (i / n ^ l) _ c).mp hEq).2
    cases l with
    | zero =>
      rw [Nat.pow_zero, Nat.div_one] at hPlace
      simp only [nodeAt, update_of_ne hPlace]
    | succ =>
      simp only [nodeAt]
      rw [h.nodeAt_set_of_ne width leaves i b hPlace]

/- The entries of a node are the hashes of its children. -/
theorem nodeAt_leaf (leaves : Nat → B) {i : Nat} (hWidth : i < width 0) :
    h.nodeAt width leaves 0 (i / n) (slot n i) = h.leaf i (leaves i) := by
  have hPlace : i / n * n + slot n i = i := (place_eq_iff i _ _).mpr ⟨rfl, rfl⟩
  simp only [nodeAt, hPlace]
  exact if_pos hWidth

theorem nodeAt_node (leaves : Nat → B) {l k : Nat} (hWidth : k < width (l + 1)) :
    h.nodeAt width leaves (l + 1) (k / n) (slot n k) = h.node l k (h.nodeAt width leaves l k) := by
  have hPlace : k / n * n + slot n k = k := (place_eq_iff k _ _).mpr ⟨rfl, rfl⟩
  simp only [nodeAt, hPlace]
  exact if_pos hWidth

end TreeHash

end Horus.Lib
