import Mathlib.Logic.Function.Basic

/-
  A queue of bounded length kept in a ring of cells.

  The ring has `n` cells. The queue starts at `head` and runs
  over `count` of them, wrapping around at the end.
-/

namespace Horus.Lib

open Function

structure Ring (α : Type) where
  cells : Nat → α
  head : Nat
  count : Nat

namespace Ring

section Ring

variable {α : Type} (n : Nat)

def empty (blank : α) : Ring α := { cells := fun _ => blank, head := 0, count := 0 }

/- The queue, the oldest entry first. -/
def toList (r : Ring α) : List α := (List.range r.count).map fun i => r.cells ((r.head + i) % n)

def front (r : Ring α) : α := r.cells r.head

def push (r : Ring α) (x : α) : Ring α :=
  { r with cells := update r.cells ((r.head + r.count) % n) x, count := r.count + 1 }

/- The front cell is overwritten with `blank`. -/
def pop (r : Ring α) (blank : α) : Ring α :=
  { cells := update r.cells r.head blank, head := (r.head + 1) % n, count := r.count - 1 }

/- The head is a cell and the queue is no longer than the ring. -/
structure Fits (r : Ring α) : Prop where
  head : r.head < n
  count : r.count ≤ n

variable {n} {r : Ring α}

theorem fits_empty (blank : α) (hPos : 0 < n) : (empty blank).Fits n := ⟨hPos, Nat.zero_le n⟩

theorem Fits.push (hFits : r.Fits n) (x : α) (hRoom : r.count < n) : (r.push n x).Fits n :=
  ⟨hFits.head, hRoom⟩

theorem Fits.pop (hFits : r.Fits n) (blank : α) : (r.pop n blank).Fits n where
  head := Nat.mod_lt _ (Nat.lt_of_le_of_lt (Nat.zero_le _) hFits.head)
  count := Nat.le_trans (Nat.sub_le _ _) hFits.count

/- Two cells less than a whole turn apart are different. -/
theorem cell_ne {i j : Nat} (hLt : i < j) (hNear : j - i < n) : i % n ≠ j % n := by
  intro hEq
  have hZero := Nat.sub_mod_eq_zero_of_mod_eq hEq.symm
  rw [Nat.mod_eq_of_lt hNear] at hZero
  omega

theorem toList_push (x : α) (hRoom : r.count < n) : (r.push n x).toList n = r.toList n ++ [x] := by
  unfold toList
  simp only [push, List.range_succ, List.map_append, List.map_cons, List.map_nil, update_self]
  congr 1
  apply List.map_congr_left
  intro i hi
  rw [List.mem_range] at hi
  apply update_of_ne
  exact cell_ne (by omega) (by omega)

theorem toList_pop (hFits : r.Fits n) (blank : α) (hSome : 0 < r.count) :
    r.toList n = r.front :: (r.pop n blank).toList n := by
  have hHead := hFits.head
  have hCount := hFits.count
  rcases Nat.exists_eq_succ_of_ne_zero (Nat.pos_iff_ne_zero.mp hSome) with ⟨m, hm⟩
  unfold toList
  simp only [pop, hm, Nat.succ_sub_one]
  rw [List.range_succ_eq_map, List.map_cons, Nat.add_zero, Nat.mod_eq_of_lt hHead, List.map_map]
  congr 1
  apply List.map_congr_left
  intro i hi
  rw [List.mem_range] at hi
  -- the cell that was overwritten is not in the rest
  have hNe : (r.head + (i + 1)) % n ≠ r.head := by
    have hNe := cell_ne (n := n) (i := r.head) (j := r.head + (i + 1)) (by omega) (by omega)
    rw [Nat.mod_eq_of_lt hHead] at hNe
    exact hNe.symm
  have hCell : ((r.head + 1) % n + i) % n = (r.head + (i + 1)) % n := by
    rw [Nat.mod_add_mod]
    congr 1
    omega
  simp only [Function.comp_apply, Nat.succ_eq_add_one, hCell]
  rw [update_of_ne hNe]

theorem toList_eq_nil (hNone : r.count = 0) : r.toList n = [] := by
  simp [toList, hNone]

/- The oldest `k` entries, and the queue without them. -/
theorem toList_drop {k : Nat} (hLe : k ≤ r.count) :
    r.toList n = (List.range k).map (fun i => r.cells ((r.head + i) % n)) ++
      toList n { r with head := (r.head + k) % n, count := r.count - k } := by
  unfold toList
  rw [← Nat.add_sub_cancel' hLe, List.range_add, List.map_append, List.map_map,
    Nat.add_sub_cancel_left]
  congr 1
  apply List.map_congr_left
  intro i _
  rw [Function.comp_apply, Nat.mod_add_mod, Nat.add_assoc]

theorem toList_pushAll {xs : List α} (hFits : r.Fits n) (hRoom : r.count + xs.length ≤ n) :
    (xs.foldl (push n) r).toList n = r.toList n ++ xs ∧ (xs.foldl (push n) r).Fits n := by
  induction xs generalizing r with
  | nil => simpa using hFits
  | cons x xs ih =>
    rw [List.length_cons] at hRoom
    have hRest := ih (hFits.push x (by omega)) (by simp only [push]; omega)
    rw [toList_push x (by omega), List.append_assoc] at hRest
    exact hRest

end Ring

end Ring

end Horus.Lib
