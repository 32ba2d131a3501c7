import Mathlib.Data.List.Range

/-
  The entry of a table with the least stamp, as a loop finds
  it: the first of the least.
-/

namespace Horus.Lib

/- Compare with the best so far, in the order of the list. -/
def oldestOf (stamp : Nat → Nat) (best : Nat) (entries : List Nat) : Nat :=
  entries.foldl (fun best i => if stamp i < stamp best then i else best) best

/- The oldest of the first `n` entries. -/
def oldest (stamp : Nat → Nat) (n : Nat) : Nat := oldestOf stamp 0 (List.range n)

theorem oldestOf_le (stamp : Nat → Nat) (best : Nat) (entries : List Nat) :
    stamp (oldestOf stamp best entries) ≤ stamp best ∧ ∀ i ∈ entries,
        stamp (oldestOf stamp best entries) ≤ stamp i := by
  induction entries generalizing best with
  | nil => exact ⟨Nat.le_refl _, by simp⟩
  | cons j _ ih =>
  have hRest := ih (if stamp j < stamp best then j else best)
  have hStep : stamp (if stamp j < stamp best then j
      else best) ≤ stamp best ∧ stamp (if stamp j < stamp best then j else best) ≤ stamp j := by
    split <;> omega
  refine ⟨hRest.1.trans hStep.1, ?_⟩
  intro i hMem
  rcases List.mem_cons.mp hMem with rfl | hLater
  · exact hRest.1.trans hStep.2
  · exact hRest.2 i hLater

theorem oldest_le (stamp : Nat → Nat) {n i : Nat} (hBound : i < n) :
    stamp (oldest stamp n) ≤ stamp i :=
  (oldestOf_le stamp 0 (List.range n)).2 i (List.mem_range.mpr hBound)

theorem oldestOf_mem (stamp : Nat → Nat) (best : Nat) (entries : List Nat) :
    oldestOf stamp best entries = best ∨ oldestOf stamp best entries ∈ entries := by
  induction entries generalizing best with
  | nil => exact .inl rfl
  | cons j _ ih =>
  rcases ih (if stamp j < stamp best then j else best) with hBest | hLater
  · by_cases hLess : stamp j < stamp best
    · refine .inr (List.mem_cons.mpr (.inl ?_))
      simpa [oldestOf, hLess] using hBest
    · refine .inl ?_
      simpa [oldestOf, hLess] using hBest
  · exact .inr (List.mem_cons_of_mem _ hLater)

theorem oldest_lt (stamp : Nat → Nat) {n : Nat} (hSome : 0 < n) : oldest stamp n < n := by
  rcases oldestOf_mem stamp 0 (List.range n) with hZero | hMem
  · rw [oldest, hZero]
    exact hSome
  · exact List.mem_range.mp hMem

end Horus.Lib
