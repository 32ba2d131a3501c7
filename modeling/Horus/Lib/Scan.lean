import Mathlib.Data.Finset.Card
import Mathlib.Logic.Function.Basic

/-
  Loops that walk a list of cells of a memory and rewrite the
  cells that pass a test.

  The memory is a function, and the loop may visit a cell more
  than once, so the result is stated per cell: a visited cell
  that passes the test is rewritten, every other cell keeps
  its contents.
-/

namespace Horus

namespace Lib

variable {A V : Type}
variable [DecidableEq A]

/- Rewrite by `f` every listed cell whose contents pass `p`. -/
def updateWhere (p : V → Bool) (f : V → V) : List A → (A → V) → A → V
  | [], m => m
  | a :: rest, m =>
    if p (m a) then updateWhere p f rest (Function.update m a (f (m a))) else updateWhere p f rest m

@[simp] theorem updateWhere_nil (p : V → Bool) (f : V → V) (m : A → V) :
    updateWhere p f [] m = m := rfl

/-
  The loop decides every cell on its contents before the loop.
  A second visit must find nothing left to do, which `hAgain`
  says.
-/
theorem updateWhere_apply (p : V → Bool) (f : V → V)
    (hAgain : ∀ v, p v → p (f v) → f (f v) = f v) (cells : List A)
    (m : A → V) (a : A) : updateWhere p f cells m a =
      if a ∈ cells ∧ p (m a) then f (m a) else m a := by
  induction cells generalizing m with
  | nil => simp
  | cons b _ ih =>
  unfold updateWhere
  by_cases hHit : p (m b)
  · rw [if_pos hHit, ih]
    rcases eq_or_ne a b with rfl | hEq
    · by_cases hSecond : p (f (m a))
      · simp [hHit, hSecond, hAgain (m a) hHit hSecond]
      · simp [hHit, hSecond]
    · simp [hEq]
  · rw [if_neg hHit, ih]
    rcases eq_or_ne a b with rfl | hEq
    · simp [hHit]
    · simp [hEq]

/- Store one value in every listed cell. -/
def setAll (v : V) : List A → (A → V) → A → V
  | [], m => m
  | a :: rest, m => setAll v rest (Function.update m a v)

theorem setAll_apply (v : V) (cells : List A) (m : A → V) (a : A) :
    setAll v cells m a = if a ∈ cells then v else m a := by
  induction cells generalizing m with
  | nil => simp [setAll]
  | cons b _ ih =>
  rw [setAll, ih]
  rcases eq_or_ne a b with rfl | hEq
  · simp
  · simp [hEq]

end Lib

end Horus
