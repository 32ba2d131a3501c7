import Horus.Lib.Runs
import Mathlib.Algebra.Order.Ring.Int
import Mathlib.Order.Bounds.Basic
import Mathlib.Logic.Function.Iterate
import Mathlib.Tactic.Ring
import Mathlib.Tactic.Linarith

/-
  The time of a scheduling context (`scheduler.c`).

  Each period gives a context one budget, what it ran too long
  is to be paid from it first, and no more than one budget is
  kept. `sc_projected` jumps over the periods that have ended:
  in the period that pays off a debt it gives a whole budget,
  and what was left of the debt is forgiven.

  Times are microseconds. A remaining time is an integer, since
  no product of the jump is larger than the debt.

  Main declarations:
    * `SchedContext`, `scProjected`, `scRefresh`, `scCharge`
    * `Repaid`, `overrun_repaid_iff`
-/

namespace Horus.Scheduler

/- `struct sched_context`; `charged_cpu` is only audited. -/
structure SchedContext where
  live : Bool
  cpu : Nat
  sharePpm : Nat
  periodUs : Nat
  slack : Bool
  root : Bool
  parent : Nat
  remainingUs : Int
  periodStartUs : Nat
  consumedUs : Nat
deriving DecidableEq, Repr

def ppmWhole : Nat := 1000000

namespace SchedContext

variable (sc : SchedContext)

/- `sc_budget_us`. -/
def budgetUs : Nat := sc.sharePpm * sc.periodUs / ppmWhole

/- The periods that have ended. -/
def ended (now : Nat) : Nat :=
  if now < sc.periodStartUs ∨ sc.periodUs = 0 then 0 else (now - sc.periodStartUs) / sc.periodUs

end SchedContext

/- `sc_projected`: what is left, and `*periods`. -/
def scProjected (sc : SchedContext) (now : Nat) : Int × Nat :=
  let r := sc.remainingUs
  let n := sc.ended now
  if n = 0 then (r, 0)
  else
    let budget : Int := sc.budgetUs
    if budget ≤ 0 then (if 0 < r then 0 else r, n)
    else if r < 0 ∧ n ≤ -r / budget then (r + n * budget, n)
    else (budget, n)

def scRefresh (sc : SchedContext) (cpu now : Nat) : SchedContext :=
  if sc.cpu ≠ cpu then sc
  else
    let (r, n) := scProjected sc now
    if n = 0 then sc
    else { sc with remainingUs := r, periodStartUs := sc.periodStartUs + n * sc.periodUs }

/- A context and when its CPU last stamped it. -/
structure Stamped where
  sc : SchedContext
  stampUs : Nat
deriving DecidableEq, Repr

namespace Stamped

variable (s : Stamped) (cpu now : Nat)

/- The run crossed the end of the period it was stamped in. -/
def Crosses : Prop :=
  s.sc.periodUs ≠ 0 ∧ s.sc.cpu = cpu ∧ s.stampUs < s.sc.periodStartUs + s.sc.periodUs ∧
    s.sc.periodStartUs + s.sc.periodUs < now

instance : Decidable (s.Crosses cpu now) := inferInstanceAs (Decidable (_ ∧ _))

/- What the time before the end of the period leaves. -/
def untilEnd : SchedContext :=
  { s.sc with remainingUs := s.sc.remainingUs -
      (s.sc.periodStartUs + s.sc.periodUs - s.stampUs : Nat) }

/- `sc_charge`, with the stamp on this context. -/
def scCharge : Stamped :=
  if s.sc.live ∧ s.stampUs < now then
    let (sc, start) := if s.Crosses cpu now then
        (scRefresh s.untilEnd cpu now, s.sc.periodStartUs + s.sc.periodUs)
      else (s.sc, s.stampUs)
    { sc :=
        { sc with
          remainingUs := sc.remainingUs - (now - start : Nat)
          consumedUs := sc.consumedUs + (now - s.stampUs) }
      stampUs := now }
  else { s with stampUs := max s.stampUs now }

end Stamped

----
-- Debt
----

/- One period: a budget, and at most one is kept. -/
def refill (budget r : Int) : Int := min budget (r + budget)

theorem refill_iterate {budget : Int} (hBudget : 0 ≤ budget) (r : Int) (n : Nat) :
    (refill budget)^[n + 1] r = min budget (r + (n + 1 : Nat) * budget) := by
  induction n with
  | zero => simp [refill]
  | succ n ih =>
    rw [Function.iterate_succ_apply', ih, refill]
    push_cast
    rw [show r + (n + 1 + 1) * budget = r + (n + 1) * budget + budget by ring]
    omega

/-
  No period that has ended pays the rest of a debt and leaves
  part of its budget.
-/
def Repaid (sc : SchedContext) (now : Nat) : Prop :=
  ¬ (sc.remainingUs < 0 ∧ 0 < sc.remainingUs + sc.ended now * sc.budgetUs ∧
    sc.remainingUs + sc.ended now * sc.budgetUs < sc.budgetUs)

instance (sc : SchedContext) (now : Nat) : Decidable (Repaid sc now) :=
  inferInstanceAs (Decidable (¬ _))

/- The test of `sc_projected`, without the division. -/
theorem le_neg_div_iff {budget : Int} (hBudget : 0 < budget) (r : Int) (n : Nat) :
    (n : Int) ≤ -r / budget ↔ r + n * budget ≤ 0 := by
  rw [Int.le_ediv_iff_mul_le hBudget]
  omega

theorem scProjected_periods (sc : SchedContext) (now : Nat) :
    (scProjected sc now).2 = sc.ended now := by
  simp only [scProjected]
  split
  · rename_i hNone
    exact hNone.symm
  · split
    · rfl
    · split <;> rfl

theorem scProjected_eq_iterate_iff (sc : SchedContext) (now : Nat) :
    (scProjected sc now).1 = (refill sc.budgetUs)^[sc.ended now] sc.remainingUs ↔
      Repaid sc now := by
  have hNonneg : (0 : Int) ≤ sc.budgetUs := Int.natCast_nonneg _
  unfold Repaid
  simp only [scProjected]
  cases hEnded : sc.ended now with
  | zero =>
    simp only [if_true, Function.iterate_zero, id_eq, Nat.cast_zero, zero_mul, add_zero, true_iff]
    omega
  | succ n =>
  rw [if_neg (Nat.succ_ne_zero n), refill_iterate hNonneg]
  generalize (sc.budgetUs : Int) = b at hNonneg ⊢
  by_cases hZero : b ≤ 0
  · obtain rfl : b = 0 := by omega
    simp only [le_refl, if_true, mul_zero, add_zero]
    omega
  rw [if_neg hZero]
  simp only [le_neg_div_iff (Int.not_le.mp hZero)]
  have hMany : b ≤ (n + 1 : Nat) * b := by
    have hRest : 0 ≤ (n : Int) * b := by positivity
    push_cast
    linarith
  split <;> dsimp only <;> omega

/- A refill gives no more than one budget for each period. -/
theorem scProjected_le {sc : SchedContext} {now : Nat} (hRepaid : Repaid sc now)
    (hBanked : sc.remainingUs ≤ sc.budgetUs) :
    (scProjected sc now).1 ≤ sc.remainingUs + sc.ended now * sc.budgetUs ∧
      (scProjected sc now).1 ≤ sc.budgetUs := by
  have hNonneg : (0 : Int) ≤ sc.budgetUs := Int.natCast_nonneg _
  rw [(scProjected_eq_iterate_iff sc now).mpr hRepaid]
  cases sc.ended now with
  | zero => simpa using hBanked
  | succ n =>
    rw [refill_iterate hNonneg]
    omega

----
-- Runs
----

inductive BudgetOp where
  | charge (cpu now : Nat)
  | refresh (cpu now : Nat)
  | stamp (now : Nat)
deriving DecidableEq, Repr

def Stamped.apply (s : Stamped) : BudgetOp → Stamped
  | .charge cpu now => s.scCharge cpu now
  | .refresh cpu now => { s with sc := scRefresh s.sc cpu now }
  | .stamp now => { s with stampUs := now }

/- The refills of a step forgive nothing. -/
def Stamped.Repays (s : Stamped) : BudgetOp → Prop
  | .charge cpu now => s.Crosses cpu now → Repaid s.untilEnd now
  | .refresh _ now => Repaid s.sc now
  | .stamp _ => True

instance (s : Stamped) (op : BudgetOp) : Decidable (s.Repays op) := by
  cases op with
  | charge => exact inferInstanceAs (Decidable (_ → _))
  | refresh => exact inferInstanceAs (Decidable (Repaid _ _))
  | stamp => exact instDecidableTrue

/-
  After `k` periods, with time `used` that is yet to be added to
  what was charged: what was used has been given.
-/
structure Charged (sc sc' : SchedContext) (k used : Nat) : Prop where
  budget : sc'.budgetUs = sc.budgetUs
  period : sc'.periodUs = sc.periodUs
  started : sc'.periodStartUs = sc.periodStartUs + k * sc.periodUs
  banked : sc'.remainingUs ≤ sc'.budgetUs
  given : sc'.consumedUs + used + sc'.remainingUs ≤ sc.consumedUs + sc.remainingUs + k * sc.budgetUs

namespace Charged

variable {sc sc' : SchedContext} {k used : Nat} (hCharged : Charged sc sc' k used)

include hCharged

theorem refresh {now : Nat} (hRepaid : Repaid sc' now) (cpu : Nat) :
    ∃ k', Charged sc (scRefresh sc' cpu now) k' used := by
  have hLe := scProjected_le hRepaid hCharged.banked
  simp only [scRefresh]
  split
  · exact ⟨k, hCharged⟩
  split
  · exact ⟨k, hCharged⟩
  rw [scProjected_periods]
  have hGiven := hCharged.given
  have hBudget := hCharged.budget
  refine ⟨k + sc'.ended now, hBudget, hCharged.period, ?_, hLe.2, ?_⟩
  · rw [hCharged.started, hCharged.period]
    ring
  · rw [hBudget] at hLe
    push_cast
    linarith [hLe.1]

/- Time that is used is taken from what is left. -/
theorem spend (time : Nat) :
    Charged sc { sc' with remainingUs := sc'.remainingUs - time } k (used + time) where
  __ := hCharged
  banked := by
    have hBanked := hCharged.banked
    change sc'.remainingUs - time ≤ sc'.budgetUs
    omega
  given := by
    have hGiven := hCharged.given
    dsimp only
    omega

theorem record : Charged sc { sc' with consumedUs := sc'.consumedUs + used } k 0 where
  __ := hCharged
  given := by
    have hGiven := hCharged.given
    dsimp only
    omega

end Charged

variable {s s' : Stamped} {sc : SchedContext}

theorem Charged.apply {op : BudgetOp} (hRepays : s.Repays op) {k : Nat}
    (hCharged : Charged sc s.sc k 0) : ∃ k', Charged sc (s.apply op).sc k' 0 := by
  cases op with
  | stamp => exact ⟨k, hCharged⟩
  | refresh cpu => exact hCharged.refresh hRepays cpu
  | charge cpu now =>
    simp only [Stamped.apply, Stamped.scCharge]
    split
    · split
      · rename_i hCross
        rcases (hCharged.spend _).refresh (hRepays hCross) cpu with ⟨k', hNext⟩
        have hDone := (hNext.spend (now - (s.sc.periodStartUs + s.sc.periodUs))).record
        have hTime : 0 + (s.sc.periodStartUs + s.sc.periodUs - s.stampUs) +
            (now - (s.sc.periodStartUs + s.sc.periodUs)) = now - s.stampUs := by
          unfold Stamped.Crosses at hCross
          omega
        rw [hTime] at hDone
        exact ⟨k', hDone⟩
      · have hDone := (hCharged.spend (now - s.stampUs)).record
        rw [Nat.zero_add] at hDone
        exact ⟨k, hDone⟩
    · exact ⟨k, hCharged⟩

/-
  The jump over the periods that have ended is the refill of
  each in turn just where no debt is forgiven; and in a run
  without such a jump no more is charged than was given.
-/
theorem overrun_repaid_iff (s s' : Stamped) (now : Nat) :
    ((scProjected s.sc now).1 = (refill s.sc.budgetUs)^[s.sc.ended now] s.sc.remainingUs ↔
      Repaid s.sc now) ∧
    (s.sc.remainingUs ≤ s.sc.budgetUs → Lib.Run Stamped.apply Stamped.Repays s s' →
      ∃ k, s'.sc.periodStartUs = s.sc.periodStartUs + k * s.sc.periodUs ∧
        (s'.sc.consumedUs : Int) - s.sc.consumedUs ≤
          (k + 1) * s.sc.budgetUs + max 0 (-s'.sc.remainingUs)) := by
  refine ⟨scProjected_eq_iterate_iff s.sc now, fun hBanked hRun => ?_⟩
  have hStart : ∃ k, Charged s.sc s.sc k 0 := ⟨0, rfl, rfl, by simp, hBanked, by simp⟩
  rcases Lib.Run.invariant (fun s' => ∃ k, Charged s.sc s'.sc k 0)
    (fun _ _ ⟨_, hCharged⟩ hRepays => hCharged.apply hRepays) hRun hStart with ⟨k, hCharged⟩
  refine ⟨k, hCharged.started, ?_⟩
  have hGiven := hCharged.given
  rw [add_mul]
  omega

/- A budget of 10 in a period of 100, with a debt of 5. -/
def indebted : SchedContext :=
  { live := true
    cpu := 0
    sharePpm := 100000
    periodUs := 100
    slack := false
    root := false
    parent := 1
    remainingUs := -5
    periodStartUs := 0
    consumedUs := 15 }

def indebtedRun : Stamped :=
  Lib.runAll Stamped.apply ⟨indebted, 0⟩ [.refresh 0 250, .stamp 260, .charge 0 275]

theorem overrun_repaid_iff_indebted : (scProjected indebted 250).1 = (refill 10)^[2] (-5) ∧
      ∃ k, indebtedRun.sc.periodStartUs = 0 + k * 100 ∧ (indebtedRun.sc.consumedUs : Int) - 15 ≤
        (k + 1) * (10 : Nat) + max 0 (-indebtedRun.sc.remainingUs) :=
  have hBoth := overrun_repaid_iff ⟨indebted, 0⟩ indebtedRun 250
  ⟨hBoth.1.mpr (by decide +kernel),
    hBoth.2 (by decide +kernel) (Lib.run_runAll _ (by decide +kernel))⟩

/-
  After one period the debt of 5 is forgiven; and of two periods
  with a budget of 10 a run takes 30, with a debt of 5.
-/
theorem overrun_forgiven : (scProjected indebted 100).1 = 10 ∧ (refill 10)^[1] (-5 : Int) = 5 ∧
    (Lib.runAll Stamped.apply ⟨{ indebted with remainingUs := 10, consumedUs := 0 }, 0⟩
      [.charge 0 15, .refresh 0 100, .stamp 100, .charge 0 115]).sc =
      { indebted with periodStartUs := 100, consumedUs := 30 } := by
  decide +kernel

end Horus.Scheduler
