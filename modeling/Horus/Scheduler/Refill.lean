import Horus.Scheduler.Budget

/-
  When a CPU is to look for a refill (`scheduler.c`).

  `sc_refill_at` computes the end of the period that pays off a
  context's debt, and `sc_next_refill` takes the earliest of
  these over the tasks that wait for one on the CPU's own list.
  Both compute in 64 bits, so a refill behind the range of the
  clock is found at another time.

  Main declarations:
    * `scRefillAt`, `scRefillAt_isLeast`
    * `Queues`, `scNextRefill`
    * `scNextRefill_isLeast`
-/

namespace Horus.Scheduler

----
-- One Context
----

def scRefillAt (sc : SchedContext) : Nat :=
  if sc.budgetUs = 0 ∨ sc.periodUs = 0 then 0
  else
    let r := sc.remainingUs
    let n := if r < 0 then (-r / sc.budgetUs).toNat + 1 else 1
    (sc.periodStartUs + n * sc.periodUs % 2 ^ 64) % 2 ^ 64

/- The end of the period that pays off the debt. -/
def SchedContext.refill (sc : SchedContext) : Nat :=
  sc.periodStartUs + ((-sc.remainingUs / sc.budgetUs).toNat + 1) * sc.periodUs

theorem scProjected_pos_iff {sc : SchedContext} (hBudget : 0 < sc.budgetUs)
    (hSpent : sc.remainingUs ≤ 0) (now : Nat) : 0 < (scProjected sc now).1 ↔ sc.refill ≤ now := by
  have hPeriod : 0 < sc.periodUs := by
    by_contra hNone
    obtain hZero : sc.periodUs = 0 := by omega
    simp [SchedContext.budgetUs, hZero] at hBudget
  have hPaid : 0 ≤ -sc.remainingUs / sc.budgetUs := Int.ediv_nonneg (by omega) (by omega)
  have hEnded : sc.refill ≤ now ↔ -sc.remainingUs / sc.budgetUs + 1 ≤ sc.ended now := by
    unfold SchedContext.refill SchedContext.ended
    split
    · omega
    · rw [show -sc.remainingUs / sc.budgetUs + 1 =
        ((-sc.remainingUs / sc.budgetUs).toNat + 1 : Nat) by omega, Nat.cast_le,
        Nat.le_div_iff_mul_le hPeriod]
      omega
  rw [hEnded]
  simp only [scProjected]
  split
  · omega
  rw [if_neg (by omega)]
  split
  · rename_i hDebt
    have hNot := (le_neg_div_iff (Int.natCast_pos.mpr hBudget) _ _).mp hDebt.2
    omega
  · by_contra hFew
    obtain hZero : sc.remainingUs = 0 := by omega
    rw [hZero, neg_zero, Int.zero_ediv] at hFew
    omega

section

variable {sc : SchedContext} (hBudget : 0 < sc.budgetUs)

include hBudget

theorem remainingUs_le {now : Nat} (hSpent : (scProjected sc now).1 ≤ 0) : sc.remainingUs ≤ 0 := by
  simp only [scProjected] at hSpent
  grind

theorem scRefillAt_eq (hDebt : sc.remainingUs ≤ 0) (hClock : sc.refill < 2 ^ 64) :
    scRefillAt sc = sc.refill := by
  have hPeriod : sc.periodUs ≠ 0 := by
    intro hZero
    simp [SchedContext.budgetUs, hZero] at hBudget
  have hN : (if sc.remainingUs < 0 then (-sc.remainingUs / sc.budgetUs).toNat + 1 else 1) =
      (-sc.remainingUs / sc.budgetUs).toNat + 1 := by
    split
    · rfl
    · obtain hZero : sc.remainingUs = 0 := by omega
      simp [hZero]
  unfold scRefillAt
  rw [if_neg (by omega)]
  unfold SchedContext.refill at hClock ⊢
  dsimp only
  rw [hN]
  omega

theorem scRefillAt_isLeast {now : Nat} (hSpent : (scProjected sc now).1 ≤ 0)
    (hClock : sc.refill < 2 ^ 64) : IsLeast { u | 0 < (scProjected sc u).1 } (scRefillAt sc) := by
  have hDebt := remainingUs_le hBudget hSpent
  have hPos := scProjected_pos_iff hBudget hDebt
  rw [scRefillAt_eq hBudget hDebt hClock]
  exact ⟨(hPos _).mpr (Nat.le_refl _), fun u hU => (hPos u).mp hU⟩

end

----
-- The List of a CPU
----

def schedPrioMax : Nat := 255

structure SchedTask where
  runnable : Bool
  cr3 : Nat
  runnableCtx : Bool
  savedKsp : Nat
  pagerHold : Bool
  runningCpu : Option Nat
  pendingBlock : Bool
  priority : Nat
  scIndex : Nat
deriving DecidableEq, Repr

/-
  What `sc_next_refill` reads. `carvedLive` counts the live
  contexts of a CPU that are not its root.
-/
structure Queues where
  maxTasks : Nat
  task : Nat → SchedTask
  context : Nat → Option SchedContext
  carvedLive : Nat → Nat
  queue : Nat → List Nat
  queue_le : ∀ cpu, (queue cpu).length ≤ maxTasks
  priority_le : ∀ t, (task t).priority ≤ schedPrioMax
  carved : ∀ {i sc}, context i = some sc → sc.live → ¬ sc.root → 0 < carvedLive sc.cpu
  root_slack : ∀ {i sc}, context i = some sc → sc.root → sc.slack

def SchedTask.schedSelectable (t : SchedTask) : Bool :=
  t.runnable && t.cr3 != 0 && t.runnableCtx && t.savedKsp != 0 && !t.pagerHold &&
    t.runningCpu.isNone

/- `sc_eligible`. -/
inductive ScRun where
  | none
  | budget
  | slack
deriving DecidableEq, Repr

namespace Queues

variable (s : Queues) (cpu : Nat) (rank : Int) (now t : Nat)

def taskSc : Option SchedContext :=
  if t = 0 ∨ s.maxTasks ≤ t then none else (s.context (s.task t).scIndex).filter (·.live)

def scEligible : ScRun :=
  match s.taskSc t with
  | none => .none
  | some sc =>
    if sc.cpu = cpu ∧ 0 < (scProjected sc now).1 then .budget
    else if sc.slack then .slack
    else .none

/- The context whose refill task `t` waits for, above `rank`. -/
def waiting : Option SchedContext :=
  let task := s.task t
  if rank < task.priority ∧ (task.schedSelectable ∨
      (task.runningCpu = some cpu ∧ task.runnable ∧ ¬ task.pendingBlock)) then
    (s.taskSc t).filter fun sc => sc.cpu = cpu ∧ ¬ sc.root ∧ ¬ 0 < (scProjected sc now).1
  else none

/- `best`, once the refill at `refill` has been seen. -/
def earlier (best refill : Nat) : Nat :=
  if now < refill ∧ (best = 0 ∨ refill < best) then refill else best

def scNextRefill : Nat :=
  if s.carvedLive cpu = 0 ∨ schedPrioMax ≤ rank then 0
  else
    let waits := ((s.queue cpu).take s.maxTasks).filterMap (s.waiting cpu rank now)
    waits.foldl (fun best sc => earlier now best (scRefillAt sc)) 0

/- The contexts that refill, of the tasks that wait on the list. -/
def Waited : Set SchedContext :=
  { sc | 0 < sc.budgetUs ∧ ∃ t ∈ s.queue cpu, s.waiting cpu rank now t = some sc }

end Queues

/-
  The walk finds the least refill behind `now`; a `best` of zero
  stands for none.
-/
theorem foldl_earlier (now : Nat) (refills : List Nat) (best : Nat) :
    let found := refills.foldl (Queues.earlier now) best
    (found = best ∨ found ∈ refills ∧ now < found) ∧ (best ≠ 0 → found ≠ 0 ∧ found ≤ best) ∧
      ∀ r ∈ refills, now < r → found ≠ 0 ∧ found ≤ r := by
  induction refills generalizing best with
  | nil => simp
  | cons r refills ih =>
    have hNext := ih (Queues.earlier now best r)
    simp only [List.foldl_cons, List.mem_cons, forall_eq_or_imp] at hNext ⊢
    generalize refills.foldl _ _ = found at hNext ⊢
    rcases hNext with ⟨hFound, hBest, hRest⟩
    unfold Queues.earlier at hFound hBest
    refine ⟨?_, ?_, ?_, hRest⟩ <;> grind

namespace Queues

variable {s : Queues} {cpu : Nat} {rank : Int} {now t : Nat} {sc : SchedContext}

theorem waiting_eq_some : s.waiting cpu rank now t = some sc ↔
    (rank < (s.task t).priority ∧ ((s.task t).schedSelectable ∨ ((s.task t).runningCpu = some cpu ∧
      (s.task t).runnable ∧ ¬ (s.task t).pendingBlock))) ∧
    s.taskSc t = some sc ∧ sc.cpu = cpu ∧ ¬ sc.root ∧ (scProjected sc now).1 ≤ 0 := by
  simp only [waiting]
  split <;> simp_all [Option.filter_eq_some_iff]

theorem taskSc_eq_some (hTask : s.taskSc t = some sc) : ∃ i, s.context i = some sc ∧ sc.live := by
  unfold taskSc at hTask
  split at hTask
  · cases hTask
  · exact ⟨_, Option.filter_eq_some_iff.mp hTask⟩

theorem scNextRefill_eq (s : Queues) (cpu : Nat) (rank : Int) (now : Nat) :
    s.scNextRefill cpu rank now =
      (((s.queue cpu).filterMap (s.waiting cpu rank now)).map scRefillAt).foldl (earlier now) 0 := by
  rw [List.foldl_map, scNextRefill, List.take_of_length_le (s.queue_le cpu)]
  split
  · rename_i hNone
    have hWait : ∀ t ∈ s.queue cpu, s.waiting cpu rank now t = none := by
      intro t _
      rw [Option.eq_none_iff_forall_ne_some]
      intro sc hSome
      rcases waiting_eq_some.mp hSome with ⟨hOver, hTask, rfl, hRoot, -⟩
      rcases taskSc_eq_some hTask with ⟨i, hContext, hLive⟩
      have hCarved := s.carved hContext hLive hRoot
      have hPriority := s.priority_le t
      omega
    rw [List.filterMap_eq_nil_iff.mpr hWait, List.foldl_nil]
  · rfl

section

variable (hClock : ∀ t sc, s.taskSc t = some sc → 0 < sc.budgetUs → sc.refill < 2 ^ 64)

include hClock

/- Of the contexts that are waited for, just those refill. -/
theorem waiting_refill (hWait : s.waiting cpu rank now t = some sc) :
    now < scRefillAt sc ↔ 0 < sc.budgetUs := by
  rcases waiting_eq_some.mp hWait with ⟨-, hTask, -, -, hSpent⟩
  constructor
  · intro hAt
    by_contra hZero
    rw [scRefillAt, if_pos (by omega)] at hAt
    omega
  · intro hBudget
    have hLeast := scRefillAt_isLeast hBudget hSpent (hClock t sc hTask hBudget)
    have hDebt := remainingUs_le hBudget hSpent
    have hHas := (scProjected_pos_iff hBudget hDebt _).mp hLeast.1
    have hNot := mt (scProjected_pos_iff hBudget hDebt now).mpr (Int.not_lt.mpr hSpent)
    omega

theorem scNextRefill_spec (rank : Int) :
    (s.scNextRefill cpu rank now = 0 ∨
      ∃ sc ∈ s.Waited cpu rank now, scRefillAt sc = s.scNextRefill cpu rank now) ∧
    ∀ sc ∈ s.Waited cpu rank now,
      s.scNextRefill cpu rank now ≠ 0 ∧ s.scNextRefill cpu rank now ≤ scRefillAt sc := by
  rw [scNextRefill_eq]
  have hWalk := foldl_earlier now
    (((s.queue cpu).filterMap (s.waiting cpu rank now)).map scRefillAt) 0
  simp only [List.mem_map, List.mem_filterMap] at hWalk
  rcases hWalk with ⟨hFound, -, hLeast⟩
  constructor
  · rcases hFound with hNone | ⟨⟨sc, ⟨t, hIn, hWait⟩, hAt⟩, hLater⟩
    · exact .inl hNone
    · rw [← hAt] at hLater
      exact .inr ⟨sc, ⟨(waiting_refill hClock hWait).mp hLater, t, hIn, hWait⟩, hAt⟩
  · rintro sc ⟨hBudget, t, hIn, hWait⟩
    exact hLeast _ ⟨sc, ⟨t, hIn, hWait⟩, rfl⟩ ((waiting_refill hClock hWait).mpr hBudget)

end

end Queues

/- Without a budget nothing is given later. -/
theorem budgetUs_pos {sc : SchedContext} {now u : Nat} (hLater : now ≤ u)
    (hSpent : (scProjected sc now).1 ≤ 0) (hHas : 0 < (scProjected sc u).1) : 0 < sc.budgetUs := by
  have hEnded : sc.ended now ≤ sc.ended u := by
    unfold SchedContext.ended
    split
    · exact Nat.zero_le _
    · rw [if_neg (by omega)]
      exact Nat.div_le_div_right (by omega)
  simp only [scProjected] at hSpent hHas
  grind

/- A task that may run later and not now waits for a refill. -/
theorem Queues.waited_of_eligible {s : Queues} {cpu now u t : Nat} (hIn : t ∈ s.queue cpu)
    (hSelect : (s.task t).schedSelectable) (hLater : now ≤ u)
    (hNone : s.scEligible cpu now t = .none) (hSome : s.scEligible cpu u t ≠ .none) :
    ∃ sc ∈ s.Waited cpu (-1) now, s.taskSc t = some sc ∧ (scProjected sc now).1 ≤ 0 ∧
      0 < (scProjected sc u).1 := by
  unfold scEligible at hNone hSome
  cases hTask : s.taskSc t with
  | none => simp [hTask] at hSome
  | some sc =>
    have hSlack : ¬ sc.slack := by grind
    have hHas : sc.cpu = cpu ∧ 0 < (scProjected sc u).1 := by grind
    have hSpent : (scProjected sc now).1 ≤ 0 := by grind
    have hRoot : ¬ sc.root := by
      rcases taskSc_eq_some hTask with ⟨i, hContext, -⟩
      exact mt (s.root_slack hContext) hSlack
    have hWait : s.waiting cpu (-1) now t = some sc :=
      waiting_eq_some.mpr ⟨⟨by omega, .inl hSelect⟩, hTask, hHas.1, hRoot, hSpent⟩
    exact ⟨sc, ⟨budgetUs_pos hLater hSpent hHas.2, t, hIn, hWait⟩, rfl, hSpent, hHas.2⟩

/-
  With refills in the range of the clock: a context's refill is
  found at the first time it has budget, `sc_next_refill` is the
  earliest of those that are waited for, and it is no later than
  the first time at which a selectable task may run again.
-/
theorem scNextRefill_isLeast (s : Queues) (cpu : Nat) (rank : Int) (now : Nat)
    (hClock : ∀ t sc, s.taskSc t = some sc → 0 < sc.budgetUs → sc.refill < 2 ^ 64) :
    (∀ sc, 0 < sc.budgetUs → (scProjected sc now).1 ≤ 0 → sc.refill < 2 ^ 64 →
      IsLeast { u | 0 < (scProjected sc u).1 } (scRefillAt sc)) ∧
    (s.scNextRefill cpu rank now = 0 ↔ s.Waited cpu rank now = ∅) ∧
    ((s.Waited cpu rank now).Nonempty →
      IsLeast (scRefillAt '' s.Waited cpu rank now) (s.scNextRefill cpu rank now)) ∧
    ∀ t ∈ s.queue cpu, (s.task t).schedSelectable → s.scEligible cpu now t = .none →
      ∀ u, now ≤ u → s.scEligible cpu u t ≠ .none →
        0 < s.scNextRefill cpu (-1) now ∧ s.scNextRefill cpu (-1) now ≤ u := by
  rcases Queues.scNextRefill_spec hClock rank with ⟨hFound, hLeast⟩
  refine ⟨fun sc hBudget => scRefillAt_isLeast hBudget, ?_, ?_, ?_⟩
  · rw [Set.eq_empty_iff_forall_notMem]
    constructor
    · exact fun hZero sc hIn => (hLeast sc hIn).1 hZero
    · intro hNone
      exact hFound.resolve_right fun ⟨sc, hIn, _⟩ => hNone sc hIn
  · rintro ⟨sc, hIn⟩
    refine ⟨hFound.resolve_left (hLeast sc hIn).1, ?_⟩
    rintro _ ⟨sc', hIn', rfl⟩
    exact (hLeast sc' hIn').2
  · intro t hIn hSelect hNone u hLater hSome
    rcases Queues.waited_of_eligible hIn hSelect hLater hNone hSome with
      ⟨sc, hWaited, hTask, hSpent, hHas⟩
    rcases (Queues.scNextRefill_spec hClock (-1)).2 sc hWaited with ⟨hNe, hLe⟩
    have hRefill := scRefillAt_isLeast hWaited.1 hSpent (hClock t sc hTask hWaited.1)
    exact ⟨Nat.pos_of_ne_zero hNe, hLe.trans (hRefill.2 hHas)⟩

/- Task 1, selectable on CPU 0, in debt. -/
def indebtedQueue : Queues :=
  { maxTasks := 2
    task := fun _ => ⟨true, 4096, true, 8192, false, none, false, 1, 9⟩
    context := fun _ => some indebted
    carvedLive := fun _ => 1
    queue := fun _ => [1]
    queue_le := fun _ => by decide
    priority_le := fun _ => by decide
    carved := by simp
    root_slack := by
      rintro _ _ ⟨⟩
      decide }

theorem scNextRefill_isLeast_indebted :
    0 < indebtedQueue.scNextRefill 0 (-1) 50 ∧ indebtedQueue.scNextRefill 0 (-1) 50 ≤ 100 :=
  (scNextRefill_isLeast indebtedQueue 0 (-1) 50 (by
    intro t sc hTask _
    rcases Queues.taskSc_eq_some hTask with ⟨i, ⟨⟩, -⟩
    decide)).2.2.2 1 (by decide) (by decide) (by decide) 100 (by decide) (by decide)

/- The refill of a period that ends behind the clock's range. -/
theorem scRefillAt_wraps :
    let sc := { indebted with remainingUs := 0, periodStartUs := 2 ^ 64 - 1 }
    0 < sc.budgetUs ∧ (scProjected sc (2 ^ 64 - 1)).1 ≤ 0 ∧ scRefillAt sc = 99 ∧
      (scProjected sc 99).1 ≤ 0 := by
  decide +kernel

end Horus.Scheduler
