import Horus.Scheduler.Budget
import Mathlib.Logic.Function.Basic

/-
  Splitting a scheduling context (`sched_split`, `sched.rs`).

  A split moves share to the child and takes the child's part of
  this period's time from the parent as well. When the child can
  not be named it is destroyed: that gives the share back, and
  not the time.

  What the capability and object layers answer is an input: the
  object that the parent's capability names, the index of the
  child's object, and whether the capability is installed.

  Main declarations:
    * `rustScSplit`, `rustScReclaim`
    * `schedCarve`, `schedContextDestroyed`, `schedSplit`
    * `refused_split_restores_iff`
-/

namespace Horus.Scheduler

open Function

/- `child_share`: rounded up. -/
def childShare (budget period : Nat) : Option Nat :=
  if ¬ (10000 ≤ period ∧ period ≤ 10000000) then none
  else if budget = 0 ∨ period < budget then none
  else some ((budget * ppmWhole + period - 1) / period)

inductive SplitError where
  | perm
  | inval
  | nomem
deriving DecidableEq, Repr

/- `split_with_share`: the shares of parent and child. -/
def splitWithShare (parent budget period share : Nat) : Except SplitError (Nat × Nat) :=
  if ppmWhole < parent ∨ ¬ (10000 ≤ period ∧ period ≤ 10000000) then .error .inval
  else if budget = 0 ∨ period < budget ∨ share = 0 ∨ ppmWhole < share then .error .inval
  else if share * period < budget * ppmWhole then .error .inval
  else if parent < share then .error .nomem
  else .ok (parent - share, share)

def rustScSplit (parent budget period : Nat) : Except SplitError (Nat × Nat) :=
  match childShare budget period with
  | none => .error .inval
  | some share => splitWithShare parent budget period share

def rustScReclaim (parent child : Nat) : Nat :=
  if parent + child ≤ ppmWhole then parent + child else ppmWhole

structure Contexts where
  context : Nat → Option SchedContext
  bound : Nat → Nat
  stamped : Nat → Nat
  carvedLive : Nat → Nat

/- A call, with what the layers below it answer. -/
structure SplitCall where
  parent : Option Nat
  untyped : Bool
  child : Option Nat
  installs : Bool
  budgetUs : Nat
  periodUs : Nat
  flags : Nat
  now : Nat
deriving DecidableEq, Repr

variable (s : Contexts) (c : SplitCall) (p : SchedContext) (scIndexMax : Nat)

/- The parent after a split that leaves it `share`. -/
def SchedContext.shrunk (share : Nat) : SchedContext :=
  { p with
    sharePpm := share
    remainingUs := p.remainingUs -
      (p.budgetUs - ({ p with sharePpm := share } : SchedContext).budgetUs) }

/- The child before its time is set. -/
def SplitCall.child₀ (parentIdx share : Nat) : SchedContext :=
  { live := true
    cpu := p.cpu
    sharePpm := share
    periodUs := c.periodUs
    slack := c.flags = 1
    root := false
    parent := parentIdx
    remainingUs := 0
    periodStartUs := c.now
    consumedUs := 0 }

/- The contexts once the shares have been moved. -/
def carved (parentIdx childIdx np nc : Nat) : Contexts :=
  let child := c.child₀ p parentIdx nc
  { s with
    context := update (update s.context parentIdx (some (p.shrunk np))) childIdx
      (some { child with remainingUs := child.budgetUs })
    carvedLive := update s.carvedLive p.cpu (s.carvedLive p.cpu + 1) }

/- `sched_carve`; a flag other than that for slack is refused. -/
def schedCarve (parentIdx childIdx : Nat) : Contexts × Option SplitError :=
  if 1 < c.flags then (s, some .inval)
  else
    match s.context parentIdx with
    | none => (s, some .inval)
    | some p =>
      if p.live = false then (s, some .inval)
      else if c.flags = 1 ∧ p.slack = false then (s, some .perm)
      else
        match rustScSplit p.sharePpm c.budgetUs c.periodUs with
        | .error e => (s, some e)
        | .ok (np, nc) => (carved s c p parentIdx childIdx np nc, none)

/- The nearest living ancestor. -/
def nearestLive (context : Nat → Option SchedContext) : Nat → Nat → Option Nat
  | 0, _ => none
  | n + 1, idx =>
    if idx = 0 then none
    else
      match context idx with
      | none => none
      | some a => if a.live then some idx else nearestLive context n a.parent

/- What the heir of `idx` and its children become; a root has no parent. -/
def inherit (context : Nat → Option SchedContext) (idx heir share : Nat) :
    Nat → Option SchedContext := fun k =>
  ((if k = heir then (context k).map fun a =>
      { a with sharePpm := rustScReclaim a.sharePpm share }
    else context k).map fun a => if a.live ∧ a.parent = idx then { a with parent := heir } else a)

def schedContextDestroyed (idx : Nat) (sc : SchedContext) : Contexts :=
  if sc.live = false ∨ sc.root then s
  else
    let context := update s.context idx (some { sc with live := false })
    let forget := fun i => if i = idx then 0 else i
    { context := (nearestLive context scIndexMax sc.parent).elim context
        (inherit context idx · sc.sharePpm)
      bound := fun t => forget (s.bound t)
      stamped := fun cpu => forget (s.stamped cpu)
      carvedLive := update s.carvedLive sc.cpu (s.carvedLive sc.cpu - 1) }

def destroyDynSc (idx : Nat) : Contexts :=
  match s.context idx with
  | none => s
  | some sc =>
    let s := schedContextDestroyed s scIndexMax idx sc
    { s with context := update s.context idx none }

/- The object that `kobj_alloc` gives, all zero. -/
def blankContext : SchedContext :=
  { live := false
    cpu := 0
    sharePpm := 0
    periodUs := 0
    slack := false
    root := false
    parent := 0
    remainingUs := 0
    periodStartUs := 0
    consumedUs := 0 }

/- `sched_split` from the object on. -/
def splitInto (parentIdx childIdx : Nat) : Contexts × Option SplitError :=
  let (s, rc) := schedCarve { s with context := update s.context childIdx (some blankContext) } c
    parentIdx childIdx
  match rc, c.installs with
  | none, true => (s, none)
  | none, false => (destroyDynSc s scIndexMax childIdx, some .perm)
  | some e, _ => (destroyDynSc s scIndexMax childIdx, some e)

def schedSplit : Contexts × Option SplitError :=
  match c.parent, c.child with
  | none, _ => (s, some .perm)
  | some parentIdx, child =>
    if parentIdx = 0 ∨ scIndexMax ≤ parentIdx then (s, some .inval)
    else if c.untyped = false then (s, some .perm)
    else
      match child with
      | none => (s, some .nomem)
      | some childIdx => splitInto s c scIndexMax parentIdx childIdx

----
-- A Refused Split
----

/- The time that the split takes from the parent. -/
def SplitCall.taken : Nat :=
  match rustScSplit p.sharePpm c.budgetUs c.periodUs with
  | .error _ => 0
  | .ok (np, _) => p.budgetUs - ({ p with sharePpm := np } : SchedContext).budgetUs

/- None is taken, or a refill that is due hides it. -/
def SplitCall.Hidden : Prop :=
  c.taken p = 0 ∨ (1 ≤ p.ended c.now ∧ c.taken p - p.remainingUs < p.ended c.now * p.budgetUs)

variable {p}

/- Less time shows unless a refill hides it. -/
theorem scProjected_lower_iff {taken : Nat} (hTaken : taken ≤ p.budgetUs) (now : Nat) :
    (scProjected { p with remainingUs := p.remainingUs - taken } now).1 = (scProjected p now).1 ↔
      taken = 0 ∨ (1 ≤ p.ended now ∧ taken - p.remainingUs < p.ended now * p.budgetUs) := by
  have hSame : ∀ r, SchedContext.ended { p with remainingUs := r } now = p.ended now ∧
      SchedContext.budgetUs { p with remainingUs := r } = p.budgetUs := fun _ => ⟨rfl, rfl⟩
  simp only [scProjected, hSame]
  cases hEnded : p.ended now with
  | zero =>
    simp only [if_true]
    omega
  | succ n =>
  rw [if_neg (Nat.succ_ne_zero n), if_neg (Nat.succ_ne_zero n)]
  by_cases hZero : (p.budgetUs : Int) ≤ 0
  · obtain rfl : taken = 0 := by omega
    simp
  rw [if_neg hZero, if_neg hZero]
  simp only [le_neg_div_iff (Int.not_le.mp hZero)]
  have hGiven : 0 < ((n + 1 : Nat) : Int) * p.budgetUs :=
    Int.mul_pos (by omega) (Int.not_le.mp hZero)
  generalize ((n + 1 : Nat) : Int) * p.budgetUs = given at hGiven ⊢
  split <;> split <;> dsimp only <;> omega

theorem rustScSplit_ok {np nc : Nat} {budget period : Nat}
    (hSplit : rustScSplit p.sharePpm budget period = .ok (np, nc)) :
    np + nc = p.sharePpm ∧ p.sharePpm ≤ ppmWhole := by
  unfold rustScSplit at hSplit
  split at hSplit
  · cases hSplit
  unfold splitWithShare at hSplit
  iterate 4
    split at hSplit
    · cases hSplit
  cases hSplit
  omega

variable {s c scIndexMax} {parentIdx childIdx : Nat}

/-
  A call is refused before the shares are moved, or the
  installation decides.
-/
theorem schedSplit_cases (hParent : c.parent = some parentIdx)
    (hAt : s.context parentIdx = some p) (hFree : ∀ i, c.child = some i → s.context i = none) :
    (∃ s' e, s'.context parentIdx = some p ∧
      ∀ b, schedSplit s { c with installs := b } scIndexMax = (s', some e)) ∨
    ∃ s₀ childIdx np nc, parentIdx ≠ childIdx ∧ p.live = true ∧
      (parentIdx ≠ 0 ∧ parentIdx < scIndexMax) ∧
      rustScSplit p.sharePpm c.budgetUs c.periodUs = .ok (np, nc) ∧
      ∀ b, schedSplit s { c with installs := b } scIndexMax =
        if b then (carved s₀ c p parentIdx childIdx np nc, none)
        else (destroyDynSc (carved s₀ c p parentIdx childIdx np nc) scIndexMax childIdx,
          some .perm) := by
  unfold schedSplit
  simp only [hParent]
  split
  · exact .inl ⟨s, _, hAt, fun _ => rfl⟩
  split
  · exact .inl ⟨s, _, hAt, fun _ => rfl⟩
  cases hChild : c.child with
  | none => exact .inl ⟨s, _, hAt, fun _ => rfl⟩
  | some childIdx =>
  have hApart : parentIdx ≠ childIdx := by
    rintro rfl
    rw [hFree _ hChild] at hAt
    cases hAt
  have hAt' : update s.context childIdx (some blankContext) parentIdx = some p := by
    rw [update_of_ne hApart, hAt]
  have hUndone : (destroyDynSc { s with context := update s.context childIdx (some blankContext) }
      scIndexMax childIdx).context parentIdx = some p := by
    simp [destroyDynSc, schedContextDestroyed, blankContext, hApart, hAt]
  simp only [splitInto, schedCarve, hAt']
  iterate 4
    split
    · exact .inl ⟨_, _, hUndone, fun _ => rfl⟩
  · rename_i hLive _ _ np nc hSplit
    refine .inr ⟨{ s with context := update s.context childIdx (some blankContext) },
      childIdx, np, nc, hApart, by simpa using hLive, by omega, hSplit, ?_⟩
    rintro (_ | _) <;> rfl

/- A child that is destroyed leaves the parent its share. -/
theorem destroyDynSc_carved (hApart : parentIdx ≠ childIdx) (hLive : p.live = true)
    (hIndex : parentIdx ≠ 0 ∧ parentIdx < scIndexMax) {np nc : Nat}
    (hSplit : rustScSplit p.sharePpm c.budgetUs c.periodUs = .ok (np, nc)) :
    ∃ parent, (destroyDynSc (carved s c p parentIdx childIdx np nc) scIndexMax childIdx).context
        parentIdx = some { p with remainingUs := p.remainingUs - c.taken p, parent := parent } := by
  have hShares := rustScSplit_ok hSplit
  have hNp : np ≤ p.sharePpm := by omega
  have hLess : ({ p with sharePpm := np } : SchedContext).budgetUs ≤ p.budgetUs :=
    Nat.div_le_div_right (Nat.mul_le_mul_right _ hNp)
  have hBack : rustScReclaim (p.shrunk np).sharePpm nc = p.sharePpm :=
    (if_pos (hShares.1.trans_le hShares.2)).trans hShares.1
  have hTime : (p.shrunk np).remainingUs = p.remainingUs - c.taken p := by
    rw [SplitCall.taken, hSplit]
    dsimp only [SchedContext.shrunk]
    rw [Nat.cast_sub hLess]
  obtain ⟨child, hChild, hParent, hShare, hBorn⟩ : ∃ child,
      (carved s c p parentIdx childIdx np nc).context childIdx = some child ∧
        child.parent = parentIdx ∧ child.sharePpm = nc ∧ child.live = true ∧ child.root = false :=
    ⟨_, update_self _ _ _, rfl, rfl, rfl, rfl⟩
  have hOld : ∀ x, update (carved s c p parentIdx childIdx np nc).context childIdx x parentIdx =
      some (p.shrunk np) := by
    intro x
    simp [carved, hApart]
  have hHeir : ∀ x, nearestLive (update (carved s c p parentIdx childIdx np nc).context
      childIdx x) scIndexMax parentIdx = some parentIdx := by
    intro x
    cases scIndexMax with
    | zero => omega
    | succ n =>
      rw [nearestLive, if_neg hIndex.1, hOld]
      exact if_pos hLive
  unfold destroyDynSc schedContextDestroyed inherit
  rw [hChild]
  dsimp only
  rw [if_neg (by simp [hBorn]), update_of_ne hApart, hParent, hHeir, Option.elim_some]
  dsimp only
  rw [if_pos rfl, hOld, hShare, Option.map_some, Option.map_some, hBack, ← hTime]
  split <;> exact ⟨_, rfl⟩

/-
  For a parent that the capability names. The share is given
  back; the time is as it was, at the instant of the call, just
  where the call was refused before, or none was taken, or a
  refill that is due hides it.
-/
theorem refused_split_restores_iff (hParent : c.parent = some parentIdx)
    (hAt : s.context parentIdx = some p) (hFree : ∀ i, c.child = some i → s.context i = none)
    (hRefused : (schedSplit s c scIndexMax).2 ≠ none) :
    ∃ p', (schedSplit s c scIndexMax).1.context parentIdx = some p' ∧
      p'.sharePpm = p.sharePpm ∧ ((scProjected p' c.now).1 = (scProjected p c.now).1 ↔
        ((schedSplit s { c with installs := true } scIndexMax).2 = none → c.Hidden p)) := by
  rcases schedSplit_cases hParent hAt hFree with
    ⟨s', e, hSame, hEarly⟩ | ⟨s₀, childIdx, np, nc, hApart, hLive, hIndex, hSplit, hLate⟩
  · have hCall := hEarly c.installs
    rw [hCall, hEarly]
    exact ⟨p, hSame, rfl, iff_of_true rfl nofun⟩
  · have hCall := hLate c.installs
    rw [hCall] at hRefused ⊢
    rw [hLate, if_pos rfl]
    cases hInstalls : c.installs with
    | true => simp [hInstalls] at hRefused
    | false =>
    rcases destroyDynSc_carved hApart hLive hIndex hSplit with ⟨parent, hDone⟩
    have hTaken : c.taken p ≤ p.budgetUs := by
      rw [SplitCall.taken, hSplit]
      exact Nat.sub_le _ _
    refine ⟨_, hDone, rfl, (scProjected_lower_iff hTaken c.now).trans ?_⟩
    exact ⟨fun hHidden _ => hHidden, (· rfl)⟩

/- A root with a whole CPU. -/
def rootContext : SchedContext :=
  { blankContext with
    live := true
    sharePpm := ppmWhole
    periodUs := 100000
    slack := true
    root := true
    remainingUs := 100000 }

def rootOnly : Contexts :=
  { context := fun i => if i = 1 then some rootContext else none
    bound := fun _ => 1
    stamped := fun _ => 0
    carvedLive := fun _ => 0 }

/- A call for a part of each period, which finds its slot changed. -/
def unnamed (budget : Nat) : SplitCall :=
  { parent := some 1
    untyped := true
    child := some 9
    installs := false
    budgetUs := budget
    periodUs := 100000
    flags := 0
    now := 0 }

theorem refused_split_restores_iff_unnamed :
    (schedSplit rootOnly (unnamed 100001) 40).2 = some .inval ∧
      ∃ p', (schedSplit rootOnly (unnamed 100001) 40).1.context 1 = some p' ∧
        p'.sharePpm = ppmWhole ∧ ((scProjected p' 0).1 = 100000 ↔
          ((schedSplit rootOnly { unnamed 100001 with installs := true } 40).2 = none →
            (unnamed 100001).Hidden rootContext)) :=
  ⟨by decide +kernel, refused_split_restores_iff (s := rootOnly) (c := unnamed 100001) rfl rfl
    (fun i hI => Option.some.inj hI ▸ rfl) (by decide +kernel)⟩

/- Six refused splits of a fifth leave a debt of a fifth. -/
theorem refused_splits_make_debt :
    let s := (fun s => (schedSplit s (unnamed 20000) 40).1)^[6] rootOnly
    (schedSplit rootOnly (unnamed 20000) 40).2 = some .perm ∧
      s.context 1 = some { rootContext with remainingUs := -20000 } := by
  decide +kernel

end Horus.Scheduler
