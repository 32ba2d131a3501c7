import Horus.Lib.Runs

/-
  The generation of a volume and the counter of the machine
  (`storage_unlock` and the TPM).

  An unlock takes a volume whose generation is that of the
  counter or one more. It first writes the next generation and
  then raises the counter to it, and does not look whether that
  succeeded.

  Main declarations:
    * `Anchor`, `AnchorOp.apply`, `AnchorOp.Enabled`
    * `anchor_keeps_fresh`
-/

namespace Horus.Storage

open Horus.Lib

/- The step of an unlock that comes next. -/
inductive UnlockPhase where
  | off
  | advance
  | raise
  deriving DecidableEq

/-
  `disk` is the generation of the volume in the machine, and
  `copies` are those of all its copies. The last fields record
  the past: the generation that this unlock found, the one that
  the machine wrote last, and for each unlock that returned 0
  the generation it found and the one it left.
-/
structure Anchor where
  counter : Nat
  disk : Nat
  copies : List Nat
  phase : UnlockPhase
  found : Nat
  written : Nat
  granted : List (Nat × Nat)
  deriving DecidableEq

/- A volume is formatted with the generation of the counter. -/
def anchored (gen : Nat) : Anchor :=
  { counter := gen
    disk := gen
    copies := [gen]
    phase := .off
    found := gen
    written := gen
    granted := [] }

/- The check of the generation. -/
def Accepts (counter gen : Nat) : Prop := gen = counter ∨ gen = counter + 1

/-
  The steps: the disk is replaced by a copy of itself; an unlock
  checks the volume; it commits the next generation, which may
  fail or be cut short and reach the disk or not; it raises the
  counter and returns 0; the power fails.
-/
inductive AnchorOp where
  | restore (gen : Nat)
  | check
  | commit (ok durable : Bool)
  | increment (advanced : Bool)
  | crash

namespace AnchorOp

def apply (s : Anchor) : AnchorOp → Anchor
  | restore gen => { s with disk := gen }
  | check =>
    if s.disk = s.counter then { s with phase := .advance, found := s.disk }
    else if s.disk = s.counter + 1 then { s with phase := .raise, found := s.disk }
    else s
  | commit ok durable =>
    let phase : UnlockPhase := if ok then .raise else .off
    if durable then
      { s with
        disk := s.counter + 1
        copies := (s.counter + 1) :: s.copies
        phase := phase
        written := s.counter + 1 }
    else { s with phase := phase }
  | increment advanced =>
    { s with
      counter := if advanced then s.counter + 1 else s.counter
      phase := .off
      written := s.disk
      granted := (s.found, s.disk) :: s.granted }
  | crash => { s with phase := .off }

def Enabled (s : Anchor) : AnchorOp → Prop
  | restore gen => s.phase = .off ∧ gen ∈ s.copies
  | check => s.phase = .off
  | commit ok durable => s.phase = .advance ∧ (ok → durable)
  | increment _ => s.phase = .raise
  | crash => True

/- The counter is raised when it is asked to. -/
def Advances : AnchorOp → Prop
  | increment advanced => advanced
  | _ => True

instance (s : Anchor) (op : AnchorOp) : Decidable (op.Enabled s) :=
  match op with
  | restore _ => inferInstanceAs (Decidable (_ ∧ _))
  | check => inferInstanceAs (Decidable (_ = _))
  | commit _ _ => inferInstanceAs (Decidable (_ ∧ _))
  | increment _ => inferInstanceAs (Decidable (_ = _))
  | crash => isTrue trivial

instance (op : AnchorOp) : Decidable op.Advances :=
  match op with
  | increment advanced => inferInstanceAs (Decidable (advanced = true))
  | restore _ => isTrue trivial
  | check => isTrue trivial
  | commit _ _ => isTrue trivial
  | crash => isTrue trivial

end AnchorOp

/- What holds after any steps. -/
structure Anchored (s : Anchor) : Prop where
  written : Accepts s.counter s.written
  copies : ∀ gen ∈ s.copies, gen ≤ s.counter + 1
  raise : s.phase = .raise → s.disk = s.counter + 1
  found : s.phase ≠ .off → s.found ≤ s.counter + 1

/- Where the counter has always been raised. -/
def Raised (s : Anchor) : Prop := ∀ r ∈ s.granted, r.1 ≤ s.counter ∧ r.2 ≤ s.counter

variable {s : Anchor}

theorem Anchored.step (op : AnchorOp) (hOk : Anchored s) (hEnabled : op.Enabled s) :
    Anchored (op.apply s) := by
  cases op with
  | restore gen =>
    refine ⟨hOk.written, hOk.copies, fun hRaise => ?_, hOk.found⟩
    cases hEnabled.1.symm.trans hRaise
  | check =>
    simp only [AnchorOp.apply]
    split
    · rename_i hSame
      exact ⟨hOk.written, hOk.copies, nofun, fun _ => by dsimp only; omega⟩
    split
    · rename_i hNext
      exact ⟨hOk.written, hOk.copies, fun _ => hNext, fun _ => by dsimp only; omega⟩
    · exact hOk
  | commit ok durable =>
    have hFound := hOk.found (by rw [hEnabled.1]; nofun)
    cases durable with
    | true =>
      exact ⟨.inr rfl, List.forall_mem_cons.mpr ⟨Nat.le_refl _, hOk.copies⟩, fun _ => rfl,
        fun _ => hFound⟩
    | false =>
      have hFailed : ok = false := by simpa using hEnabled.2
      subst hFailed
      exact ⟨hOk.written, hOk.copies, nofun, nofun⟩
  | increment advanced =>
    have hDisk := hOk.raise hEnabled
    cases advanced with
    | true =>
      exact ⟨.inl hDisk, fun gen hMem => Nat.le_succ_of_le (hOk.copies gen hMem), nofun, nofun⟩
    | false => exact ⟨.inr hDisk, hOk.copies, nofun, nofun⟩
  | crash => exact ⟨hOk.written, hOk.copies, nofun, nofun⟩

theorem Raised.step (op : AnchorOp) (hOk : Anchored s) (hRaised : Raised s)
    (hEnabled : op.Enabled s) (hAdvances : op.Advances) : Raised (op.apply s) := by
  cases op with
  | restore | crash => exact hRaised
  | check =>
    simp only [AnchorOp.apply]
    split
    · exact hRaised
    split
    · exact hRaised
    · exact hRaised
  | commit _ durable =>
    cases durable with
    | true | false => exact hRaised
  | increment advanced =>
    cases (show advanced = true from hAdvances)
    have hFound := hOk.found (by rw [show s.phase = .raise from hEnabled]; nofun)
    refine List.forall_mem_cons.mpr ⟨⟨hFound, Nat.le_of_eq (hOk.raise hEnabled)⟩, fun r hMem => ?_⟩
    have hOld := hRaised r hMem
    exact ⟨Nat.le_succ_of_le hOld.1, Nat.le_succ_of_le hOld.2⟩

theorem anchored_start (gen : Nat) : Anchored (anchored gen) :=
  ⟨.inl rfl, by simp [anchored], nofun, nofun⟩

/-
  The volume that the machine wrote last is always accepted.
  And where no unlock fails to raise the counter, a volume that
  is accepted has no earlier generation than any volume that was
  unlocked before.
-/
theorem anchor_keeps_fresh (gen : Nat) :
    (∀ s, Run AnchorOp.apply (fun s op => op.Enabled s) (anchored gen) s →
      Accepts s.counter s.written) ∧
    ∀ s, Run AnchorOp.apply (fun s op => op.Enabled s ∧ op.Advances) (anchored gen) s →
      ∀ gen', Accepts s.counter gen' → ∀ r ∈ s.granted, r.1 ≤ gen' ∧ r.2 ≤ gen' := by
  constructor
  · intro s hRun
    exact (hRun.invariant Anchored (fun _ op => Anchored.step op) (anchored_start gen)).written
  · intro s hRun gen' hAccepts r hMem
    have hBoth := hRun.invariant (fun s => Anchored s ∧ Raised s)
      (fun _ op hOk hStep => ⟨hOk.1.step op hStep.1, hOk.2.step op hOk.1 hStep.1 hStep.2⟩)
      ⟨anchored_start gen, nofun⟩
    have hLe := hBoth.2 r hMem
    rcases hAccepts with rfl | rfl
    · exact hLe
    · exact ⟨Nat.le_succ_of_le hLe.1, Nat.le_succ_of_le hLe.2⟩

def twoBoots : List AnchorOp := [.check, .commit true true, .crash, .check, .increment true]

theorem anchor_keeps_fresh_twoBoots :
    ¬ Accepts (runAll AnchorOp.apply (anchored 7) twoBoots).counter 7 := by
  intro hAccepts
  have hFresh := (anchor_keeps_fresh 7).2 _ (run_runAll twoBoots (by decide)) 7 hAccepts (8, 8)
    (by decide)
  exact absurd hFresh.1 (by decide)

/- The counter is not raised twice, and the copy is taken again. -/
def copyReturns : List AnchorOp :=
  [.check, .commit true true, .increment false, .check, .increment false,
    .restore 7, .check, .commit true true, .increment true]

theorem old_copy_unlocked_again :
    AllOk AnchorOp.apply (fun s op => op.Enabled s) (anchored 7) copyReturns ∧
      (runAll AnchorOp.apply (anchored 7) copyReturns).granted = [(7, 8), (8, 8), (7, 8)] := by
  decide

end Horus.Storage
