import Horus.Kernel.Steps

/-
  `untyped_split` (`untyped.c`) in its locked steps, with
  operations of other tasks between them.

  The region is debited for the capability that the first step
  found. `cap_mint_untyped_child` looks the slot up again, and
  asks only for some untyped capability.

  Main results: `split_parent_iff`.
-/

namespace Horus

open Capability Function Relation

/- The step under `ut_lock`. -/
def splitCarve (s : Sys) (parent bytes : Nat) : Option (Nat × Origin × Sys) :=
  match untypedCarve s.obj.untypeds parent bytes with
  | none => none
  | some (child, region, rest) =>
    some (child, .untypedSplit parent child (s.obj.untypeds parent) region,
      { s with obj.untypeds := update (update s.obj.untypeds parent rest) child region })

/-
  A split up to its last step: the capability at `a` in `s`
  authorised it, and the last step finds `s'`.
-/
structure Splitting (cur src dest bytes : Nat) (a : Addr) (child : Nat) (origin : Origin)
    (s s' : Sys) : Prop where
  args : ¬ (bytes = 0 ∨ cnodeSize ≤ dest ∨ dest < kernelReservedCaps)
  authorised : capLookup s.cap cur src (some .untyped) Right.write = some a
  region : untypedFromSlot s cur src Right.write = some (s.cap.mem a).object
  debited : ∃ t t', RunsWhile (fun _ _ => True) s t ∧
    splitCarve t (s.cap.mem a).object bytes = some (child, origin, t') ∧
    RunsWhile (fun _ _ => True) t' s'

/- Revoking what has the serial `k`, or is above, empties `a`. -/
def FallsWith (mem : CapMem) (k : Nat) (a : Addr) : Prop :=
  ∀ space size slot counter spaces w, w.mem = mem → NoMarks mem (· ∈ slotAddrs spaces) →
    a ∈ slotAddrs spaces → (mem ⟨space, slot⟩).typ ≠ .null →
    ReflTransGen (Up mem (· ∈ slotAddrs spaces)) k (mem ⟨space, slot⟩).serial →
    (rustCapRevokeGlobal space size slot counter spaces w).1 = true →
    (rustCapRevokeGlobal space size slot counter spaces w).2.mem a = nullify

variable {cur src dest bytes child : Nat} {a : Addr} {origin : Origin} {s s' : Sys}
  {c out : CapState}

/- Without such operations, the steps are `untypedSplit`. -/
theorem untypedSplit_eq (hSplit : Splitting cur src dest bytes a child origin s s')
    (hCarve : splitCarve s (s.cap.mem a).object bytes = some (child, origin, s'))
    (hMint : capMintUntypedChild s'.cap cur src dest child origin = (true, out)) :
    untypedSplit s cur src dest bytes = (true, { s' with cap := out }) := by
  unfold splitCarve at hCarve
  split at hCarve
  · contradiction
  · cases hCarve
    simp_all [untypedSplit, hSplit.args, hSplit.region]

theorem capLookup_serial {expected : Option CapType} {required : Rights}
    (hFound : capLookup c cur src expected required = some a) : (c.mem a).serial ≠ 0 := by
  grind [capLookup, rustCapLookupTyped, rustCapLookup]

theorem capMintUntypedChild_linked
    (hMint : capMintUntypedChild c cur src dest child origin = (true, out)) :
    ∃ b, kcapLookup c cur src Right.write = some b ∧
      (out.mem ⟨cspaceOrRoot c cur, dest⟩).badge = (c.mem b).serial ∧
      Linked (out.mem ⟨cspaceOrRoot c cur, dest⟩) := by
  unfold capMintUntypedChild at hMint
  repeat' split at hMint
  all_goals cases hMint
  have hSerial := capLookup_serial (by assumption)
  simp_all [cspaceOrRoot, CapState.install, Linked]

theorem fallsWith_badge {mem : CapMem} (hLinked : Linked (mem a)) :
    FallsWith mem (mem a).badge a := by
  rintro space size slot counter spaces w rfl hMarks hIn hTyp hChain hTrue
  refine (rustCapRevokeGlobal_mem space size slot counter spaces w hMarks hTrue a).1 ?_ hTyp
  have hNamed : (w.mem ⟨space, slot⟩).serial ≠ 0 := by
    rcases hChain.cases_tail with hEq | ⟨_, _, _, _, hUp, _, hBadge⟩
    · exact hEq ▸ hLinked.2.2
    · exact hBadge ▸ hUp.2.2
  exact .inr ⟨hIn, hLinked.1, .inl ⟨hNamed, .inl ⟨hIn, hLinked, hChain⟩⟩⟩

/-
  The child hangs under the capability that was charged for it
  exactly if the slot still holds that one at the last step.
-/
theorem split_parent_iff (_ : Splitting cur src dest bytes a child origin s s')
    (hMint : capMintUntypedChild s'.cap cur src dest child origin = (true, out)) :
    ((out.mem ⟨cspaceOrRoot s'.cap cur, dest⟩).badge = (s.cap.mem a).serial ∧
        FallsWith out.mem (s.cap.mem a).serial ⟨cspaceOrRoot s'.cap cur, dest⟩) ↔
      ∃ b, kcapLookup s'.cap cur src Right.write = some b ∧
        (s'.cap.mem b).serial = (s.cap.mem a).serial := by
  obtain ⟨b, hFound, hBadge, hLinked⟩ := capMintUntypedChild_linked hMint
  rw [hFound]
  constructor
  · rintro ⟨hParent, _⟩
    exact ⟨b, rfl, hBadge.symm.trans hParent⟩
  · rintro ⟨_, hEq, hSame⟩
    cases hEq
    rw [← hSame, ← hBadge]
    exact ⟨rfl, fallsWith_badge hLinked⟩

/- A region, and two capabilities of task 2 that name it. -/
def oneRegion : BootConfig :=
  { smallMachine with
    untypeds := fun i => { base := 0, size := 4096, watermark := 0, objects := 0, inUse := i = 1 }
    regionsFit := fun _ => by simp }

def regionGiven : Sys :=
  execAll (boot oneRegion) [.createTask 1 .kernel, .createTask 2 .kernel,
    .installFromRoot 2 18 17 1, .installFromRoot 2 19 17 1, .childTcb 2 1, .grant 2 1 18 18]

def regionCarved : Nat × Origin × Sys :=
  (splitCarve regionGiven (regionGiven.cap.mem ⟨2, 18⟩).object 4096).get (by decide +kernel)

/- The last step, after `ops`. -/
def mintAfter (ops : List Op) : Bool × CapState :=
  capMintUntypedChild (execAll regionCarved.2.2 ops).cap 1 18 40 regionCarved.1 regionCarved.2.1

theorem splitting_given (ops : List Op) (hOps : Allowed (fun _ _ => True) regionCarved.2.2 ops) :
    Splitting 1 18 40 4096 ⟨2, 18⟩ regionCarved.1 regionCarved.2.1 regionGiven
      (execAll regionCarved.2.2 ops) where
  args := by decide
  authorised := by decide +kernel
  region := by decide +kernel
  debited := by
    refine ⟨regionGiven, regionCarved.2.2, Lib.Run.refl _, ?_, runsWhile_execAll ops hOps⟩
    simp only [regionCarved, Prod.mk.eta, Option.some_get]

theorem split_parent_iff_alone :
    ((mintAfter []).2.mem ⟨cspaceOrRoot regionCarved.2.2.cap 1, 40⟩).badge =
      (regionGiven.cap.mem ⟨2, 18⟩).serial := by
  have hMint : mintAfter [] = (true, (mintAfter []).2) := Prod.ext (by decide +kernel) rfl
  have hIff := split_parent_iff (splitting_given [] trivial) hMint
  exact (hIff.2 ⟨⟨2, 18⟩, by decide +kernel, by decide +kernel⟩).1

/-
  Task 2 puts its other capability into the slot before the
  last step. The child outlives the one it was charged to.
-/
theorem split_under_another :
    Splitting 1 18 40 4096 ⟨2, 18⟩ regionCarved.1 regionCarved.2.1 regionGiven
        (execAll regionCarved.2.2 [.grant 2 1 18 19]) ∧
      (mintAfter [.grant 2 1 18 19]).1 = true ∧
      ((mintAfter [.grant 2 1 18 19]).2.mem ⟨2, 40⟩).badge ≠
        (regionGiven.cap.mem ⟨2, 18⟩).serial ∧
      ((capRevoke { regionGiven with cap := (mintAfter [.grant 2 1 18 19]).2 } 2 18).2.cap.mem
        ⟨2, 40⟩).typ = .untyped :=
  ⟨splitting_given [.grant 2 1 18 19] (by decide +kernel), by decide +kernel, by decide +kernel,
    by decide +kernel⟩

end Horus
