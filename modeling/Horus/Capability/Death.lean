import Horus.Capability.Reparent

/-
  Task death and revocation.

  A death reparents the children of the dying space, empties
  it, and drops it from the array of spaces. On a forest with
  one slot a serial and parents older than children, a later
  revocation then empties the same surviving slots as it would
  have emptied before the death.

  Main declarations:
    * `Forest`, `emptySpace`, `withoutSpace`, `afterDeath`
    * `Parent`, `parent_afterDeath`
    * `revoked_afterDeath_iff`
    * `NearestOutside`, `LastDying`
    * `death_commutes_with_revocation`
-/

namespace Horus

open Relation Function

variable {k root : Nat} {mem : CapMem} {a : Addr}

/- One slot a serial, and parents older than children. -/
structure Forest (mem : CapMem) (S : Addr → Prop) : Prop where
  oneSlot : ∀ a b, S a → S b → (mem a).typ ≠ .null → (mem b).typ ≠ .null →
    (mem a).serial ≠ 0 → (mem a).serial = (mem b).serial →
    a = b
  older : ∀ a, S a → (mem a).typ ≠ .null → (mem a).badge ≠ 0 → (mem a).badge < (mem a).serial

/-
  A record in `S` has the nonzero serial `k` and badge `k'`,
  which may be the root marker.
-/
def Parent (mem : CapMem) (S : Addr → Prop) (k k' : Nat) : Prop :=
  ∃ a, S a ∧ (mem a).typ ≠ .null ∧ k ≠ 0 ∧ (mem a).serial = k ∧ (mem a).badge = k'

/- The root marker is nobody's serial. -/
theorem reaches_up_iff_parent {S : Addr → Prop} (hRoot : root ≠ 0) : ReflTransGen (Up mem S) k root ↔
      ReflTransGen (Parent mem S) k root := by
  constructor
  · refine ReflTransGen.mono ?_ _ _
    rintro x y ⟨a, hS, hLinked, rfl, rfl⟩
    exact ⟨a, hS, hLinked.1, hLinked.2.1, rfl, rfl⟩
  intro hReach
  induction hReach using ReflTransGen.head_induction_on with
  | refl => exact ReflTransGen.refl
  | @head x y hStep _ ih =>
  rcases hStep with ⟨a, hS, hTyp, hNe, rfl, rfl⟩
  by_cases hBadge : (mem a).badge = 0
  · rw [hBadge] at ih
    rcases ReflTransGen.cases_head ih with hEq | ⟨z, ⟨b, _, hLinked, hSerial, _⟩, _⟩
    · exact absurd hEq.symm hRoot
    · exact absurd hSerial hLinked.2.1
  · exact ReflTransGen.head ⟨a, hS, ⟨hTyp, hNe, hBadge⟩, rfl, rfl⟩ ih

----
-- Death
----

/- The loop of `release_cspace` that empties a space. -/
def emptySpace (dying size : Nat) (mem : CapMem) : CapMem :=
  Lib.setAll Capability.nullify ((List.range (min size cnodeSize)).map
      fun i => ⟨dying, i⟩) mem

/- The array of spaces once the dying one is gone. -/
def withoutSpace (dying : Nat) (spaces : List CSpaceDesc) : List CSpaceDesc :=
  spaces.filter fun d => d.caps ≠ some dying

/- Reparent the children, then empty the space. -/
def afterDeath (dying size : Nat) (spaces : List CSpaceDesc)
    (scratch : Scratch) (scratchLen : Nat) (mem : CapMem) : CapMem :=
  emptySpace dying size (rustCapReparentDying dying size spaces scratch scratchLen mem).1

theorem emptySpace_apply (dying size : Nat) (mem : CapMem) (a : Addr) :
    emptySpace dying size mem a = if a.space = dying ∧ a.slot < min size cnodeSize then
        Capability.nullify
      else mem a := by
  unfold emptySpace
  rw [Lib.setAll_apply]
  congr 1
  rw [List.mem_map, eq_iff_iff]
  constructor
  · rintro ⟨i, hi, rfl⟩
    exact ⟨rfl, List.mem_range.mp hi⟩
  · rintro ⟨rfl, hSlot⟩
    exact ⟨a.slot, List.mem_range.mpr hSlot, rfl⟩

theorem mem_slotAddrs_withoutSpace_iff (dying : Nat) (spaces : List CSpaceDesc) (a : Addr) :
    a ∈ slotAddrs (withoutSpace dying spaces) ↔ a ∈ slotAddrs spaces ∧ a.space ≠ dying := by
  simp only [mem_slotAddrs_iff, withoutSpace, List.mem_filter, decide_eq_true_eq]
  constructor
  · rintro ⟨d, ⟨hD, hNe⟩, hCaps, hSlot⟩
    refine ⟨⟨d, hD, hCaps, hSlot⟩, ?_⟩
    rintro rfl
    exact hNe hCaps
  · rintro ⟨⟨d, hD, hCaps, hSlot⟩, hNe⟩
    refine ⟨d, ⟨hD, ?_⟩, hCaps, hSlot⟩
    intro hEq
    rw [hCaps] at hEq
    exact hNe (Option.some.inj hEq)

/-
  The setting of a death: the dying space is one of `spaces`,
  with `size` slots, and the scratch array holds them all.
-/
structure DeathOk (mem : CapMem) (spaces : List CSpaceDesc) (dying size scratchLen : Nat) : Prop
    where
  forest : Forest mem (· ∈ slotAddrs spaces)
  marks : NoMarks mem (· ∈ slotAddrs spaces)
  slots : ∀ i, ⟨dying, i⟩ ∈ slotAddrs spaces ↔ i < min size cnodeSize
  room : min size cnodeSize ≤ scratchLen / 2

/-
  What reparenting needs of it: the order by age, and no
  second slot for a serial of the dying space.
-/
structure DyingOk (mem : CapMem) (spaces : List CSpaceDesc) (dying size scratchLen : Nat) : Prop
    where
  oneSlot : ∀ a b, a ∈ slotAddrs spaces → b ∈ slotAddrs spaces → a.space = dying →
    (mem a).typ ≠ .null → (mem b).typ ≠ .null →
    (mem a).serial ≠ 0 → (mem a).serial = (mem b).serial →
    a = b
  older : ∀ a, a ∈ slotAddrs spaces → (mem a).typ ≠ .null →
    (mem a).badge ≠ 0 → (mem a).badge < (mem a).serial
  slots : ∀ i, ⟨dying, i⟩ ∈ slotAddrs spaces ↔ i < min size cnodeSize
  room : min size cnodeSize ≤ scratchLen / 2

theorem DeathOk.dyingOk {spaces : List CSpaceDesc} {dying size scratchLen : Nat}
    (hOk : DeathOk mem spaces dying size scratchLen) :
    DyingOk mem spaces dying size scratchLen where
  oneSlot := fun a b ha hb _ => hOk.forest.oneSlot a b ha hb
  older := hOk.forest.older
  slots := hOk.slots
  room := hOk.room

section Death

variable {mem : CapMem} {spaces : List CSpaceDesc} {dying size scratchLen : Nat}
    (hOk : DyingOk mem spaces dying size scratchLen)

include hOk

/- One slot holds a serial of the dying space. -/
theorem DyingOk.oneAddr (hKey : DyingKey mem dying size k) :
    ∃ i, ∀ a ∈ slotAddrs spaces, (mem a).typ ≠ .null → (mem a).serial = k → ⟨dying, i⟩ = a := by
  rcases hKey with ⟨_, i, hi, hTyp, hNe, rfl, _⟩
  refine ⟨i, fun a hS hTyp' hSerial => ?_⟩
  exact hOk.oneSlot _ a ((hOk.slots i).mpr hi) hS rfl hTyp hTyp' hNe hSerial.symm

theorem DyingOk.parent_unique {b b' : Nat} (hKey : DyingKey mem dying size k)
    (hParent : Parent mem (· ∈ slotAddrs spaces) k b)
    (hParent' : Parent mem (· ∈ slotAddrs spaces) k b') : b = b' := by
  rcases hOk.oneAddr hKey with ⟨i, hOnly⟩
  rcases hParent with ⟨a, hS, hTyp, _, hSerial, rfl⟩
  rcases hParent' with ⟨a', hS', hTyp', _, hSerial', rfl⟩
  rw [← hOnly a hS hTyp hSerial, ← hOnly a' hS' hTyp' hSerial']

theorem DyingOk.parent_of_dyingLink {k' : Nat} (hLink : DyingLink mem dying size k k') :
    Parent mem (· ∈ slotAddrs spaces) k k' := by
  rcases hLink with ⟨i, hi, hTyp, hNe, hSerial, hBadge⟩
  exact ⟨⟨dying, i⟩, (hOk.slots i).mpr hi, hTyp, hNe, hSerial, hBadge⟩

theorem DyingOk.reparentOk : ReparentOk mem dying size scratchLen where
  room := hOk.room
  functional := by
    intro k b b' hLink hLink'
    exact hOk.parent_unique ⟨b, hLink⟩ (hOk.parent_of_dyingLink hLink)
      (hOk.parent_of_dyingLink hLink')
  older := by
    rintro k b ⟨i, hi, hTyp, hNe, rfl, rfl⟩
    by_cases hBadge : (mem ⟨dying, i⟩).badge = 0
    · rw [hBadge]
      exact Nat.pos_of_ne_zero hNe
    · exact hOk.older _ ((hOk.slots i).mpr hi) hTyp hBadge

/- A serial held outside the dying space is not dying. -/
theorem DyingOk.not_dyingKey (hS : a ∈ slotAddrs spaces)
    (hSpace : a.space ≠ dying) (hTyp : (mem a).typ ≠ .null) :
    ¬ DyingKey mem dying size (mem a).serial := by
  intro hKey
  rcases hOk.oneAddr hKey with ⟨i, hOnly⟩
  exact hSpace (by rw [← hOnly a hS hTyp rfl])

/-
  A surviving record keeps every field but its badge, which
  moves to where its chain leaves the dying space.
-/
theorem DyingOk.afterDeath_apply (scratch : Scratch)
    (hS : a ∈ slotAddrs spaces) (hSpace : a.space ≠ dying) (hTyp : (mem a).typ ≠ .null) : ∃ top,
      afterDeath dying size spaces scratch scratchLen mem a = { mem a with badge := top } ∧
      Lib.Through (Parent mem (· ∈ slotAddrs spaces)) (DyingKey mem dying size) (mem a).badge top ∧
      ¬ DyingKey mem dying size top := by
  have hSpec := rustCapReparentDying_spec dying size spaces scratch scratchLen mem hOk.reparentOk a
  have hKeep : afterDeath dying size spaces scratch scratchLen mem a =
        (rustCapReparentDying dying size spaces scratch scratchLen mem).1 a := by
    unfold afterDeath
    rw [emptySpace_apply, if_neg (fun hIn => hSpace hIn.1)]
  rw [hKeep]
  by_cases hKey : DyingKey mem dying size (mem a).badge
  · rcases hSpec.1 ⟨hS, hSpace, hTyp, hKey⟩ with ⟨top, hEq, hPath, hOut⟩
    refine ⟨top, hEq, ?_, hOut⟩
    refine ReflTransGen.mono ?_ _ _ hPath
    rintro k k' ⟨hDying, hLink⟩
    exact ⟨hDying, hOk.parent_of_dyingLink hLink⟩
  · refine ⟨(mem a).badge, ?_, ReflTransGen.refl, hKey⟩
    exact hSpec.2 (fun hOrphan => hKey hOrphan.2.2.2)

theorem DyingOk.afterDeath_outside (scratch : Scratch) (hSpace : a.space ≠ dying)
    (hNot : ¬ (a ∈ slotAddrs spaces ∧ (mem a).typ ≠ .null)) :
    afterDeath dying size spaces scratch scratchLen mem a = mem a := by
  unfold afterDeath
  rw [emptySpace_apply, if_neg (fun hIn => hSpace hIn.1)]
  refine (rustCapReparentDying_spec dying size spaces scratch scratchLen mem hOk.reparentOk a).2 ?_
  rintro ⟨hS, _, hTyp, _⟩
  exact hNot ⟨hS, hTyp⟩

/- The type of a surviving record is unchanged. -/
theorem DyingOk.afterDeath_typ (scratch : Scratch) (hSpace : a.space ≠ dying) :
    (afterDeath dying size spaces scratch scratchLen mem a).typ = (mem a).typ := by
  by_cases hUsed : a ∈ slotAddrs spaces ∧ (mem a).typ ≠ .null
  · rcases hOk.afterDeath_apply scratch hUsed.1 hSpace hUsed.2 with ⟨top, hEq, _⟩
    rw [hEq]
  · rw [hOk.afterDeath_outside scratch hSpace hUsed]

----
-- The Forest After a Death
----

/- Removed nodes have one parent. -/
theorem DyingOk.through_unique {j j' : Nat}
    (hPath : Lib.Through (Parent mem (· ∈ slotAddrs spaces)) (DyingKey mem dying size) k j)
    (hKept : ¬ DyingKey mem dying size j)
    (hPath' : Lib.Through (Parent mem (· ∈ slotAddrs spaces)) (DyingKey mem dying size) k j')
    (hKept' : ¬ DyingKey mem dying size j') : j = j' := by
  refine Lib.Through.unique ?_ hPath hKept hPath' hKept'
  intro x y z hKey hOne hTwo
  exact hOk.parent_unique hKey hOne hTwo

/-
  The forest of the survivors is the old forest with the dying
  serials contracted.
-/
theorem DyingOk.parent_afterDeath (scratch : Scratch) :
    Parent (afterDeath dying size spaces scratch scratchLen mem)
        (· ∈ slotAddrs (withoutSpace dying spaces)) =
      Lib.Contract (Parent mem (· ∈ slotAddrs spaces)) (DyingKey mem dying size) := by
  funext k k'
  rw [eq_iff_iff]
  constructor
  · rintro ⟨a, hS, hTyp, hNe, hSerial, hBadge⟩
    rcases (mem_slotAddrs_withoutSpace_iff dying spaces a).mp hS with ⟨hIn, hSpace⟩
    rw [hOk.afterDeath_typ scratch hSpace] at hTyp
    rcases hOk.afterDeath_apply scratch hIn hSpace hTyp with ⟨top, hEq, hPath, hOut⟩
    rw [hEq] at hSerial hBadge
    subst hSerial hBadge
    exact ⟨hOk.not_dyingKey hIn hSpace hTyp, (mem a).badge, ⟨a, hIn, hTyp, hNe, rfl, rfl⟩,
      hPath, hOut⟩
  · rintro ⟨hKept, j, ⟨a, hIn, hTyp, hNe, rfl, rfl⟩, hPath, hOut⟩
    have hSpace : a.space ≠ dying := by
      rintro rfl
      exact hKept ⟨(mem a).badge, a.slot, (hOk.slots a.slot).mp hIn, hTyp, hNe, rfl, rfl⟩
    rcases hOk.afterDeath_apply scratch hIn hSpace hTyp with ⟨top, hEq, hPath', hOut'⟩
    have hTop := hOk.through_unique hPath' hOut' hPath hOut
    refine ⟨a, (mem_slotAddrs_withoutSpace_iff dying spaces a).mpr ⟨hIn, hSpace⟩, ?_, hNe, ?_, ?_⟩
    · rw [hOk.afterDeath_typ scratch hSpace]
      exact hTyp
    · rw [hEq]
    · rw [hEq, ← hTop]

/- A subtree keeps its surviving slots. -/
theorem DyingOk.below_afterDeath_iff (scratch : Scratch)
    (hRoot : root ≠ 0) (hKept : ¬ DyingKey mem dying size root) (hSpace : a.space ≠ dying) :
    Below (afterDeath dying size spaces scratch scratchLen mem)
        (· ∈ slotAddrs (withoutSpace dying spaces)) root a ↔
      Below mem (· ∈ slotAddrs spaces) root a := by
  unfold Below
  dsimp only
  rw [mem_slotAddrs_withoutSpace_iff, reaches_up_iff_parent hRoot, reaches_up_iff_parent hRoot,
    hOk.parent_afterDeath scratch]
  by_cases hUsed : a ∈ slotAddrs spaces ∧ (mem a).typ ≠ .null
  · rcases hOk.afterDeath_apply scratch hUsed.1 hSpace hUsed.2 with ⟨top, hEq, hPath, hOut⟩
    have hContract := Lib.reaches_iff_contract (r := Parent mem (· ∈ slotAddrs spaces))
        (k := (mem a).badge) hKept
    rw [hEq, hContract]
    constructor
    · rintro ⟨⟨hS, _⟩, ⟨hTyp, hNe, hTop⟩, hReach⟩
      refine ⟨hS, ⟨hTyp, hNe, ?_⟩, ⟨top, hPath, hOut, hReach⟩⟩
      -- The root marker leads nowhere, so it is not the badge.
      intro hZero
      rw [hZero] at hPath
      rcases ReflTransGen.cases_head hPath with hTop' | ⟨z, ⟨⟨_, i, _, _, hBad, _⟩, _⟩, _⟩
      · exact hTop hTop'.symm
      · exact hBad rfl
    · rintro ⟨hS, ⟨hTyp, hNe, _⟩, ⟨first, hFirst, hFirstOut, hReach⟩⟩
      have hTop := hOk.through_unique hPath hOut hFirst hFirstOut
      subst hTop
      refine ⟨⟨hS, hSpace⟩, ⟨hTyp, hNe, ?_⟩, hReach⟩
      rintro rfl
      rcases ReflTransGen.cases_head hReach with hEnd | ⟨z, ⟨_, j, ⟨b, _, _, hBad, _⟩, _⟩, _⟩
      · exact hRoot hEnd.symm
      · exact hBad rfl
  · rw [hOk.afterDeath_outside scratch hSpace hUsed]
    exact iff_of_false (fun hIn => hUsed ⟨hIn.1.1, hIn.2.1.1⟩) fun hIn => hUsed ⟨hIn.1, hIn.2.1.1⟩

/- A revocation removes the same survivors either way. -/
theorem DyingOk.revoked_afterDeath_iff (scratch : Scratch) {rs : Nat} (ro : Nat)
    (hKept : ¬ DyingKey mem dying size rs) (hSpace : a.space ≠ dying) :
    Revoked (afterDeath dying size spaces scratch scratchLen mem)
        (· ∈ slotAddrs (withoutSpace dying spaces)) rs ro
        a ↔
      Revoked mem (· ∈ slotAddrs spaces) rs ro a := by
  unfold Revoked
  dsimp only
  rw [mem_slotAddrs_withoutSpace_iff, hOk.afterDeath_typ scratch hSpace]
  by_cases hUsed : a ∈ slotAddrs spaces ∧ (mem a).typ ≠ .null
  · rcases hOk.afterDeath_apply scratch hUsed.1 hSpace hUsed.2 with ⟨top, hEq, _, _⟩
    rw [hEq]
    by_cases hRs : rs = 0
    · simp [hRs, hSpace]
    · rw [hOk.below_afterDeath_iff scratch hRs hKept hSpace]
      simp [hRs, hSpace]
  · exact iff_of_false (fun hIn => hUsed ⟨hIn.1.1, hIn.2.1⟩) fun hIn => hUsed ⟨hIn.1, hIn.2.1⟩

end Death

----
-- Ancestors
----

/- Slot `b` holds the parent of the capability in `a`. -/
def ParentSlot (mem : CapMem) (S : Addr → Prop) (a b : Addr) : Prop :=
  S b ∧ (mem b).typ ≠ .null ∧ (mem b).serial ≠ 0 ∧ (mem b).serial = (mem a).badge

/- An ancestor reached without leaving the dying space. -/
def DyingAncestor (mem : CapMem) (S : Addr → Prop) (dying : Nat) : Addr → Addr → Prop :=
  TransGen fun x y => ParentSlot mem S x y ∧ y.space = dying

/-
  The nearest proper ancestor outside the dying space, of a
  capability whose parent is inside.
-/
def NearestOutside (mem : CapMem) (S : Addr → Prop) (dying : Nat) (a b : Addr) : Prop :=
  b.space ≠ dying ∧ ∃ d, DyingAncestor mem S dying a d ∧ ParentSlot mem S d b

/- The dying ancestor with which the chain of `a` ends. -/
def LastDying (mem : CapMem) (S : Addr → Prop) (dying : Nat) (a d : Addr) : Prop :=
  DyingAncestor mem S dying a d ∧ ∀ b, ¬ ParentSlot mem S d b

def ParentDying (mem : CapMem) (S : Addr → Prop) (dying : Nat) (a : Addr) : Prop :=
  ∃ d, ParentSlot mem S a d ∧ d.space = dying

section Ancestors

variable {mem : CapMem} {spaces : List CSpaceDesc} {dying size scratchLen : Nat}
    (hOk : DyingOk mem spaces dying size scratchLen)

include hOk

theorem DyingOk.dyingKey_iff_parentDying (a : Addr) :
    DyingKey mem dying size (mem a).badge ↔ ParentDying mem (· ∈ slotAddrs spaces) dying a := by
  constructor
  · rintro ⟨k', i, hi, hTyp, hNe, hSerial, _⟩
    exact ⟨⟨dying, i⟩, ⟨(hOk.slots i).mpr hi, hTyp, by rwa [hSerial], hSerial⟩, rfl⟩
  · rintro ⟨d, ⟨hS, hTyp, hNe, hSerial⟩, rfl⟩
    exact ⟨(mem d).badge, d.slot, (hOk.slots d.slot).mp hS, hTyp, hSerial ▸ hNe, hSerial, rfl⟩

/- A path of dying serials runs through dying ancestors. -/
theorem DyingOk.exists_dyingAncestor {top : Nat}
    (hPath : Lib.Through (DyingLink mem dying size) (DyingKey mem dying size) k top)
    (a : Addr) (hBadge : (mem a).badge = k) : k = top ∨
      ∃ d, DyingAncestor mem (· ∈ slotAddrs spaces) dying a d ∧ (mem d).badge = top := by
  induction hPath using ReflTransGen.head_induction_on generalizing a with
  | refl => exact .inl rfl
  | head hStep _ ih =>
  rcases hStep with ⟨_, i, hi, hTyp, hNe, hSerial, hNext⟩
  have hParent : ParentSlot mem (· ∈ slotAddrs spaces) a ⟨dying, i⟩ ∧
        (⟨dying, i⟩ : Addr).space = dying :=
    ⟨⟨(hOk.slots i).mpr hi, hTyp, by rwa [hSerial], by rw [hSerial, hBadge]⟩, rfl⟩
  rcases ih ⟨dying, i⟩ hNext with hEnd | ⟨d, hAnc, hD⟩
  · exact .inr ⟨⟨dying, i⟩, TransGen.single hParent, by rw [hNext, hEnd]⟩
  · exact .inr ⟨d, TransGen.head hParent hAnc, hD⟩

/- The badges along dying ancestors form a dying path. -/
theorem DyingOk.through_of_dyingAncestor {d : Addr}
    (hAnc : DyingAncestor mem (· ∈ slotAddrs spaces) dying a d) :
    Lib.Through (Parent mem (· ∈ slotAddrs spaces)) (DyingKey mem dying size) (mem a).badge
      (mem d).badge := by
  refine hAnc.to_reflTransGen.lift (fun x => (mem x).badge) ?_
  rintro x y ⟨hParent, hSpace⟩
  refine ⟨(hOk.dyingKey_iff_parentDying x).mpr ⟨y, hParent, hSpace⟩, ?_⟩
  rcases hParent with ⟨hS, hTyp, hNe, hSerial⟩
  exact ⟨y, hS, hTyp, fun hZero => hNe (hSerial.trans hZero), hSerial, rfl⟩

/-
  The new badge of an orphan: the serial of the nearest
  ancestor outside, or the badge with which its chain of dying
  ancestors ends.
-/
theorem DyingOk.reparent_orphan (scratch : Scratch)
    (hS : a ∈ slotAddrs spaces) (hSpace : a.space ≠ dying) (hTyp : (mem a).typ ≠ .null)
    (hDying : ParentDying mem (· ∈ slotAddrs spaces) dying a) :
    ∃ top, (rustCapReparentDying dying size spaces scratch
        scratchLen mem).1 a = { mem a with badge := top } ∧
      (∀ b, NearestOutside mem (· ∈ slotAddrs spaces) dying a b → top = (mem b).serial) ∧
      ((∀ b, ¬ NearestOutside mem (· ∈ slotAddrs spaces) dying a b) →
        ∃ d, LastDying mem (· ∈ slotAddrs spaces) dying a d ∧ top = (mem d).badge) := by
  have hKey := (hOk.dyingKey_iff_parentDying a).mpr hDying
  rcases (rustCapReparentDying_spec dying size spaces scratch scratchLen mem hOk.reparentOk a).1
      ⟨hS, hSpace, hTyp, hKey⟩ with
    ⟨top, hEq, hPath, hOut⟩
  refine ⟨top, hEq, ?_, ?_⟩
  · rintro b ⟨hbSpace, d, hAnc, hbS, hbTyp, _, hbSerial⟩
    have hPath' := hOk.through_of_dyingAncestor hAnc
    rw [← hbSerial] at hPath'
    refine hOk.through_unique ?_ hOut hPath' (hOk.not_dyingKey hbS hbSpace hbTyp)
    refine ReflTransGen.mono ?_ _ _ hPath
    rintro x y ⟨hx, hLink⟩
    exact ⟨hx, hOk.parent_of_dyingLink hLink⟩
  · intro hNone
    rcases hOk.exists_dyingAncestor hPath a rfl with hEnd | ⟨d, hAnc, hTop⟩
    · exact absurd (hEnd ▸ hKey) hOut
    refine ⟨d, ⟨hAnc, ?_⟩, hTop.symm⟩
    intro b hParent
    by_cases hbSpace : b.space = dying
    · have hStill := (hOk.dyingKey_iff_parentDying d).mpr ⟨b, hParent, hbSpace⟩
      rw [hTop] at hStill
      exact hOut hStill
    · exact hNone b ⟨hbSpace, d, hAnc, hParent⟩

theorem DyingOk.reparent_other (scratch : Scratch)
    (hNot : ¬ ParentDying mem (· ∈ slotAddrs spaces) dying a) :
    (rustCapReparentDying dying size spaces scratch scratchLen mem).1 a = mem a := by
  refine (rustCapReparentDying_spec dying size spaces scratch scratchLen mem hOk.reparentOk a).2 ?_
  rintro ⟨_, _, _, hKey⟩
  exact hNot ((hOk.dyingKey_iff_parentDying a).mp hKey)

end Ancestors

----
-- Main Result
----

/- Slot `a` loses its capability. -/
def Empties (before after : CapMem) (a : Addr) : Prop :=
  (before a).typ ≠ .null ∧ (after a).typ = .null

theorem empties_rustCapRevokeGlobal_iff (space size slot : Nat) (counter : Option Nat)
    (spaces : List CSpaceDesc) (w : Sweep) (hMarks : NoMarks w.mem (· ∈ slotAddrs spaces))
    (hTrue : (rustCapRevokeGlobal space size slot counter spaces w).1 = true)
    (hUsed : (w.mem ⟨space, slot⟩).typ ≠ .null) (a : Addr) : Empties w.mem
        (rustCapRevokeGlobal space size slot counter spaces w).2.mem a ↔
      Emptied w.mem (· ∈ slotAddrs spaces) ⟨space, slot⟩
        a := by
  rcases rustCapRevokeGlobal_mem space size slot counter spaces w hMarks hTrue a with ⟨hIn, hOut⟩
  unfold Empties
  by_cases hEmptied : Emptied w.mem (· ∈ slotAddrs spaces) ⟨space, slot⟩ a
  · have hTyp : (w.mem a).typ ≠ .null := by
      rcases hEmptied with rfl | hRevoked
      · exact hUsed
      · exact hRevoked.2.1
    rw [hIn hEmptied hUsed]
    simp [hTyp, hEmptied, Capability.nullify]
  · rw [hOut hEmptied]
    simp [hEmptied]

/-
  Death and revocation commute on the survivors, and the death
  itself rewrites only the badges of capabilities whose parent
  dies.
-/
theorem death_commutes_with_revocation (mem : CapMem) (spaces : List CSpaceDesc)
    (dying size scratchLen : Nat) (scratch : Scratch)
    (hOk : DeathOk mem spaces dying size scratchLen) (target : Addr)
    (hTarget : target ∈ slotAddrs spaces) (hOutside : target.space ≠ dying)
    (hUsed : (mem target).typ ≠ .null)
    (targetSize : Nat) (counter : Option Nat) (capsInUse : Nat → Nat) (tally : PipeTally)
    (hTrue : (rustCapRevokeGlobal target.space targetSize target.slot counter spaces
        ⟨mem, capsInUse, tally⟩).1 = true) :
    ((rustCapRevokeGlobal target.space targetSize target.slot counter (withoutSpace dying spaces)
        ⟨afterDeath dying size spaces scratch scratchLen mem, capsInUse, tally⟩).1 = true) ∧
    (∀ a, a.space ≠ dying → (Empties (afterDeath dying size spaces scratch scratchLen mem)
          (rustCapRevokeGlobal target.space targetSize
            target.slot counter (withoutSpace dying spaces)
            ⟨afterDeath dying size spaces scratch scratchLen mem, capsInUse, tally⟩).2.mem a ↔
        Empties mem (rustCapRevokeGlobal target.space targetSize target.slot counter spaces
            ⟨mem, capsInUse, tally⟩).2.mem a)) ∧
    (∀ a ∈ slotAddrs spaces, a.space ≠ dying → (mem a).typ ≠ .null →
      (¬ ParentDying mem (· ∈ slotAddrs spaces) dying a →
        (rustCapReparentDying dying size spaces scratch scratchLen mem).1 a = mem a) ∧
      (ParentDying mem (· ∈ slotAddrs spaces) dying a → ∃ top,
          (rustCapReparentDying dying size spaces scratch
            scratchLen mem).1 a = { mem a with badge := top } ∧
          (∀ b, NearestOutside mem (· ∈ slotAddrs spaces) dying a b → top = (mem b).serial) ∧
          ((∀ b, ¬ NearestOutside mem (· ∈ slotAddrs spaces) dying a b) →
            ∃ d, LastDying mem (· ∈ slotAddrs spaces) dying a d ∧ top = (mem d).badge))) := by
  have hDying := hOk.dyingOk
  rcases hDying.afterDeath_apply scratch hTarget hOutside hUsed with ⟨top, hEq, _, _⟩
  have hLater : (rustCapRevokeGlobal target.space targetSize
        target.slot counter (withoutSpace dying spaces)
        ⟨afterDeath dying size spaces scratch scratchLen mem, capsInUse, tally⟩).1 = true := by
    rw [rustCapRevokeGlobal_fst_iff] at hTrue ⊢
    refine ⟨hTrue.1, hTrue.2.1, ?_⟩
    unfold isPrimordialRoot
    dsimp only
    rw [hEq]
    exact hTrue.2.2
  refine ⟨hLater, ?_, ?_⟩
  · intro a hSpace
    have hMarks : NoMarks (afterDeath dying size spaces scratch scratchLen mem)
          (· ∈ slotAddrs (withoutSpace dying spaces)) := by
      intro b hb
      rcases (mem_slotAddrs_withoutSpace_iff dying spaces b).mp hb with ⟨hIn, hbSpace⟩
      rw [hDying.afterDeath_typ scratch hbSpace]
      exact hOk.marks b hIn
    have hUsed' : (afterDeath dying size spaces scratch scratchLen mem target).typ ≠ .null := by
      rwa [hDying.afterDeath_typ scratch hOutside]
    rw [empties_rustCapRevokeGlobal_iff _ _ _ _ _ _ hMarks hLater hUsed' a,
      empties_rustCapRevokeGlobal_iff _ _ _ _ _ _ hOk.marks hTrue hUsed a]
    change a = target ∨ Revoked _ _
        (afterDeath dying size spaces scratch scratchLen mem target).serial
        (afterDeath dying size spaces scratch scratchLen mem target).object a ↔
      a = target ∨ Revoked mem _ (mem target).serial (mem target).object a
    rw [hEq]
    refine or_congr_right ?_
    exact hDying.revoked_afterDeath_iff scratch _
      (hDying.not_dyingKey hTarget hOutside hUsed) hSpace
  · intro a hS hSpace hTyp
    exact ⟨hDying.reparent_other scratch, hDying.reparent_orphan scratch hS hSpace hTyp⟩

----
-- A Shell That Dies
----

/-
  Three spaces of four slots: space 1 holds an original, space
  2 a copy of it, space 3 a copy of the copy. In the second
  memory the original is gone and its serial is still named.
-/
def shellSpaces : List CSpaceDesc :=
  [ { caps := some 1, size := 4, capsInUse := none },
    { caps := some 2, size := 4, capsInUse := none },
    { caps := some 3, size := 4, capsInUse := none } ]

def shellCap (badge serial : Nat) : Capability :=
  { typ := .notification
    rights := Right.read
    object := 0x77
    badge := badge
    serial := serial
    token := 0 }

def danglingMem : CapMem :=
  update (update (fun _ => Capability.nullify) ⟨2, 2⟩ (shellCap 10 20)) ⟨3, 3⟩ (shellCap 20 30)

def shellMem : CapMem := update danglingMem ⟨1, 1⟩ (shellCap 0 10)

def noTally : PipeTally := { cells := fun _ => 0, len := 0 }

/- What `DeathOk` asks of the three spaces, by evaluation. -/
theorem deathOk_shellSpaces (mem : CapMem)
    (hOneSlot : ∀ a ∈ slotAddrs shellSpaces, ∀ b ∈ slotAddrs shellSpaces,
          (mem a).typ ≠ .null → (mem b).typ ≠ .null →
          (mem a).serial ≠ 0 →
          (mem a).serial = (mem b).serial → a = b)
    (hOlder : ∀ a ∈ slotAddrs shellSpaces, (mem a).typ ≠ .null → (mem a).badge ≠ 0 →
        (mem a).badge < (mem a).serial)
    (hMarks : ∀ a ∈ slotAddrs shellSpaces, (mem a).typ ≠ .markNew ∧ (mem a).typ ≠ .markDone) :
    DeathOk mem shellSpaces 2 4 8 where
  forest := { oneSlot := fun a b ha hb => hOneSlot a ha b hb, older := hOlder }
  marks := hMarks
  slots := by
    intro i
    rw [mem_slotAddrs_iff]
    simp only [shellSpaces, cnodeSize, List.mem_cons, List.not_mem_nil, or_false]
    constructor
    · rintro ⟨d, rfl | rfl | rfl, hCaps, hSlot⟩ <;>
        simp_all
    · intro hi
      exact ⟨_, .inr (.inl rfl), rfl, hi⟩
  room := by decide

theorem death_commutes_with_revocation_shell :
    Empties (afterDeath 2 4 shellSpaces (fun _ => (0, 0)) 8 shellMem)
        (rustCapRevokeGlobal 1 4 1 none (withoutSpace 2 shellSpaces)
          ⟨afterDeath 2 4 shellSpaces (fun _ => (0, 0)) 8
            shellMem, fun _ => 0, noTally⟩).2.mem ⟨3, 3⟩ ↔
      Empties shellMem (rustCapRevokeGlobal 1 4 1 none shellSpaces
          ⟨shellMem, fun _ => 0, noTally⟩).2.mem ⟨3, 3⟩ :=
  (death_commutes_with_revocation shellMem shellSpaces 2 4 8 (fun _ => (0, 0))
    (deathOk_shellSpaces shellMem (by decide) (by decide) (by decide))
    ⟨1, 1⟩ (by decide) (by decide) (by decide) 4 none
    (fun _ => 0) noTally (by decide)).2.1 ⟨3, 3⟩ (by decide)

/-
  The serial where a chain leaves the dying space need not be
  held by any slot. The orphan then takes it over, though it
  has no ancestor outside the dying space.
-/
theorem reparent_takes_dangling_badge :
    DeathOk danglingMem shellSpaces 2 4 8 ∧
    ParentDying danglingMem (· ∈ slotAddrs shellSpaces) 2 ⟨3, 3⟩ ∧
    ¬ ((∃ b, NearestOutside danglingMem (· ∈ slotAddrs shellSpaces) 2 ⟨3, 3⟩ b ∧
          ((rustCapReparentDying 2 4 shellSpaces (fun _ => (0, 0)) 8 danglingMem).1
                ⟨3, 3⟩).badge = (danglingMem b).serial) ∨
        ((rustCapReparentDying 2 4 shellSpaces
            (fun _ => (0, 0)) 8 danglingMem).1 ⟨3, 3⟩).badge = 0) := by
  have hBadge : ((rustCapReparentDying 2 4 shellSpaces
        (fun _ => (0, 0)) 8 danglingMem).1 ⟨3, 3⟩).badge = 10 := by
    decide
  have hHeld : ∀ b ∈ slotAddrs shellSpaces, (danglingMem b).serial ≠ 10 := by
    decide
  refine ⟨deathOk_shellSpaces danglingMem (by decide) (by decide) (by decide), ?_, ?_⟩
  · exact ⟨⟨2, 2⟩, ⟨by decide, by decide, by decide, by decide⟩, rfl⟩
  rintro (⟨b, ⟨_, d, _, hS, _⟩, hEq⟩ | hZero)
  · exact hHeld b hS hEq.symm
  · omega

end Horus
