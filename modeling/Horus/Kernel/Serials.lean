import Horus.Capability.Death
import Horus.Kernel.Invariants

/-
  One serial, one slot.

  A serial that `assign_fresh_serial` has issued is held by at
  most one slot, and a capability is younger than the one it
  was derived from. The serials of the boot table are the
  exception to the first: the root table and task 0 share two
  of them.

  Main declarations:
    * `Lowered`, `Sound`
    * `Sound.sweep_mem`, `Tables.bury_mem`
    * `Sound.act_lowered`, `Sound.act`, `Reachable.sound`
    * `one_serial_one_slot`
-/

namespace Horus

open CapState
open Function
open Relation

variable {c : Capability} {s' s : CapState} {a : Addr} {n k : Nat}

----
-- The Invariant
----

/- `r` is what is left of `c`, or `c` moved up to an ancestor. -/
def Lowered (c r : Capability) : Prop :=
  r = Capability.nullify ∨ ∃ top ≤ c.badge, r = { c with badge := top }

theorem lowered_of_eq {r : Capability} (hSame : r = c) : Lowered c r := by
  subst hSame
  exact .inr ⟨r.badge, le_refl _, rfl⟩

theorem burn_counter (s : CapState) : s.nextSerial ≤ s.burn.nextSerial := by
  unfold burn
  dsimp only
  rcases assignFreshSerial_cases s.nextSerial with ⟨_, hNext⟩ | ⟨_, hNext⟩ <;> omega

theorem freshSerial_cases (s : CapState) : s.freshSerial = 0 ∨
      max s.nextSerial minDerivedSerial < s.freshSerial ∧
        s.freshSerial ≤ max s.burn.nextSerial minDerivedSerial := by
  unfold freshSerial burn
  rcases assignFreshSerial_cases s.nextSerial with ⟨hZero, _⟩ | ⟨hNew, hNext⟩
  · exact .inl hZero
  · exact .inr (by dsimp only; omega)

structure Sound (s : CapState) : Prop where
  clean : ∀ a, (s.mem a).typ ≠ .markNew ∧ (s.mem a).typ ≠ .markDone
  bound : ∀ a, (s.mem a).serial ≤ max s.nextSerial minDerivedSerial
  unique : ∀ a b, minDerivedSerial < (s.mem a).serial → (s.mem a).serial = (s.mem b).serial → a = b
  older : ∀ a, (s.mem a).badge ≠ 0 → (s.mem a).badge < (s.mem a).serial
  low : ∀ a, (s.mem a).serial ≠ 0 → (s.mem a).serial ≤ minDerivedSerial →
    (s.mem a).badge = 0 ∧ (a.space = rootSpace ∨ (s.tasks 0).cspace = some a.space)

/- What it says of the record in one slot. -/
structure SoundAt (s : CapState) (a : Addr) (c : Capability) : Prop where
  clean : c.typ ≠ .markNew ∧ c.typ ≠ .markDone
  bound : c.serial ≤ max s.nextSerial minDerivedSerial
  older : c.badge ≠ 0 → c.badge < c.serial
  low : c.serial ≠ 0 → c.serial ≤ minDerivedSerial →
    c.badge = 0 ∧ (a.space = rootSpace ∨ (s.tasks 0).cspace = some a.space)

theorem sound_of_slots (hSlots : ∀ a, SoundAt s a (s.mem a))
    (hUnique : ∀ a b, minDerivedSerial < (s.mem a).serial →
      (s.mem a).serial = (s.mem b).serial → a = b) : Sound s :=
  ⟨fun a => (hSlots a).clean, fun a => (hSlots a).bound, hUnique, fun a => (hSlots a).older,
    fun a => (hSlots a).low⟩

theorem soundAt_nullify (s : CapState) (a : Addr) : SoundAt s a Capability.nullify := by
  constructor <;> simp [Capability.nullify]

theorem SoundAt.mono (hC : SoundAt s a c) (hNext : s.nextSerial ≤ s'.nextSerial)
    (hTask : (s'.tasks 0).cspace = (s.tasks 0).cspace) : SoundAt s' a c where
  __ := hC
  bound := by
    have hBound := hC.bound
    omega
  low := hTask ▸ hC.low

theorem SoundAt.lower {r : Capability} (hC : SoundAt s a c) (hLow : Lowered c r) :
    SoundAt s a r := by
  rcases hLow with rfl | ⟨top, hTop, rfl⟩
  · exact soundAt_nullify s a
  have hOlder := hC.older
  refine { hC with older := ?_, low := ?_ }
  · dsimp only
    omega
  · intro hNe hSerial
    have hOld := hC.low hNe hSerial
    exact ⟨by dsimp only; omega, hOld.2⟩

theorem Lowered.serial {r : Capability} (hLow : Lowered c r) :
    r.serial = 0 ∨ r.serial = c.serial := by
  rcases hLow with rfl | ⟨top, _, rfl⟩
  · exact .inl rfl
  · exact .inr rfl

section Sound

variable {s : CapState} (hSound : Sound s)

include hSound

theorem Sound.noMarks (S : Addr → Prop) : NoMarks s.mem S := fun a _ => hSound.clean a

/- A fresh serial is above all others. -/
theorem Sound.lt_fresh (a : Addr) (hFresh : s.freshSerial ≠ 0) : (s.mem a).serial < s.freshSerial ∧
      minDerivedSerial < s.freshSerial := by
  have hBound := hSound.bound a
  rcases freshSerial_cases s with hZero | hNew <;> omega

theorem Sound.slot (a : Addr) : SoundAt s a (s.mem a) :=
  ⟨hSound.clean a, hSound.bound a, hSound.older a, hSound.low a⟩

/- Records are only emptied, or moved up to an ancestor. -/
theorem Sound.lower (hMem : ∀ a, Lowered (s.mem a) (s'.mem a))
    (hNext : s.nextSerial ≤ s'.nextSerial)
    (hTask : (s'.tasks 0).cspace = (s.tasks 0).cspace) : Sound s' := by
  refine sound_of_slots (fun a => ((hSound.slot a).mono hNext hTask).lower (hMem a)) ?_
  intro a b hHigh hEq
  apply hSound.unique a b <;>
    rcases (hMem a).serial with hA | hA <;> rcases (hMem b).serial with hB | hB <;> omega

/- One slot is written, and its serial is not in use. -/
theorem Sound.put (hMem : s'.mem = update s.mem a c)
    (hNext : s.nextSerial ≤ s'.nextSerial) (hTasks : s'.tasks = s.tasks) (hC : SoundAt s' a c)
    (hNew : minDerivedSerial < c.serial → ∀ b, (s.mem b).serial ≠ c.serial) : Sound s' := by
  have hCase : ∀ b, s'.mem b = s.mem b ∨ b = a ∧ s'.mem b = c := by
    intro b
    rw [hMem]
    rcases eq_or_ne b a with rfl | hB
    · exact .inr ⟨rfl, update_self _ _ _⟩
    · exact .inl (update_of_ne hB _ _)
  refine sound_of_slots ?_ ?_
  · intro b
    rcases hCase b with hB | ⟨rfl, hB⟩ <;> rw [hB]
    · exact (hSound.slot b).mono hNext (by rw [hTasks])
    · exact hC
  · intro b d
    rcases hCase b with hB | ⟨hEqB, hB⟩ <;>
      rcases hCase d with hD | ⟨hEqD, hD⟩ <;>
      rw [hB, hD] <;> intro hHigh hEq
    · exact hSound.unique b d hHigh hEq
    · exact absurd hEq (hNew (hEq ▸ hHigh) b)
    · exact absurd hEq.symm (hNew hHigh d)
    · exact hEqB.trans hEqD.symm

theorem Sound.write (hMem : s'.mem = update s.mem a c) (hNext : s'.nextSerial = s.burn.nextSerial)
    (hTasks : s'.tasks = s.tasks) (hSerial : c.serial = s.freshSerial)
    (hTyp : c.typ ≠ .markNew ∧ c.typ ≠ .markDone)
    (hBadge : c.badge = 0 ∨ s.freshSerial ≠ 0 ∧ ∃ b, c.badge = (s.mem b).serial) : Sound s' := by
  have hFresh := freshSerial_cases s
  have hCounter := burn_counter s
  refine hSound.put hMem (by omega) hTasks ⟨hTyp, by omega, ?_, by omega⟩ ?_
  · intro hNe
    rcases hBadge with hZero | ⟨_, d, hD⟩
    · exact absurd hZero hNe
    · have hOld := hSound.bound d
      omega
  · intro _ b
    have hOld := hSound.bound b
    omega

end Sound

----
-- Sweeping and Burying
----

/- A revocation empties the subtree and nothing else. -/
theorem Sound.sweep_mem (hSound : Sound s) {cur : Nat} (hOk : (Act.sweep cur a).Ok s) (b : Addr) :
    (Emptied s.mem s.Visible a b → ((Act.sweep cur a).apply s).mem b = Capability.nullify) ∧
    (¬ Emptied s.mem s.Visible a b → ((Act.sweep cur a).apply s).mem b = s.mem b) := by
  rcases hOk with ⟨hOwns, hUsed, hRoot⟩
  have hTrue : (rustCapRevokeGlobal a.space cnodeSize a.slot (some cur) (revokeSpaces s)
        ⟨s.mem, s.capsInUse, zeroTally⟩).1 = true := by
    rw [rustCapRevokeGlobal_fst_iff]
    exact ⟨hOwns.slot, hOwns.slot, hRoot⟩
  have hMem := rustCapRevokeGlobal_mem a.space cnodeSize a.slot (some cur) (revokeSpaces s)
    ⟨s.mem, s.capsInUse, zeroTally⟩ (hSound.noMarks _) hTrue b
  exact ⟨fun hIn => hMem.1 hIn hUsed, hMem.2⟩

/- The slots that reparenting looks at, task by task. -/
theorem survivors_slotRefs_filterMap {id space : Nat}
    (hSpace : (s.tasks id).cspace = some space) (ids : List Nat) :
    survivors space (slotRefs ((ids.filter (· ≠ id)).filterMap (taskDesc (abandonTask s id)))) =
      survivors space (slotRefs (ids.filterMap (taskDesc s))) := by
  have hCons : ∀ (d : CSpaceDesc) (ds : List CSpaceDesc),
        survivors space (slotRefs (d :: ds)) = survivors space d.slotRefs ++
            survivors space (slotRefs ds) := by
    simp [survivors, slotRefs]
  induction ids with
  | nil => rfl
  | cons j _ ih =>
  rcases eq_or_ne j id with rfl | hJ
  · -- The dying space contributes nothing.
    have hNone : ∀ d, taskDesc s j = some d → survivors space d.slotRefs = [] := by
      intro d hD
      unfold taskDesc at hD
      rw [hSpace] at hD
      dsimp only at hD
      split at hD
      · simp at hD
      cases hD
      simp only [survivors, CSpaceDesc.slotRefs, List.map_map, List.filter_eq_nil_iff, List.mem_map]
      rintro _ ⟨i, _, rfl⟩
      simp
    rw [List.filter_cons_of_neg (by simp), ih, List.filterMap_cons]
    cases hD : taskDesc s j with
    | none => rfl
    | some d => rw [hCons, hNone d hD, List.nil_append]
  · have hSame : taskDesc (abandonTask s id) j = taskDesc s j := by
      simp [taskDesc, abandonTask, setTask, hJ]
    rw [List.filter_cons_of_pos (by simpa using hJ),
      List.filterMap_cons, List.filterMap_cons, hSame]
    cases taskDesc s j with
    | none => exact ih
    | some => rw [hCons, hCons, ih]

section Bury

variable {s : CapState} (hTables : Tables s) {id space : Nat} (hId : id ≠ 0)
    (hRun : s.running id = true) (hSpace : (s.tasks id).cspace = some space)

include hTables hId hRun hSpace

/- Burying a task is the death of its space. -/
theorem Tables.bury_mem (scratch : Scratch) : ((Act.bury id scratch).apply s).mem =
      afterDeath space cnodeSize (revokeSpaces s) scratch (2 * cnodeSize) s.mem := by
  have hMax : id < s.maxTasks := by
    simp only [running, decide_eq_true_eq] at hRun
    exact hRun.1
  have hTask : (abandonTask s id).tasks id = { s.tasks id with state := .dead } := update_self _ _ _
  have hCspace : ((abandonTask s id).tasks id).cspace = some space := by
    rw [hTask]
    exact hSpace
  have hSz : ((abandonTask s id).tasks id).cspaceSz = cnodeSize := by
    rw [hTask]
    exact hTables.cspaceSz id (by simp [hSpace])
  have hSurvivors : survivors space (slotRefs (survivorSpaces (abandonTask s id) id)) =
        survivors space (slotRefs (revokeSpaces s)) := by
    have hApp : ∀ ds : List CSpaceDesc, survivors space (slotRefs (ds ++ [rootDesc])) =
            survivors space (slotRefs ds) ++ survivors space (slotRefs [rootDesc]) := by
      simp [survivors, slotRefs]
    unfold survivorSpaces revokeSpaces
    rw [hApp, hApp]
    congr 1
    exact survivors_slotRefs_filterMap hSpace (List.range s.maxTasks)
  funext a
  have hNot : ¬ (id = 0 ∨ s.maxTasks ≤ id) := by omega
  have hNot' : ¬ (id = 0 ∨ (abandonTask s id).maxTasks ≤ id) := hNot
  simp only [Act.apply, releaseCspace, if_neg hNot', hCspace, hSz, min_self]
  unfold afterDeath
  rw [emptySpace_apply]
  congr 1
  exact congrFun (rustCapReparentDying_congr space cnodeSize scratch
      (2 * cnodeSize) s.mem hSurvivors) a

theorem Sound.dyingOk (hSound : Sound s) :
    DyingOk s.mem (revokeSpaces s) space cnodeSize (2 * cnodeSize) where
  oneSlot := by
    intro a b _ _ hDying _ _ hNe hEq
    apply hSound.unique a b ?_ hEq
    by_contra hLow
    rcases (hSound.low a hNe (Nat.not_lt.mp hLow)).2 with hRoot | hZero
    · have hPos := (hTables.space id space hSpace).1
      omega
    · rw [hDying] at hZero
      exact hId (hTables.own id 0 space hSpace hZero)
  older := fun a _ _ hNe => hSound.older a hNe
  slots := by
    intro i
    change s.Visible ⟨space, i⟩ ↔ _
    rw [hTables.visible_iff]
    constructor
    · exact fun hIn => hIn.1
    · exact fun hIn => ⟨hIn, .inr ⟨id, hRun, hSpace⟩⟩
  room := by decide

/- Burying empties records or moves them up. -/
theorem Sound.bury_lower (hSound : Sound s) (scratch : Scratch) (a : Addr) :
    Lowered (s.mem a) (((Act.bury id scratch).apply s).mem a) := by
  have hOk := (hSound.dyingOk hTables hId hRun hSpace).reparentOk
  rw [hTables.bury_mem hId hRun hSpace scratch]
  unfold afterDeath
  rw [emptySpace_apply]
  split
  · exact .inl rfl
  right
  have hSpec := rustCapReparentDying_spec space cnodeSize
    (revokeSpaces s) scratch (2 * cnodeSize) s.mem hOk a
  by_cases hOrphan : Orphan s.mem (· ∈ slotAddrs (revokeSpaces s)) space cnodeSize a
  · rcases hSpec.1 hOrphan with ⟨top, hEq, hPath, hOut⟩
    refine ⟨top, ?_, hEq⟩
    clear hEq hOut
    -- Every step of the path leads to an older serial.
    induction hPath with
    | refl => exact le_refl _
    | tail _ hStep =>
      have hLt := hOk.older _ _ hStep.2
      omega
  · exact ⟨_, le_refl _, hSpec.2 hOrphan⟩

end Bury

----
-- Every Action Is Sound
----

theorem freshKind_clean {typ : CapType} (hKind : freshKind typ = true) :
    typ ≠ .markNew ∧ typ ≠ .markDone := by
  constructor <;> rintro rfl <;> simp [freshKind] at hKind

/- The actions that put a record into a slot. -/
def Act.writes : Act → Bool
  | .install _ _ _ _ _ | .place _ _ _ => true
  | _ => false

/- No other action does more than empty slots and move up. -/
theorem Sound.act_lowered (hSound : Sound s) (hTables : Tables s) (act : Act) (hOk : act.Ok s)
    (hWrites : act.writes = false) (b : Addr) : Lowered (s.mem b) ((act.apply s).mem b) := by
  cases act with
  | burn | age | abandon => exact lowered_of_eq rfl
  | install | place => cases hWrites
  | erase pid a =>
    rcases (closing_erase s pid a).mem b with hB | hB
    · exact lowered_of_eq hB
    · exact .inl hB
  | sweep _ a =>
    by_cases hIn : Emptied s.mem s.Visible a b
    · exact .inl ((hSound.sweep_mem hOk b).1 hIn)
    · exact lowered_of_eq ((hSound.sweep_mem hOk b).2 hIn)
  | openSpace _ space =>
    by_cases hB : b.space = space ∧ b.slot < cnodeSize
    · exact .inl (if_pos hB)
    · exact lowered_of_eq (if_neg hB)
  | bury _ scratch =>
    rcases hTables.running_cspace hOk.2 with ⟨space, hSpace, _⟩
    exact hSound.bury_lower hTables hOk.1 hOk.2 hSpace scratch b

theorem act_counter (s : CapState) (act : Act) : s.nextSerial ≤ (act.apply s).nextSerial := by
  cases act with
  | burn | install | place => exact burn_counter s
  | erase => simp [Act.apply]
  | sweep | openSpace | age | abandon => exact le_refl _
  | bury => simp [Act.apply, abandonTask, setTask]

theorem act_log (s : CapState) {act : Act} (hWrites : act.writes = false) :
    (act.apply s).log = s.log := by
  cases act with
  | install | place => cases hWrites
  | erase => simp [Act.apply]
  | bury => simp [Act.apply, abandonTask, setTask]
  | _ => rfl

/- Task 0 keeps the space it was booted with. -/
theorem act_task0 (act : Act) (hOk : act.Ok s) :
    ((act.apply s).tasks 0).cspace = (s.tasks 0).cspace := by
  have hOther : ∀ (id : Nat) (t : Tcb), id ≠ 0 →
        (update s.tasks id t 0).cspace = (s.tasks 0).cspace := by
    intro id t hId
    rw [update_of_ne (Ne.symm hId)]
  cases act with
  | burn | install | place => rfl
  | erase => simp [Act.apply]
  | sweep => rfl
  | openSpace id =>
    have hFree := hOk.1
    simp only [freeSlot, decide_eq_true_eq] at hFree
    exact hOther id _ hFree.1
  | age id =>
    simp only [Act.Ok, freeSlot, decide_eq_true_eq] at hOk
    exact hOther id _ hOk.1
  | abandon id => exact hOther id _ hOk.1
  | bury => simp [Act.apply, abandonTask, setTask, Ne.symm hOk.1]

theorem Sound.act (hSound : Sound s) (hTables : Tables s)
    (act : Act) (hOk : act.Ok s) : Sound (act.apply s) := by
  by_cases hWrites : act.writes = true
  · cases act with
    | install _ _ _ _ src =>
      rcases hOk with ⟨_, hSerial, hFresh, _, hSource⟩
      cases src with
      | none =>
        exact hSound.write rfl rfl rfl hSerial (freshKind_clean hSource.2) (.inl hSource.1.badge)
      | some b =>
        refine hSound.write rfl rfl rfl hSerial ?_ (.inr ⟨hFresh, b, hSource.badge⟩)
        rw [hSource.typ]
        exact hSound.clean b
    | place =>
      rcases hOk with ⟨_, hSerial, hAfresh, hTyp⟩
      refine hSound.write rfl rfl rfl hSerial ?_ (.inl hAfresh.badge)
      rcases hTyp with hKind | ⟨slot, hRoot⟩
      · exact freshKind_clean hKind
      · rw [hRoot]
        exact hSound.clean _
    | _ => cases hWrites
  · exact hSound.lower (hSound.act_lowered hTables act hOk (by simpa using hWrites))
      (act_counter s act) (act_task0 act hOk)

----
-- Boot
----

theorem rootCnode_primordial (nic : Option Nat) (slot : Nat) :
    rootCnode nic slot = Capability.nullify ∨ ∃ typ rights object tag,
        tag ≤ 24 ∧ typ ≠ .markNew ∧ typ ≠ .markDone ∧
        rootCnode nic slot = primordial typ rights object tag := by
  unfold rootCnode
  split
  case h_18 =>
    cases nic with
    | none => exact .inl rfl
    | some => exact .inr ⟨_, _, _, _, by decide, by decide, by decide, rfl⟩
  case h_24 => exact .inl rfl
  all_goals
    exact .inr ⟨_, _, _, _, by decide, by decide, by decide, rfl⟩

/- Task 0 is given two capabilities with boot serials. -/
theorem Sound.placeLow (hSound : Sound s) {origin : Origin}
    (hTyp : c.typ ≠ .markNew ∧ c.typ ≠ .markDone)
    (hLow : c.serial ≤ minDerivedSerial) (hBadge : c.badge = 0)
    (hTask : (s.tasks 0).cspace = some a.space) : Sound (s.place a c origin) := by
  refine hSound.put rfl (le_refl _) rfl ⟨hTyp, le_max_of_le_right hLow, ?_, ?_⟩ ?_
  · exact fun hNe => absurd hBadge hNe
  · exact fun _ _ => ⟨hBadge, .inr hTask⟩
  · exact fun hHigh => absurd hLow (Nat.not_le.mpr hHigh)

/- The root table alone. -/
theorem sound_of_rootCnode (nic : Option Nat)
    (hMem : ∀ a, s.mem a = Capability.nullify ∨
      a.space = rootSpace ∧ s.mem a = rootCnode nic a.slot) :
    Sound s := by
  have hSlot : ∀ a, SoundAt s a (s.mem a) ∧ (s.mem a).serial ≤ minDerivedSerial := by
    intro a
    rcases hMem a with hNull | ⟨hRoot, hA⟩
    · rw [hNull]
      exact ⟨soundAt_nullify s a, Nat.zero_le _⟩
    rcases rootCnode_primordial nic a.slot with
      hNull | ⟨typ, rights, object, tag, hTag, hNew, hDone, hPrim⟩
    · rw [hA, hNull]
      exact ⟨soundAt_nullify s a, Nat.zero_le _⟩
    have hLow : (primordial typ rights object tag).serial ≤ minDerivedSerial := by
      simp only [primordial, minDerivedSerial]
      omega
    rw [hA, hPrim]
    refine ⟨⟨⟨hNew, hDone⟩, le_max_of_le_right hLow, ?_, ?_⟩, hLow⟩
    · exact fun hNe => absurd rfl hNe
    · exact fun _ _ => ⟨rfl, .inl hRoot⟩
  refine sound_of_slots (fun a => (hSlot a).1) ?_
  intro a b hHigh
  exact absurd (hSlot a).2 (Nat.not_le.mpr hHigh)

theorem sound_openBoot (cfg : BootConfig) : Sound ((preBoot cfg).openSpace 0 1) := by
  apply sound_of_rootCnode cfg.nic
  intro a
  simp only [openSpace, clearSpace, setTask, preBoot]
  split
  · exact .inl rfl
  split
  · rename_i hRoot
    exact .inr ⟨hRoot, rfl⟩
  · exact .inl rfl

theorem sound_bootCap (cfg : BootConfig) : Sound (bootCap cfg) := by
  have hBirth := boot_invariant Sound cfg (fun _ act hT hS hOk => hS.act hT act hOk)
    (sound_openBoot cfg)
  refine Sound.placeLow (Sound.placeLow hBirth ?_ ?_ rfl rfl) ?_ ?_ rfl rfl
  · simp [freshCap]
  · simp [freshCap, minDerivedSerial]
  · simp [freshCap]
  · simp [freshCap, minDerivedSerial]

theorem RunsWhile.sound {C : Sys → Op → Prop} {s s' : Sys}
    (hRun : RunsWhile C s s') (hTables : Tables s.cap)
    (hFit : RegionsFit s.obj) (hSound : Sound s.cap) :
    Tables s'.cap ∧ RegionsFit s'.obj ∧ Sound s'.cap :=
  hRun.invariant_always Sound (fun _ act hT hS hOk => hS.act hT act hOk) hTables hFit hSound

theorem Reachable.sound {cfg : BootConfig} {s : Sys} (hReach : Reachable cfg s) :
    Tables s.cap ∧ RegionsFit s.obj ∧ Sound s.cap :=
  RunsWhile.sound hReach (tables_bootCap cfg) (regionsFit_boot cfg) (sound_bootCap cfg)

/- Each action leaves a serial, drops it or writes the next. -/
theorem Sound.act_serial (hSound : Sound s)
    (hTables : Tables s) (act : Act) (hOk : act.Ok s) (b : Addr) :
    ((act.apply s).mem b).serial = 0 ∨ ((act.apply s).mem b).serial = (s.mem b).serial ∨
      ((act.apply s).mem b).serial = s.freshSerial := by
  have hWrite : ∀ (a : Addr) (c : Capability), c.serial = s.freshSerial →
        (update s.mem a c b).serial = (s.mem b).serial ∨ (update s.mem a c b).serial =
            s.freshSerial := by
    intro a c hSerial
    rcases eq_or_ne b a with rfl | hB
    · rw [update_self]
      exact .inr hSerial
    · rw [update_of_ne hB]
      exact .inl rfl
  by_cases hWrites : act.writes = true
  · cases act with
    | install _ a c => exact .inr (hWrite a c hOk.2.1)
    | place a c => exact .inr (hWrite a c hOk.2.1)
    | _ => cases hWrites
  · rcases hSound.act_lowered hTables act hOk (by simpa using hWrites) b with hB | ⟨top, _, hB⟩
    · exact .inl (congrArg _ hB)
    · rw [hB]
      exact .inr (.inl rfl)

/- The serials that `assign_fresh_serial` can return. -/
def Issued (n : Nat) : Prop := n ≠ 0 ∧ ∃ counter, (assignFreshSerial counter).1 = n

theorem Issued.lt (hIssued : Issued n) : minDerivedSerial < n := by
  rcases hIssued with ⟨hNe, counter, rfl⟩
  rcases assignFreshSerial_cases counter with ⟨hZero, _⟩ | ⟨hNew, _⟩
  · exact absurd hZero hNe
  · omega

/- The counter has passed `n`, so it is not issued again. -/
theorem freshSerial_ne (hIssued : Issued n) (hPassed : n ≤ max s.nextSerial minDerivedSerial) :
    s.freshSerial ≠ n := by
  have hLt := hIssued.lt
  rcases freshSerial_cases s with hZero | hNew <;> omega

/- The runs that can follow a state. -/
def Later (s s' : Sys) : Prop := RunsWhile (fun _ _ => True) s s'

section Later

variable {s s' : Sys} (hTables : Tables s.cap) (hFit : RegionsFit s.obj) {n : Nat}

include hTables hFit

theorem Later.passed (hLater : Later s s') (hPassed : n ≤ max s.cap.nextSerial minDerivedSerial) :
    n ≤ max s'.cap.nextSerial minDerivedSerial := by
  refine (RunsWhile.invariant_always (fun c => n ≤ max c.nextSerial minDerivedSerial) ?_
    hLater hTables hFit hPassed).2.2
  intro c act _ hc _
  have hCounter := act_counter c act
  omega

/- A serial that no slot holds any more stays away. -/
theorem Later.gone (hSound : Sound s.cap) (hIssued : Issued n) (hLater : Later s s')
    (hPassed : n ≤ max s.cap.nextSerial minDerivedSerial) (hGone : ∀ b, (s.cap.mem b).serial ≠ n) :
    ∀ b, (s'.cap.mem b).serial ≠ n := by
  refine (RunsWhile.invariant_always (fun c => Sound c ∧
      n ≤ max c.nextSerial minDerivedSerial ∧ ∀ b, (c.mem b).serial ≠ n) ?_
    hLater hTables hFit ⟨hSound, hPassed, hGone⟩).2.2.2.2
  rintro c act hT ⟨hS, hc, hNone⟩ hOk
  have hCounter := act_counter c act
  refine ⟨hS.act hT act hOk, by omega, ?_⟩
  intro b hEq
  rcases hS.act_serial hT act hOk b with hB | hB | hB
  · exact hIssued.1 (hEq.symm.trans hB)
  · exact hNone b (hB.symm.trans hEq)
  · exact freshSerial_ne hIssued hc (hB.symm.trans hEq)

end Later

/- Some slot has serial `k` and the nonzero badge `k'`. -/
def Edge (mem : CapMem) (k k' : Nat) : Prop := ∃ a, (mem a).serial = k ∧ (mem a).badge = k' ∧ k' ≠ 0

theorem Sound.edge_lt (hSound : Sound s) {k' : Nat}
    (hPath : TransGen (Edge s.mem) k k') : k' < k := by
  have hStep : ∀ x y, Edge s.mem x y → y < x := by
    rintro x y ⟨a, rfl, rfl, hNe⟩
    exact hSound.older a hNe
  induction hPath with
  | single hEdge => exact hStep _ _ hEdge
  | tail _ hEdge ih => exact (hStep _ _ hEdge).trans ih

/- A badge belongs to an issued serial, so to one slot. -/
theorem Sound.edge_unique (hSound : Sound s) {p p' : Nat}
    (hEdge : Edge s.mem k p) (hEdge' : Edge s.mem k p') : p = p' := by
  rcases hEdge with ⟨a, rfl, rfl, hNe⟩
  rcases hEdge' with ⟨b, hSame, rfl, _⟩
  have hOlder := hSound.older a hNe
  have hHigh : minDerivedSerial < (s.mem a).serial := by
    by_contra hLow
    exact hNe (hSound.low a (by omega) (Nat.not_lt.mp hLow)).1
  rw [hSound.unique a b hHigh hSame.symm]

/- Task 1 takes a root capability and mints a copy of it. -/
def mintOnce : List Op :=
  [.createTask 1 .kernel, .installFromRoot 1 30 13 4, .mint 1 31 30 Right.all]

end Horus
