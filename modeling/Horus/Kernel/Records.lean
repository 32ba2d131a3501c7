import Horus.Kernel.TaskTable

/-
  Which records an operation writes.

  A slot holds the same record after an operation as before,
  or it was emptied, or it holds a record that the operation
  has made. `Op.Makes` says what each operation can make: a
  copy of a capability that the caller holds, or a fresh one
  for an object of its own. Only the death of a task rewrites
  records, and then only their badges.
-/

namespace Horus

open CapState
open Function

variable {a : Addr} {origin : Origin}
    {pid serial object dest cur src child parent id space slot : Nat}
    {typ : CapType} {rights : Rights} {need P : Capability → Prop} {s : Sys}

/- A record for the same object, with no more rights. -/
structure CopyOf (src c : Capability) : Prop where
  typ : c.typ = src.typ
  object : c.object = src.object
  rights : hasRights src.rights c.rights = true
  serial : c.serial ≠ 0

theorem copyOf_derivedCap (src : Capability) (newRights : Rights)
    (hSerial : serial ≠ 0) : CopyOf src (derivedCap src newRights serial) :=
  ⟨rfl, rfl, hasRights_and _ _, hSerial⟩

theorem copyOf_tokenedCap {src : Capability} (newRights : Rights) (token : Nat)
    (hTyp : src.typ = .endpoint) (hSerial : serial ≠ 0) :
    CopyOf src (tokenedCap src newRights token serial) :=
  ⟨hTyp.symm, rfl, hasRights_and_and _ _ _, hSerial⟩

/- A capability that `create_task` gives the task. -/
def BirthCap (id : Nat) (c : Capability) : Prop :=
  c.typ = .tcb ∨ (c.typ = .frame ∧ c.object = 0x400000) ∨
    (c.typ = .endpoint ∧ c.object = replyEpBase + id ∧ replyEpBase + id < maxEndpoints)

/- A copy of the capability in slot `src` of `cur`. -/
def CopiedFrom (s : CapState) (cur src : Nat) (need : Capability → Prop) (c : Capability) : Prop :=
  ∃ b, s.Owns cur b ∧ b.slot = src ∧ need (s.mem b) ∧ CopyOf (s.mem b) c

def Op.Makes (s : Sys) : Op → Capability → Prop
  | .createTask id _ => BirthCap id
  | .spawnAborted id _ => BirthCap id
  | .fork parent child _ => fun c =>
    BirthCap child c ∨ ∃ src, CopiedFrom s.cap parent src (fun c => cloned src c = true) c
  | .installFromRoot _ _ rootSlot object => fun c =>
    c.typ = (s.cap.mem ⟨rootSpace, rootSlot⟩).typ ∧
      (c.typ ≠ .tcb → c.object = object) ∧ c.serial ≠ 0
  | .retype _ _ typ object => fun c => c.typ = typ ∧ c.object = object ∧ c.serial ≠ 0
  | .childTcb _ _ => fun c => c.typ = .tcb
  | .installReplyFor _ sender senderGen => fun c =>
    c.typ = .reply ∧ c.rights = Right.write ∧ c.object = packTask sender senderGen
  | .mint cur _ src _ | .transfer cur _ src =>
    CopiedFrom s.cap cur src (fun c => hasRights c.rights Right.mint = true)
  | .mintToken cur _ src _ _ => CopiedFrom s.cap cur src (fun c => c.typ = .endpoint)
  | .grant cur _ _ src => CopiedFrom s.cap cur src (fun c => c.typ ≠ .pipe)
  | .grantInto cur _ _ src _ => CopiedFrom s.cap cur src (fun _ => True)
  | .replyMint pid invSlot _ _ _ _ _ => CopiedFrom s.cap pid invSlot (fun c => c.typ = .endpoint)
  | .childPipeEnd _ _ spawner _ _ => fun c =>
    ∃ src, CopiedFrom s.cap spawner src (fun c => c.typ = .pipe) c
  | .pipe _ => fun c => c.typ = .pipe ∧ c.object = (pipeAlloc s.obj.pipes).1
  | .untypedSplit _ _ _ _ => fun c => c.typ = .untyped
  | .schedSplit _ _ _ _ _ _ _ _ allocated => fun c =>
    c.typ = .schedContext ∧ allocated = some c.object ∧ c.serial ≠ 0
  | _ => fun _ => False

----
-- Derivations
----

section Derivations

variable {s : CapState} (hTables : Tables s)

include hTables

/- The three derivations that need MINT on their source. -/
theorem writes_mintThrough {core : Nat → Option (CapMem × Nat)} (hRun : s.running cur = true)
    (hCore : ∀ space r, core space = some r →
      hasRights (s.mem ⟨space, src⟩).rights Right.mint = true →
      ∃ c, r.1 = update s.mem ⟨space, dest⟩ c ∧ need (s.mem ⟨space, src⟩) ∧
        CopyOf (s.mem ⟨space, src⟩) c) :
    Writes (CopiedFrom s cur src need) s (mintThrough s cur dest src origin core).2 := by
  refine (edits_mintThrough ?_).writes
  intro a d r hSlots hSome
  rcases hTables.mintSlots_eq_some hRun hSlots with ⟨hOwns, rfl, _, _, hRights, _, rfl, _⟩
  rcases hCore a.space r hSome hRights with ⟨c, hMem, hNeed, hCopy⟩
  exact ⟨c, hMem, a, hOwns, rfl, hNeed, hCopy⟩

end Derivations

----
-- Birth and Fork
----

section Birth

variable {s : CapState}

theorem writes_placeBirth (id space : Nat) : Writes (BirthCap id) s (s.placeBirth id space) := by
  have hPlace : ∀ (t t' : CapState) (a : Addr) (c : Capability), t'.mem = t.mem → BirthCap id c →
        Writes (BirthCap id) t (t'.place a c .birth) := by
    intro t t' a c hMem hCap
    refine writes_update (a := a) ?_ (.inr hCap)
    simp only [place, hMem]
  have hFirst := hPlace s s.burn.burn.burn ⟨space, 0⟩
    (freshCap .tcb Right.all (s.tcbObject id) s.freshSerial)
    rfl (.inl rfl)
  have hSecond := hFirst.trans (hPlace _ _ ⟨space, 3⟩ (freshCap .frame
        (Right.read ||| Right.write ||| Right.exec) 0x400000
        s.burn.freshSerial) rfl (.inr (.inl ⟨rfl, rfl⟩)))
  unfold placeBirth
  split
  · exact hSecond
  · refine hSecond.trans (hPlace _ _ _ _ rfl ?_)
    exact .inr (.inr ⟨rfl, rfl, by omega⟩)

/- The new space, which no other task has. -/
theorem Tables.createTask_cases (hTables : Tables s) (id : Nat) (source : CNodeSource) :
    ((createTask s id source).mem = s.mem ∧
        ((createTask s id source).tasks id).cspace = (s.tasks id).cspace) ∨
      ∃ space, ((createTask s id source).tasks id).cspace = some space ∧
        (∀ i, i ≠ id → (s.tasks i).cspace ≠ some space) ∧
        ∀ b, b.space ≠ space → (createTask s id source).mem b = s.mem b := by
  rcases hTables.createTask_eq source with hAge | ⟨space, hSpace, hBirth⟩
  · rw [hAge]
    simp [Act.apply, CapState.setTask, reviveTask]
  refine .inr ⟨space, ?_, ?_, ?_⟩
  · rw [hBirth, (placeBirth_tasks _ id space).1]
    exact openSpace_cspace s id space
  · intro i hNe hOwn
    rcases hSpace with hOld | rfl
    · exact hNe (hTables.own i id space hOwn hOld)
    · exact absurd (hTables.space i _ hOwn).2 (Nat.lt_irrefl _)
  · rw [hBirth]
    exact ((hatching_openSpace s id space).placeBirth id).outside

theorem Tables.writes_createTask (hTables : Tables s) (id : Nat) (source : CNodeSource) :
    Writes (BirthCap id) s (createTask s id source) := by
  rcases hTables.createTask_eq source with hAge | ⟨space, _, hBirth⟩
  · rw [hAge]
    exact writes_of_mem rfl
  rw [hBirth]
  refine Writes.trans ?_ (writes_placeBirth id space)
  intro a
  simp only [CapState.openSpace, CapState.clearSpace]
  split
  · exact .inr (.inl rfl)
  · exact .inl rfl

end Birth

theorem Tables.cspaceOrRoot_ne {s : CapState} (hTables : Tables s)
    (hSpace : (s.tasks parent).cspace = some space) (hNe : parent ≠ child) :
    space ≠ cspaceOrRoot s child := by
  rintro rfl
  unfold cspaceOrRoot at hSpace
  cases hChild : (s.tasks child).cspace with rw [hChild] at hSpace
  | none => exact absurd (hTables.space parent _ hSpace).1 (Nat.lt_irrefl 0)
  | some c => exact hNe (hTables.own parent child c hSpace hChild)

/- The copies are made from what the parent had before. -/
theorem Tables.writes_forkClone (hTables : Tables s.cap) (source : CNodeSource)
    (hRun : s.cap.running parent = true) (hFree : s.cap.freeSlot child = true) :
    Writes (fun c => ∃ src, CopiedFrom s.cap parent src (fun c => cloned src c = true) c)
      (createTask s.cap child source)
      (capCloneCspace { s with cap := createTask s.cap child source } parent child).2.cap := by
  have hNe : parent ≠ child := by
    rintro rfl
    simp only [running, freeSlot, decide_eq_true_eq] at hRun hFree
    exact hRun.2 hFree.2.2
  have hParent : (createTask s.cap child source).tasks parent = s.cap.tasks parent :=
    (newTask_createTask s.cap child source).other.tasks parent hNe
  -- The child's space is not the parent's, so the copies are of
  -- what the parent had.
  have hOld : ∀ (s' : CapState) p slot, (s.cap.tasks parent).cspace = some p →
      Confined (cspaceOrRoot (createTask s.cap child source) child)
        (createTask s.cap child source) s' →
      s'.mem ⟨p, slot⟩ = s.cap.mem ⟨p, slot⟩ := by
    intro s' p slot hP hConfined
    rcases hTables.createTask_cases child source with ⟨hMem, hAge⟩ | ⟨space, hSpace, hOther, hOut⟩
    · rw [hConfined.mem, hMem]
      unfold cspaceOrRoot
      rw [hAge]
      exact hTables.cspaceOrRoot_ne hP hNe
    · have hDiff : p ≠ space := by
        rintro rfl
        exact hOther parent hNe hP
      rw [hConfined.mem _ (by rwa [cspaceOrRoot_eq hSpace])]
      exact hOut _ hDiff
  refine (edits_capCloneCspace (s := { s with cap := createTask s.cap child source }) ?_).writes
  intro s' p slot serial hConfined hP hSlot hCloned hSerial
  rw [hParent] at hP
  rw [hOld s' p slot hP hConfined] at hCloned ⊢
  exact ⟨slot, ⟨p, slot⟩, ⟨hRun, hP, hSlot⟩, rfl, hCloned, copyOf_derivedCap _ _ hSerial⟩

theorem Tables.writes_hFork (hTables : Tables s.cap) (source : CNodeSource)
    (hRun : s.cap.running parent = true) (hFree : s.cap.freeSlot child = true) :
    Writes ((Op.fork parent child source).Makes s) s.cap (hFork s parent child source).2.cap := by
  have hBirth : Writes ((Op.fork parent child source).Makes s)
      s.cap (createTask s.cap child source) :=
    (hTables.writes_createTask child source).mono
      fun c hC => .inl hC
  have hClone := (hTables.writes_forkClone source hRun hFree).mono
      (Q := (Op.fork parent child source).Makes s)
      fun c hC => .inr hC
  unfold hFork
  dsimp only
  split
  · exact hBirth
  split
  · exact hBirth.trans hClone
  · exact (hBirth.trans hClone).trans (writes_of_mem rfl)

/-
  A task that has just been created holds nothing but its
  birth capabilities and copies of its parent's.
-/
theorem Tables.exec_birth (hTables : Tables s.cap) {op : Op} (hCreates : op.creates = some id)
    (hEnabled : enabled s.cap op = true) : ∃ source, Writes
        (fun c => ∃ parent src, CopiedFrom s.cap parent src (fun c => cloned src c = true) c)
        (createTask s.cap id source) (exec s op).2.cap ∧
      ((exec s op).2.cap.tasks id).cspace = ((createTask s.cap id source).tasks id).cspace ∧
      (((exec s op).2.cap.tasks id).state ≠ .dead →
        ((createTask s.cap id source).tasks id).state ≠ .dead) := by
  cases op with
  | createTask _ source =>
    cases hCreates
    exact ⟨source, writes_refl, rfl, fun hAlive => hAlive⟩
  | spawnAborted _ source =>
    cases hCreates
    refine ⟨source, writes_of_mem rfl, ?_, ?_⟩ <;>
      simp [exec, spawnAborted, abandonTask, CapState.setTask]
  | fork parent child source =>
    obtain rfl := Option.some.inj hCreates
    simp only [enabled, Bool.and_eq_true] at hEnabled
    have hClone := (hTables.writes_forkClone source hEnabled.1 hEnabled.2).mono
        (Q := fun c => ∃ parent src, CopiedFrom s.cap parent src (fun c => cloned src c = true) c)
        fun c hC => ⟨parent, hC⟩
    have hSame := sameTasks_capCloneCspace { s with cap := createTask s.cap child source } parent
      child
    refine ⟨source, ?_⟩
    simp only [exec, hFork]
    split
    · exact ⟨writes_refl, rfl, fun hAlive => hAlive⟩
    rename_i hAlive
    split
    · exact ⟨hClone, by rw [hSame.tasks], fun _ => hAlive⟩
    · refine ⟨hClone.trans (writes_of_mem rfl), ?_, fun _ => hAlive⟩
      simp [abandonTask, CapState.setTask, hSame.tasks]
  | _ => cases hCreates

/- Any slot but those of the birth capabilities is empty. -/
theorem Tables.createTask_slot {s : CapState} (hTables : Tables s) (id : Nat) (source : CNodeSource)
    (hSpace : ((createTask s id source).tasks id).cspace = some space)
    (hSlot : capslotReplyEp < slot) (hBound : slot < cnodeSize) :
    ((createTask s id source).mem ⟨space, slot⟩).typ = .null ∨
      ((createTask s id source).mem = s.mem ∧ (s.tasks id).cspace = some space) := by
  rcases hTables.createTask_eq source with hAge | ⟨space', _, hBirth⟩
  · right
    rw [hAge] at hSpace ⊢
    simpa [Act.apply, CapState.setTask, reviveTask] using hSpace
  left
  rw [hBirth, (placeBirth_tasks _ id space').1, openSpace_cspace s id space'] at hSpace
  obtain rfl := Option.some.inj hSpace
  have hNull := openSpace_null s id space' slot hBound
  simp only [capslotReplyEp] at hSlot
  have hOther : ∀ n, n ≤ 4 → (⟨space', slot⟩ : Addr) ≠ ⟨space', n⟩ := by
    intro n hN hEq
    rw [Addr.mk.injEq] at hEq
    omega
  rw [hBirth]
  unfold placeBirth
  split
  · simp only [place]
    rw [update_of_ne (hOther 3 (by omega)), update_of_ne (hOther 0 (by omega))]
    exact hNull
  · simp only [place, capslotReplyEp]
    rw [update_of_ne (hOther 4 (by omega)), update_of_ne (hOther 3 (by omega)),
      update_of_ne (hOther 0 (by omega))]
    exact hNull

/- A sweep leaves a slot alone or empties it. -/
theorem revokeSubtree_cases (spaces : List CSpaceDesc) (rs ro : Nat) (w : Sweep) (a : Addr) :
    (revokeSubtree spaces rs ro w).mem a = w.mem a ∨ (revokeSubtree spaces rs ro w).mem a =
        Capability.nullify := by
  obtain ⟨w', hMarked, hSweep⟩ : ∃ w', capMarking.MarksOnly
        ((slotRefs spaces).map SlotRef.addr) w.mem w'.mem ∧
      revokeSubtree spaces rs ro w = sweepLoop rs ro (slotRefs spaces) w' := by
    refine ⟨_, ?_, rfl⟩
    have hStart : capMarking.MarksOnly ((slotRefs spaces).map SlotRef.addr) w.mem w.mem :=
      fun _ => .inl rfl
    split
    · exact hStart
    · rw [promotePasses_mem, markChildrenOf_mem]
      exact (hStart.markKids rs).passes _
  rw [hSweep, sweepLoop_mem_apply]
  split
  · exact .inr rfl
  rename_i hHit
  rcases hMarked a with hSame | ⟨hMem, hMark⟩
  · exact .inl hSame
  -- A marked slot is not empty, so the sweep hits it.
  rw [capMarking_marked] at hMark
  refine absurd ⟨hMem, ?_, ?_⟩ hHit
  · intro hNull
    simp [hNull] at hMark
  · simp only [sweepHit, hMark, Bool.true_or]

theorem rustCapRevokeGlobal_cases (space size slot : Nat) (counter : Option Nat)
    (spaces : List CSpaceDesc) (w : Sweep) (a : Addr) :
    (rustCapRevokeGlobal space size slot counter spaces w).2.mem a = w.mem a ∨
      (rustCapRevokeGlobal space size slot counter spaces w).2.mem a = Capability.nullify := by
  unfold rustCapRevokeGlobal
  split
  · exact .inl rfl
  split
  · exact .inl rfl
  dsimp only
  split
  · exact .inl rfl
  rcases revokeSubtree_cases spaces (w.mem ⟨space, slot⟩).serial (w.mem ⟨space, slot⟩).object
      { mem := update w.mem ⟨space, slot⟩ Capability.nullify
        capsInUse := decrementInUse counter w.capsInUse
        tally := w.tally.note (w.mem ⟨space, slot⟩) } a with
    hSame | hNull
  · rw [hSame]
    dsimp only
    by_cases hEq : a = ⟨space, slot⟩
    · subst hEq
      rw [update_self]
      exact .inr rfl
    · rw [update_of_ne hEq]
      exact .inl rfl
  · exact .inr hNull

theorem writes_capRevoke (s : Sys) (cur slot : Nat) :
    Writes P s.cap (capRevoke s cur slot).2.cap := by
  simp only [capRevoke]
  iterate 4
    split
    · exact writes_refl
  intro a
  dsimp only
  rcases rustCapRevokeGlobal_cases (cspaceOrRoot s.cap cur) (s.cap.tasks cur).cspaceSz slot
      (if cspaceOrRoot s.cap cur = rootSpace then none
        else some cur)
      (revokeSpaces s.cap)
      { mem := s.cap.mem, capsInUse := s.cap.capsInUse, tally := zeroTally } a with hSame | hNull
  · exact .inl hSame
  · rw [hNull]
    exact .inr (.inl rfl)

----
-- All Operations
----

theorem Tables.exec_writes (hTables : Tables s.cap) (op : Op) (hEnabled : enabled s.cap op = true)
    (hLife : ∀ id scratch, op ≠ .teardown id scratch) :
    Writes (op.Makes s) s.cap (exec s op).2.cap := by
  cases op with
  | createTask id source => exact hTables.writes_createTask id source
  | spawnAborted id source => exact (hTables.writes_createTask id source).trans (writes_of_mem rfl)
  | fork _ _ source =>
    simp only [enabled, Bool.and_eq_true] at hEnabled
    exact hTables.writes_hFork source hEnabled.1 hEnabled.2
  | teardown id scratch => exact absurd rfl (hLife id scratch)
  | installFromRoot =>
    exact (edits_capInstallFromRoot fun _ hTyp hObject hSerial => ⟨hTyp, hObject, hSerial⟩).writes
  | retype => exact (edits_capInstallObject fun _ hSerial => ⟨rfl, rfl, hSerial⟩).writes
  | childTcb => exact (edits_capInstallObjectFirstFree fun _ => rfl).writes
  | installReplyFor => exact (edits_capInstallReplyFor fun _ => ⟨rfl, rfl, rfl⟩).writes
  | consumeReply => exact edits_capConsumeSlot.writes
  | mint | transfer =>
    simp only [exec, Sys.liftCap, capMint, capTransfer, Op.Makes]
    apply writes_mintThrough hTables hEnabled
    intro space r hSome hRights
    rcases rustCapMint_eq_some hSome with ⟨hMem, _, _, _, _, _, hFresh⟩
    exact ⟨_, congrArg Prod.fst hMem, hRights, copyOf_derivedCap _ _ hFresh⟩
  | mintToken =>
    simp only [exec, Sys.liftCap, capMintToken, Op.Makes]
    apply writes_mintThrough hTables hEnabled
    intro space r hSome _
    rcases rustCapMintToken_eq_some hSome with ⟨hMem, _, _, hTyp, _, _, _, hFresh⟩
    exact ⟨_, congrArg Prod.fst hMem, hTyp, copyOf_tokenedCap _ _ hTyp hFresh⟩
  | grant =>
    refine (edits_hCapGrant ?_).writes
    intro a serial hSpace hSlot hBound hPipe hSerial
    exact ⟨a, ⟨hEnabled, hSpace, hSlot ▸ hBound⟩, hSlot, hPipe rfl, copyOf_derivedCap _ _ hSerial⟩
  | grantInto =>
    simp only [enabled, Bool.and_eq_true] at hEnabled
    refine (edits_capGrantCommon ?_).writes
    intro a serial hSpace hSlot hBound _ hSerial
    exact ⟨a, ⟨hEnabled.1, hSpace, hSlot ▸ hBound⟩, hSlot, trivial, copyOf_derivedCap _ _ hSerial⟩
  | replyMint pid =>
    refine (edits_capReplyMintInto ?_).writes
    intro inv serial hSpace hSlot hBound hTyp hSerial
    have hSz := hTables.cspaceSz pid (by simp [hSpace])
    exact ⟨inv, ⟨hEnabled, hSpace, by omega⟩, hSlot, hTyp, copyOf_tokenedCap _ _ hTyp hSerial⟩
  | childPipeEnd =>
    simp only [enabled, Bool.and_eq_true] at hEnabled
    refine (edits_capInstallChildPipeEnd ?_).writes
    intro a d c hSlots hTyp hRights hObject hSerial
    rcases hTables.childEndSlots_eq_some hEnabled.1 hEnabled.2 hSlots with ⟨hOwns, _, hEnd, hHas, _⟩
    exact ⟨a.slot, a, hOwns, rfl, hEnd, ⟨hTyp.trans hEnd.symm, hObject, hRights ▸ hHas, hSerial⟩⟩
  | pipe => exact (edits_hPipe fun _ _ => ⟨rfl, rfl⟩).writes
  | pipeClose => exact edits_hPipeClose.writes
  | untypedSplit => exact (edits_untypedSplit fun _ hTyp => hTyp).writes
  | schedSplit =>
    exact (edits_schedSplit fun _ hTyp hObject hSerial => ⟨hTyp, hObject, hSerial⟩).writes
  | revoke cur slot => exact writes_capRevoke s cur slot
  | kobj => exact writes_refl

----
-- Death
----

/- Equal but for the badge. -/
structure SameRecord (c c' : Capability) : Prop where
  typ : c'.typ = c.typ
  rights : c'.rights = c.rights
  object : c'.object = c.object
  serial : c'.serial = c.serial

theorem SameRecord.refl (c : Capability) : SameRecord c c := ⟨rfl, rfl, rfl, rfl⟩

theorem rustCapReparentDying_record (dying size : Nat) (spaces : List CSpaceDesc)
    (scratch : Scratch) (scratchLen : Nat) (mem : CapMem) (a : Addr) :
    SameRecord (mem a) ((rustCapReparentDying dying size spaces scratch scratchLen mem).1 a) := by
  unfold rustCapReparentDying
  dsimp only
  split
  · exact SameRecord.refl _
  rw [reparentLoop_mem]
  generalize survivors dying (slotRefs spaces) = cells
  -- Each visited record is rewritten in its badge only.
  suffices hLoop : ∀ m : CapMem, SameRecord (mem a) (m a) →
      SameRecord (mem a) (Lib.updateWhere _ _ cells m a) from
    hLoop mem (SameRecord.refl _)
  induction cells with
  | nil => exact fun m hM => hM
  | cons b _ ih =>
  intro m hM
  rw [Lib.updateWhere]
  split
  · apply ih
    rcases eq_or_ne a b with rfl | hEq
    · rw [update_self]
      exact { hM with }
    · rw [update_of_ne hEq]
      exact hM
  · exact ih m hM

theorem releaseCspace_records (s : CapState) (id : Nat) (scratch : Scratch) (a : Addr) :
    ((releaseCspace s id scratch).mem a).typ = .null ∨ SameRecord (s.mem a)
        ((releaseCspace s id scratch).mem a) := by
  unfold releaseCspace
  split
  · exact .inr (SameRecord.refl _)
  split
  · exact .inr (SameRecord.refl _)
  dsimp only
  split
  · exact .inl rfl
  · exact .inr (rustCapReparentDying_record _ _ _ scratch _ s.mem a)

/- After a death a slot is empty or keeps its record. -/
theorem taskTeardown_records (s : Sys) (id : Nat) (scratch : Scratch) (a : Addr) :
    ((taskTeardown s id scratch).cap.mem a).typ = .null ∨
      SameRecord (s.cap.mem a) ((taskTeardown s id scratch).cap.mem a) := by
  have hClose : ∀ s' : Sys, Writes (fun _ => False) s.cap s'.cap →
      ((releaseCspace (abandonTask s'.cap id) id scratch).mem a).typ = .null ∨
        SameRecord (s.cap.mem a) ((releaseCspace (abandonTask s'.cap id) id scratch).mem a) := by
    intro s' hWrites
    have hOld : (s'.cap.mem a).typ = .null ∨ SameRecord (s.cap.mem a) (s'.cap.mem a) := by
      rcases hWrites a with hSame | hNull | hNone
      · rw [hSame]
        exact .inr (SameRecord.refl _)
      · exact .inl hNull
      · exact hNone.elim
    rcases releaseCspace_records (abandonTask s'.cap id) id scratch a with hNull | hRecord
    · exact .inl hNull
    rcases hOld with hNull | hSame
    · exact .inl (hRecord.typ.trans hNull)
    exact .inr ⟨hRecord.typ.trans hSame.typ, hRecord.rights.trans hSame.rights,
        hRecord.object.trans hSame.object,
        hRecord.serial.trans hSame.serial⟩
  unfold taskTeardown
  split
  · exact .inr (SameRecord.refl _)
  apply hClose
  split
  · exact writes_refl
  split
  · exact writes_refl
  · exact (edits_pipeCloseTaskEnds _ _ _ _ _).writes

theorem releaseCspace_slot {s : CapState} (scratch : Scratch)
    (hUser : id ≠ 0) (hMax : id < s.maxTasks) (hSpace : (s.tasks id).cspace = some space)
    (hSlot : slot < (s.tasks id).cspaceSz) (hBound : slot < cnodeSize) :
    (releaseCspace s id scratch).mem ⟨space, slot⟩ =
      Capability.nullify := by
  unfold releaseCspace
  rw [if_neg (by omega)]
  simp only [hSpace]
  exact if_pos ⟨trivial, lt_min hSlot hBound⟩

/- The dead task's own slots are empty. -/
theorem Tables.taskTeardown_slot (hTables : Tables s.cap) (scratch : Scratch) (hUser : id ≠ 0)
    (hAlive : (s.cap.tasks id).state ≠ .dead) (hSpace : (s.cap.tasks id).cspace = some space)
    (hSlot : slot < cnodeSize) : (taskTeardown s id scratch).cap.mem ⟨space, slot⟩ =
      Capability.nullify := by
  have hMax := (hTables.live id hAlive).2
  have hSz := hTables.cspaceSz id (by simp [hSpace])
  have hClosed := sameTasks_pipeCloseTaskEnds id space
    (s.cap.tasks id).cspaceSz (s.cap.tasks id).cspaceSz s
  unfold taskTeardown
  rw [if_neg hAlive]
  simp only [hSpace]
  rw [if_neg (by omega)]
  apply releaseCspace_slot scratch hUser
  · simpa [abandonTask, CapState.setTask, hClosed.maxTasks] using hMax
  · simp [abandonTask, CapState.setTask, hClosed.tasks, hSpace]
  · simp only [abandonTask, CapState.setTask, hClosed.tasks, update_self]
    exact hSz ▸ hSlot
  · exact hSlot

end Horus
