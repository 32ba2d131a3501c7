import Horus.Kernel.Invariants

/-
  Which operations change the task table.

  Most leave it alone. The creation of a task changes its own
  slot, and so does a death; the slot keeps its capability
  space.
-/

namespace Horus

open Function

variable {s' s s'' : CapState} {id : Nat}

/- The task that an operation creates. -/
def Op.creates : Op → Option Nat
  | .createTask id _ => some id
  | .spawnAborted id _ => some id
  | .fork _ id _ => some id
  | _ => none

/- Operations that are not about a task as a whole. -/
def Op.plain : Op → Bool
  | .createTask _ _ => false
  | .spawnAborted _ _ => false
  | .fork _ _ _ => false
  | .teardown _ _ => false
  | _ => true

theorem Op.plain_of_creates {op : Op} (hCreates : op.creates = none)
    (hLife : ∀ id scratch, op ≠ .teardown id scratch) : op.plain = true := by
  cases op with
  | teardown id scratch => exact absurd rfl (hLife id scratch)
  | createTask | spawnAborted | fork => cases hCreates
  | _ => rfl

----
-- Operations That Leave the Table Alone
----

structure SameTasks (s s' : CapState) : Prop where
  tasks : s'.tasks = s.tasks
  maxTasks : s'.maxTasks = s.maxTasks

theorem SameTasks.refl (s : CapState) : SameTasks s s := ⟨rfl, rfl⟩

/- Only the space `space` has been written. -/
structure Confined (space : Nat) (s s' : CapState) : Prop where
  mem : ∀ a, a.space ≠ space → s'.mem a = s.mem a
  tasks : s'.tasks = s.tasks
  maxTasks : s'.maxTasks = s.maxTasks
  nextSpace : s'.nextSpace = s.nextSpace

theorem Confined.same {space : Nat} (hConfined : Confined space s s') : SameTasks s s' :=
  ⟨hConfined.tasks, hConfined.maxTasks⟩

theorem Confined.refl {space : Nat} : Confined space s s := ⟨fun _ _ => rfl, rfl, rfl, rfl⟩

theorem Confined.trans {space : Nat} (hFirst : Confined space s s')
    (hSecond : Confined space s' s'') : Confined space s s'' where
  mem := fun a hA => (hSecond.mem a hA).trans (hFirst.mem a hA)
  tasks := hSecond.tasks.trans hFirst.tasks
  maxTasks := hSecond.maxTasks.trans hFirst.maxTasks
  nextSpace := hSecond.nextSpace.trans hFirst.nextSpace

/- Every record is old, or empty, or satisfies `P`. -/
def Writes (P : Capability → Prop) (s s' : CapState) : Prop :=
  ∀ a, s'.mem a = s.mem a ∨ (s'.mem a).typ = .null ∨ P (s'.mem a)

section Writes

variable {P : Capability → Prop}

theorem writes_of_mem (hMem : s'.mem = s.mem) : Writes P s s' := fun a => .inl (congrFun hMem a)

theorem writes_refl : Writes P s s := writes_of_mem rfl

theorem writes_update {a : Addr} {c : Capability} (hMem : s'.mem = update s.mem a c)
    (hMade : c.typ = .null ∨ P c) : Writes P s s' := by
  intro b
  rw [hMem]
  by_cases hEq : b = a
  · subst hEq
    rw [update_self]
    exact .inr hMade
  · rw [update_of_ne hEq]
    exact .inl rfl

theorem Writes.trans (hFirst : Writes P s s') (hSecond : Writes P s' s'') : Writes P s s'' := by
  intro a
  rcases hSecond a with hSame | hNew
  · rw [hSame]
    exact hFirst a
  · exact .inr hNew

theorem Writes.mono {Q : Capability → Prop} (hWrites : Writes P s s')
    (hImp : ∀ c, P c → Q c) : Writes Q s s' := by
  intro a
  rcases hWrites a with hSame | hNull | hMade
  · exact .inl hSame
  · exact .inr (.inl hNull)
  · exact .inr (.inr (hImp _ hMade))

end Writes

/- The writes of a call all go to one space. -/
structure Edits (space : Nat) (P : Capability → Prop) (s s' : CapState) : Prop where
  confined : Confined space s s'
  writes : Writes P s s'

section Edits

variable {space slot cur pid dest src object : Nat} {P : Capability → Prop} {origin : Origin}
    {typ : CapType} {rights : Rights}

theorem Edits.refl : Edits space P s s := ⟨Confined.refl, writes_refl⟩

theorem Edits.trans (hFirst : Edits space P s s') (hSecond : Edits space P s' s'') :
    Edits space P s s'' :=
  ⟨hFirst.confined.trans hSecond.confined, hFirst.writes.trans hSecond.writes⟩

theorem edits_burn : Edits space P s s.burn := ⟨⟨fun _ _ => rfl, rfl, rfl, rfl⟩, writes_of_mem rfl⟩

theorem edits_update {c : Capability} (hMem : s'.mem = update s.mem ⟨space, slot⟩ c)
    (hMade : c.typ = .null ∨ P c) (hTasks : s'.tasks = s.tasks) (hMax : s'.maxTasks = s.maxTasks)
    (hNext : s'.nextSpace = s.nextSpace) : Edits space P s s' := by
  refine ⟨⟨?_, hTasks, hMax, hNext⟩, writes_update hMem hMade⟩
  intro a hA
  rw [hMem]
  apply update_of_ne
  rintro rfl
  exact hA rfl

theorem cspaceOrRoot_eq (hSpace : (s.tasks cur).cspace = some space) :
    cspaceOrRoot s cur = space := by
  simp [cspaceOrRoot, hSpace]

/- A slot of the task that the call is for. -/
theorem edits_install {c : Capability} {source : Option Capability}
    (hSpace : (s.tasks cur).cspace = some space) (hMade : P c) :
    Edits (cspaceOrRoot s cur) P s (s.burn.install pid ⟨space, slot⟩ c origin source) := by
  rw [cspaceOrRoot_eq hSpace]
  exact edits_update rfl (.inr hMade) rfl rfl rfl

theorem edits_erase (hSpace : (s.tasks cur).cspace = some space) :
    Edits (cspaceOrRoot s cur) P s (s.erase pid ⟨space, slot⟩) := by
  rw [cspaceOrRoot_eq hSpace]
  unfold CapState.erase
  split
  · exact Edits.refl
  · exact edits_update rfl (.inl rfl) rfl rfl rfl

/- A derivation of the core writes one slot. -/
theorem edits_commit {source : Capability} {result : Option (CapMem × Nat)}
    (hResult : ∀ r, result = some r → ∃ c, r.1 = update s.mem ⟨space, slot⟩ c ∧ P c) :
    Edits space P s (s.commit pid ⟨space, slot⟩ origin source result).2 := by
  unfold CapState.commit
  split
  · exact Edits.refl
  · rcases hResult _ rfl with ⟨c, hMem, hMade⟩
    exact edits_update hMem (.inr hMade) rfl rfl rfl

theorem edits_capInstallObject (hMade : ∀ serial, serial ≠ 0 → P (freshCap typ rights object serial)) :
    Edits (cspaceOrRoot s cur) P s (capInstallObject s cur dest typ object rights origin).2 := by
  unfold capInstallObject
  split
  · exact edits_burn
  rename_i hSerial
  repeat' split
  · exact edits_burn
  · exact edits_burn
  · exact edits_burn
  · exact edits_install ‹_› (hMade _ hSerial)

theorem edits_capInstallDerivedObject {srcSerial : Nat} {srcType : CapType}
    (hMade : ∀ c, c.typ = srcType → c.object = object → c.serial ≠ 0 → P c) :
    Edits (cspaceOrRoot s cur) P s
      (capInstallDerivedObject s cur dest src srcSerial srcType object rights origin).2 := by
  simp only [capInstallDerivedObject]
  split
  · exact edits_burn
  rename_i hSerial
  repeat' split
  · exact edits_burn
  · exact edits_burn
  · exact edits_burn
  · exact edits_install ‹_› (hMade _ rfl rfl hSerial)

theorem edits_capInstallObjectFirstFree {minSlot : Nat}
    (hMade : ∀ serial, P (freshCap typ rights object serial)) : Edits (cspaceOrRoot s cur) P s
      (capInstallObjectFirstFree s cur minSlot typ object rights origin).2 := by
  unfold capInstallObjectFirstFree
  repeat' split
  all_goals first
    | exact edits_burn
    | exact edits_install ‹_› (hMade _)

theorem edits_capInstallReplyFor {sender senderGen : Nat}
    (hMade : ∀ serial, P (freshCap .reply Right.write (packTask sender senderGen) serial)) :
    Edits (cspaceOrRoot s pid) P s (capInstallReplyFor s pid sender senderGen).2 := by
  unfold capInstallReplyFor
  repeat' split
  all_goals first
    | exact Edits.refl
    | exact edits_burn
    | exact edits_install ‹_› (hMade _)

theorem edits_capConsumeSlot : Edits (cspaceOrRoot s cur) P s (capConsumeSlot s cur dest).2 := by
  unfold capConsumeSlot
  repeat' split
  · exact Edits.refl
  · exact Edits.refl
  · exact edits_erase ‹_›

theorem edits_capConsumeSlotOf :
    Edits (cspaceOrRoot s pid) P s (capConsumeSlotOf s pid slot).2 := by
  unfold capConsumeSlotOf
  repeat' split
  · exact Edits.refl
  · exact Edits.refl
  · exact Edits.refl
  · exact edits_erase ‹_›

theorem edits_mintThrough {core : Nat → Option (CapMem × Nat)}
    (hCore : ∀ a d r, mintSlots s cur dest src = some (a, d) → core d.space = some r →
      ∃ c, r.1 = update s.mem ⟨d.space, dest⟩ c ∧ P c) :
    Edits (cspaceOrRoot s cur) P s (mintThrough s cur dest src origin core).2 := by
  unfold mintThrough
  split
  · exact Edits.refl
  rename_i a d hSlots
  obtain rfl : d = ⟨cspaceOrRoot s cur, dest⟩ := by
    simp only [mintSlots] at hSlots
    repeat' split at hSlots
    all_goals try cases hSlots
    rfl
  exact edits_commit fun r hSome => hCore a _ r hSlots hSome

theorem edits_capReplyMintInto {invSlot invSerial epIndex token : Nat}
    (hMade : ∀ inv serial, (s.tasks pid).cspace = some inv.space → inv.slot = invSlot →
      invSlot < (s.tasks pid).cspaceSz → (s.mem inv).typ = .endpoint → serial ≠ 0 →
      P (tokenedCap (s.mem inv) rights token serial)) : Edits (cspaceOrRoot s pid) P s
      (capReplyMintInto s pid invSlot invSerial epIndex dest rights token).2 := by
  simp only [capReplyMintInto]
  repeat' split
  all_goals try exact Edits.refl
  rename_i space hSpace hBounds _ _
  rw [cspaceOrRoot_eq hSpace]
  apply edits_commit
  intro r hSome
  rcases rustCapReplyMint_eq_some hSome with ⟨hMem, _, hTyp, _, _, hFresh⟩
  exact ⟨_, congrArg Prod.fst hMem, hMade _ _ hSpace rfl (by omega) hTyp hFresh⟩

theorem edits_capGrantCommon {target : Nat} {fromUser : Bool}
    (hMade : ∀ a serial, (s.tasks cur).cspace = some a.space → a.slot = src → src < cnodeSize →
      (fromUser = true → (s.mem a).typ ≠ .pipe) → serial ≠ 0 →
      P (derivedCap (s.mem a) rights serial)) : Edits (cspaceOrRoot s target) P s
      (capGrantCommon s cur target dest src rights fromUser).2 := by
  simp only [capGrantCommon]
  iterate 3
    split
    · exact Edits.refl
  split
  swap
  · exact Edits.refl
  rename_i srcSpace dstSpace hSrc hDst
  split
  · exact Edits.refl
  rename_i a hLook
  split
  · exact Edits.refl
  rw [rustCapLookup_eq_some_iff] at hLook
  rcases hLook with ⟨hEq, hSlot, _⟩
  rw [cspaceOrRoot_eq hDst]
  apply edits_commit
  intro r hSome
  -- Both grants are the one core, the user's behind a check.
  have hGrant : rustCapGrantInto s.mem s.nextSerial (some a) (some dstSpace)
        (s.tasks target).cspaceSz dest rights = some r ∧
      (fromUser = true → (s.mem a).typ ≠ .pipe) := by
    cases fromUser with
    | true =>
      have hBoth := rustCapGrantFromUser_eq_some hSome
      exact ⟨hBoth.1, fun _ => hBoth.2⟩
    | false =>
      refine ⟨hSome, ?_⟩
      intro hTrue
      cases hTrue
  rcases rustCapGrantInto_eq_some hGrant.1 with ⟨hMem, _, _, _, _, hFresh⟩
  exact ⟨_, congrArg Prod.fst hMem, hMade a _ (hSrc.trans hEq) hSlot (by omega) hGrant.2 hFresh⟩

theorem edits_hCapGrant {target : Nat}
    (hMade : ∀ a serial, (s.tasks cur).cspace = some a.space → a.slot = src → src < cnodeSize →
      (true = true → (s.mem a).typ ≠ .pipe) → serial ≠ 0 →
      P (derivedCap (s.mem a) Right.all serial)) :
    Edits (cspaceOrRoot s target) P s (hCapGrant s cur target dest src).2 := by
  unfold hCapGrant
  split
  · exact Edits.refl
  split
  · exact Edits.refl
  · exact edits_capGrantCommon hMade

theorem edits_capInstallFromRoot {rootSlot : Nat}
    (hMade : ∀ c, c.typ = (s.mem ⟨rootSpace, rootSlot⟩).typ → (c.typ ≠ .tcb → c.object = object) →
      c.serial ≠ 0 → P c) :
    Edits (cspaceOrRoot s pid) P s (capInstallFromRoot s pid slot rootSlot object).2 := by
  simp only [capInstallFromRoot]
  split
  · exact Edits.refl
  split
  · exact Edits.refl
  split
  · exact Edits.refl
  split
  · exact edits_burn
  rename_i hSerial
  rw [cspaceOrRoot_eq ‹_›]
  refine edits_update rfl (.inr (hMade _ rfl ?_ hSerial)) rfl rfl rfl
  intro hTyp
  exact if_neg hTyp

theorem edits_capInstallChildPipeEnd {s : Sys} {child spawner : Nat}
    (hMade : ∀ a d c, childEndSlots s.cap child dest spawner src rights = some (a, d) →
      c.typ = .pipe → c.rights = rights → c.object = (s.cap.mem a).object → c.serial ≠ 0 → P c) :
    Edits (cspaceOrRoot s.cap child) P s.cap
      (capInstallChildPipeEnd s child dest spawner src rights).2.cap := by
  simp only [capInstallChildPipeEnd]
  split
  · exact Edits.refl
  split
  · exact edits_burn
  rename_i hSerial
  split
  · exact edits_burn
  rename_i a d hSlots
  split
  · exact edits_burn
  have hCap := fun c => hMade a d c hSlots
  simp only [childEndSlots] at hSlots
  repeat' split at hSlots
  all_goals cases hSlots
  exact edits_install ‹_› (hCap _ rfl rfl rfl hSerial)

theorem cspaceOrRoot_congr (hTasks : s'.tasks = s.tasks) (cur : Nat) :
    cspaceOrRoot s' cur = cspaceOrRoot s cur := by
  unfold cspaceOrRoot
  rw [hTasks]

theorem edits_hPipe {s : Sys}
    (hMade : ∀ rights serial, P (freshCap .pipe rights (pipeAlloc s.obj.pipes).1 serial)) :
    Edits (cspaceOrRoot s.cap cur) P s.cap (hPipe s cur).2.cap := by
  simp only [hPipe]
  split
  · exact Edits.refl
  split
  · exact Edits.refl
  have hEnd : ∀ t rights, Edits (cspaceOrRoot s.cap cur) P s.cap t →
      Edits (cspaceOrRoot s.cap cur) P s.cap (capInstallObjectFirstFree t cur capslotDynamicFirst
        .pipe (pipeAlloc s.obj.pipes).1 rights .pipeEnd).2 := by
    intro t rights hBefore
    refine hBefore.trans ?_
    rw [← cspaceOrRoot_congr hBefore.confined.tasks]
    exact edits_capInstallObjectFirstFree (hMade rights)
  have hReader := hEnd s.cap (Right.read ||| Right.revoke) Edits.refl
  split
  · exact hReader
  have hWriter := hEnd _ (Right.write ||| Right.revoke) hReader
  split
  · refine hWriter.trans ?_
    rw [← cspaceOrRoot_congr hWriter.confined.tasks]
    exact edits_capConsumeSlotOf
  · exact hWriter

theorem edits_hPipeClose {s : Sys} :
    Edits (cspaceOrRoot s.cap cur) P s.cap (hPipeClose s cur slot).2.cap := by
  simp only [hPipeClose]
  repeat' split
  all_goals exact edits_capConsumeSlotOf

theorem edits_untypedSplit {s : Sys} {bytes : Nat} (hMade : ∀ c, c.typ = .untyped → P c) :
    Edits (cspaceOrRoot s.cap cur) P s.cap (untypedSplit s cur src dest bytes).2.cap := by
  simp only [untypedSplit, capMintUntypedChild]
  repeat' split
  all_goals first
    | exact Edits.refl
    | exact edits_burn
    | exact edits_install ‹_› (hMade _ rfl)

theorem edits_schedSplit {s : Sys} {parentSlot untypedSlot budgetUs periodUs : Nat}
    {slack badFlags : Bool} {allocated : Option Nat}
    (hMade : ∀ c, c.typ = .schedContext → allocated = some c.object → c.serial ≠ 0 → P c) :
    Edits (cspaceOrRoot s.cap cur) P s.cap (schedSplit s cur parentSlot untypedSlot dest budgetUs
      periodUs slack badFlags allocated).2.cap := by
  simp only [schedSplit]
  repeat' split
  all_goals first
    | exact Edits.refl
    | exact edits_capInstallDerivedObject fun c hTyp hObject hSerial =>
      hMade c hTyp (congrArg some hObject.symm) hSerial

theorem sameTasks_capInstallReplyFor (s : CapState) (pid sender senderGen : Nat) :
    SameTasks s (capInstallReplyFor s pid sender senderGen).2 :=
  (edits_capInstallReplyFor (P := fun _ => True) fun _ => trivial).confined.same

theorem sameTasks_capConsumeSlot (s : CapState) (cur dest : Nat) :
    SameTasks s (capConsumeSlot s cur dest).2 :=
  (edits_capConsumeSlot (P := fun _ => True)).confined.same

theorem sameTasks_capReplyMintInto (s : CapState) (pid invSlot invSerial epIndex dest : Nat)
    (rights : Rights) (token : Nat) :
    SameTasks s (capReplyMintInto s pid invSlot invSerial epIndex dest rights token).2 :=
  (edits_capReplyMintInto (P := fun _ => True) fun _ _ _ _ _ _ _ => trivial).confined.same

/- The task whose space an operation writes. -/
def Op.writer : Op → Option Nat
  | .installFromRoot pid _ _ _ | .installReplyFor pid _ _ | .replyMint pid _ _ _ _ _ _ => some pid
  | .retype cur _ _ _ | .childTcb cur _ | .consumeReply cur | .mint cur _ _ _
  | .mintToken cur _ _ _ _ | .transfer cur _ _ | .pipe cur | .pipeClose cur _
  | .untypedSplit cur _ _ _ | .schedSplit cur _ _ _ _ _ _ _ _ => some cur
  | .grant _ target _ _ | .grantInto _ target _ _ _ => some target
  | .childPipeEnd child _ _ _ _ => some child
  | _ => none

/- That holds whether or not the task is still alive. -/
theorem exec_confined {s : Sys} {op : Op} (hWriter : op.writer = some pid) :
    Confined (cspaceOrRoot s.cap pid) s.cap (exec s op).2.cap := by
  refine Edits.confined (P := fun _ => True) ?_
  cases op with cases hWriter
  | installFromRoot => exact edits_capInstallFromRoot fun _ _ _ _ => trivial
  | retype => exact edits_capInstallObject fun _ _ => trivial
  | childTcb => exact edits_capInstallObjectFirstFree fun _ => trivial
  | installReplyFor => exact edits_capInstallReplyFor fun _ => trivial
  | consumeReply => exact edits_capConsumeSlot
  | mint | transfer =>
    apply edits_mintThrough
    intro a d r _ hSome
    exact ⟨_, congrArg Prod.fst (rustCapMint_eq_some hSome).1, trivial⟩
  | mintToken =>
    apply edits_mintThrough
    intro a d r _ hSome
    exact ⟨_, congrArg Prod.fst (rustCapMintToken_eq_some hSome).1, trivial⟩
  | grant => exact edits_hCapGrant fun _ _ _ _ _ _ _ => trivial
  | grantInto => exact edits_capGrantCommon fun _ _ _ _ _ _ _ => trivial
  | replyMint => exact edits_capReplyMintInto fun _ _ _ _ _ _ _ => trivial
  | childPipeEnd => exact edits_capInstallChildPipeEnd fun _ _ _ _ _ _ _ _ => trivial
  | pipe => exact edits_hPipe fun _ _ => trivial
  | pipeClose => exact edits_hPipeClose
  | untypedSplit => exact edits_untypedSplit fun _ _ => trivial
  | schedSplit => exact edits_schedSplit fun _ _ _ _ => trivial

end Edits

theorem exec_sameTasks (s : Sys) (op : Op) (hPlain : op.plain = true) :
    SameTasks s.cap (exec s op).2.cap := by
  cases hWriter : op.writer with
  | some pid => exact (exec_confined hWriter).same
  | none =>
  cases op with
  | revoke =>
    simp only [exec, capRevoke]
    repeat' split
    all_goals exact ⟨rfl, rfl⟩
  | kobj => exact SameTasks.refl _
  | createTask | spawnAborted | fork | teardown => cases hPlain
  | _ => cases hWriter

----
-- Birth
----

/- Only the slot `id` of the table has changed. -/
structure OtherTasks (id : Nat) (s s' : CapState) : Prop where
  tasks : ∀ i, i ≠ id → s'.tasks i = s.tasks i
  maxTasks : s'.maxTasks = s.maxTasks

theorem OtherTasks.trans (hFirst : OtherTasks id s s') (hSecond : OtherTasks id s' s'') :
    OtherTasks id s s'' where
  tasks := fun i hi => (hSecond.tasks i hi).trans (hFirst.tasks i hi)
  maxTasks := hSecond.maxTasks.trans hFirst.maxTasks

theorem SameTasks.other (hSame : SameTasks s s') (id : Nat) : OtherTasks id s s' :=
  ⟨fun i _ => congrFun hSame.tasks i, hSame.maxTasks⟩

theorem otherTasks_setTask (s : CapState) (id : Nat) (t : Tcb) : OtherTasks id s (s.setTask id t) :=
  ⟨fun _ hi => update_of_ne hi _ _, rfl⟩

/- What a new slot looks like. -/
structure NewTask (id : Nat) (s s' : CapState) : Prop where
  other : OtherTasks id s s'
  state : (s'.tasks id).state = .runnable ∨ (s'.tasks id).state = .dead
  gen : (s'.tasks id).slotGen = ((s.tasks id).slotGen + 1) % 2 ^ 64

theorem NewTask.same (hNew : NewTask id s s') (hSame : SameTasks s' s'') : NewTask id s s'' where
  other := hNew.other.trans (hSame.other id)
  state := by rw [hSame.tasks]; exact hNew.state
  gen := by rw [hSame.tasks]; exact hNew.gen

theorem NewTask.abandon (hNew : NewTask id s s') : NewTask id s (abandonTask s' id) where
  other := hNew.other.trans (otherTasks_setTask s' id _)
  state := by
    simp [abandonTask, CapState.setTask]
  gen := by
    rw [← hNew.gen]
    simp [abandonTask, CapState.setTask]

theorem newTask_birthIn (s : CapState) (id space : Nat) : NewTask id s (birthIn s id space) := by
  have hTasks : (birthIn s id space).tasks = update s.tasks id
        { reviveTask (s.tasks id) with cspace := some space, cspaceSize := cnodeSize } :=
    (placeBirth_tasks _ id space).1
  constructor
  · constructor
    · intro i hi
      rw [hTasks]
      exact update_of_ne hi _ _
    · exact (placeBirth_tasks _ id space).2
  · left
    rw [hTasks, update_self]
    rfl
  · rw [hTasks, update_self]
    rfl

theorem newTask_createTask (s : CapState) (id : Nat) (source : CNodeSource) :
    NewTask id s (createTask s id source) := by
  unfold createTask
  split
  · exact newTask_birthIn s id _
  · constructor
    · exact otherTasks_setTask s id _
    · simp [CapState.setTask]
    · simp [CapState.setTask, reviveTask]
  · have hBirth := newTask_birthIn { s with nextSpace := s.nextSpace + 1 } id s.nextSpace
    exact ⟨⟨hBirth.other.tasks, hBirth.other.maxTasks⟩, hBirth.state, hBirth.gen⟩

section Clone

variable {P : Capability → Prop} {child parentSpace childSpace childSize : Nat}

/- The sources are read while the child's space fills up. -/
theorem edits_cloneLoop (slots : List Nat)
    (hMade : ∀ s' slot serial, Confined childSpace s s' → slot ∈ slots →
      cloned slot (s'.mem ⟨parentSpace, slot⟩) = true → serial ≠ 0 →
      P (derivedCap (s'.mem ⟨parentSpace, slot⟩) Right.all serial)) :
    Edits childSpace P s (cloneLoop child parentSpace childSpace childSize slots s).2 := by
  induction slots generalizing s with
  | nil => exact Edits.refl
  | cons slot rest ih =>
  have hRest : ∀ s', Confined childSpace s s' →
      Edits childSpace P s' (cloneLoop child parentSpace childSpace childSize rest s').2 := by
    intro s' hBefore
    apply ih
    intro t x serial hAfter hX
    exact hMade t x serial (hBefore.trans hAfter) (List.mem_cons_of_mem slot hX)
  unfold cloneLoop
  dsimp only
  split
  · rename_i hCopy
    split
    · exact Edits.refl
    have hCommit : Edits childSpace P s (s.commit child ⟨childSpace, slot⟩ .clone
        (s.mem ⟨parentSpace, slot⟩) (rustCapGrantInto s.mem s.nextSerial
          (some ⟨parentSpace, slot⟩) (some childSpace) childSize slot Right.all)).2 := by
      apply edits_commit
      intro r hSome
      rcases rustCapGrantInto_eq_some hSome with ⟨hMem, _, _, _, _, hFresh⟩
      exact ⟨_, congrArg Prod.fst hMem,
        hMade s slot _ Confined.refl List.mem_cons_self hCopy hFresh⟩
    exact hCommit.trans (hRest _ hCommit.confined)
  · exact hRest s Confined.refl

theorem edits_capCloneCspace {s : Sys} {parent : Nat}
    (hMade : ∀ s' space slot serial, Confined (cspaceOrRoot s.cap child) s.cap s' →
      (s.cap.tasks parent).cspace = some space → slot < cnodeSize →
      cloned slot (s'.mem ⟨space, slot⟩) = true → serial ≠ 0 →
      P (derivedCap (s'.mem ⟨space, slot⟩) Right.all serial)) :
    Edits (cspaceOrRoot s.cap child) P s.cap (capCloneCspace s parent child).2.cap := by
  simp only [capCloneCspace]
  split
  · exact Edits.refl
  split
  swap
  · exact Edits.refl
  rename_i p c hParent hChild
  rw [cspaceOrRoot_eq hChild] at hMade ⊢
  have hLoop : Edits c P s.cap (cloneLoop child p c (s.cap.tasks child).cspaceSz
      ((List.range (min (min (s.cap.tasks parent).cspaceSz
        (s.cap.tasks child).cspaceSz) cnodeSize)).drop kernelReservedCaps) s.cap).2 := by
    apply edits_cloneLoop
    intro s' slot serial hConfined hSlot
    have hRange := List.mem_range.mp (List.mem_of_mem_drop hSlot)
    exact hMade s' p slot serial hConfined hParent (by omega)
  repeat' split
  all_goals exact hLoop

theorem sameTasks_capCloneCspace (s : Sys) (parent child : Nat) :
    SameTasks s.cap (capCloneCspace s parent child).2.cap :=
  (edits_capCloneCspace (P := fun _ => True) fun _ _ _ _ _ _ _ _ _ => trivial).confined.same

end Clone

theorem exec_creates (s : Sys) (op : Op) (id : Nat) (hCreates : op.creates = some id) :
    NewTask id s.cap (exec s op).2.cap := by
  cases op with
  | createTask _ source =>
    cases hCreates
    exact newTask_createTask s.cap _ source
  | spawnAborted _ source =>
    cases hCreates
    exact (newTask_createTask s.cap _ source).abandon
  | fork parent child source =>
    obtain rfl := Option.some.inj hCreates
    have hNew := newTask_createTask s.cap child source
    have hCloned := hNew.same (sameTasks_capCloneCspace
        { s with cap := createTask s.cap child source } parent
        child)
    simp only [exec, hFork]
    split
    · exact hNew
    · split
      · exact hCloned
      · exact hCloned.abandon
  | _ => cases hCreates

theorem edits_pipeCloseTaskEnds {P : Capability → Prop} (id space size passes : Nat) (s : Sys) :
    Edits (cspaceOrRoot s.cap id) P s.cap (pipeCloseTaskEnds id space size passes s).cap := by
  induction passes generalizing s with
  | zero => exact Edits.refl
  | succ _ ih =>
  unfold pipeCloseTaskEnds
  split
  · exact Edits.refl
  rename_i slot _
  have hErase : Edits (cspaceOrRoot s.cap id) P s.cap (capConsumeSlotOf s.cap id slot).2 :=
    edits_capConsumeSlotOf
  refine hErase.trans ?_
  rw [← cspaceOrRoot_congr hErase.confined.tasks]
  exact ih
    { cap := (capConsumeSlotOf s.cap id slot).2
      obj :=
        { s.obj with
          pipes := pipeEndUnref s.obj.pipes (s.cap.mem ⟨space, slot⟩).object
              ((s.cap.mem ⟨space, slot⟩).rights &&& Right.write ≠ 0) } }

theorem sameTasks_pipeCloseTaskEnds (id space size passes : Nat) (s : Sys) :
    SameTasks s.cap (pipeCloseTaskEnds id space size passes s).cap :=
  (edits_pipeCloseTaskEnds (P := fun _ => True) id space size passes s).confined.same

/- A release changes one field of one slot. -/
theorem release_tasks (hSame : SameTasks s s') (id : Nat) (scratch : Scratch) :
    (releaseCspace (abandonTask s' id) id scratch).tasks =
        update s.tasks id { s.tasks id with state := .dead } ∧
      (releaseCspace (abandonTask s' id) id scratch).maxTasks =
        s.maxTasks := by
  rw [releaseCspace_tasks, releaseCspace_maxTasks]
  unfold abandonTask CapState.setTask
  rw [hSame.tasks, hSame.maxTasks]
  exact ⟨rfl, rfl⟩

theorem taskTeardown_tasks (s : Sys) (id : Nat) (scratch : Scratch)
    (hAlive : (s.cap.tasks id).state ≠ .dead) :
    (taskTeardown s id scratch).cap.tasks = update s.cap.tasks id
          { s.cap.tasks id with state := .dead } ∧
      (taskTeardown s id scratch).cap.maxTasks =
        s.cap.maxTasks := by
  unfold taskTeardown
  rw [if_neg hAlive]
  split
  · exact release_tasks (SameTasks.refl _) id scratch
  · split
    · exact release_tasks (SameTasks.refl _) id scratch
    · exact release_tasks (sameTasks_pipeCloseTaskEnds _ _ _ _ s) id scratch

end Horus
