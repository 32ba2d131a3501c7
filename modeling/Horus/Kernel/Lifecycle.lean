import Horus.Capability.Reparent
import Horus.Kernel.CapOps

/-
  Operations that combine capability operations with object
  tables and task slots: pipes (`pipe.c`), splits
  (`untyped.c`), the creation of a task, fork and spawn
  (`scheduler.c`, `kspawn.c`, `cap_clone_cspace`) and its death
  (`task_teardown_body`, `release_cspace`).
-/

namespace Horus

open Function

/-
  `h_pipe`: both ends are counted first, then installed; a
  failure gives both counts back.
-/
def hPipe (s : Sys) (cur : Nat) : Bool × Sys :=
  let alloc := pipeAlloc s.obj.pipes
  let obj := alloc.1
  if (s.cap.tasks cur).cspace.isNone then (false, s)
  else if obj = 0 then (false, s)
  else
    let counted := (pipeEndRef ((pipeEndRef alloc.2 obj false).getD alloc.2) obj true).getD alloc.2
    let dropped := pipeEndUnref (pipeEndUnref counted obj false) obj true
    let reader := capInstallObjectFirstFree s.cap cur capslotDynamicFirst
        .pipe obj (Right.read ||| Right.revoke) .pipeEnd
    match reader.1 with
    | none => (false, { cap := reader.2, obj := { s.obj with pipes := dropped } })
    | some rslot =>
    let writer := capInstallObjectFirstFree reader.2 cur capslotDynamicFirst .pipe obj
        (Right.write ||| Right.revoke) .pipeEnd
    match writer.1 with
    | none =>
      (false,
        { cap := (capConsumeSlotOf writer.2 cur rslot).2, obj := { s.obj with pipes := dropped } })
    | some _ => (true, { cap := writer.2, obj := { s.obj with pipes := counted } })

/-
  `h_pipe_close`. The slot is emptied before its type is
  looked at, so any capability of the caller can be closed.
-/
def hPipeClose (s : Sys) (cur slot : Nat) : Bool × Sys :=
  let consumed := capConsumeSlotOf s.cap cur slot
  match consumed.1 with
  | none => (false, { s with cap := consumed.2 })
  | some prev =>
  if prev.typ ≠ .pipe then (false, { s with cap := consumed.2 })
  else
    (true,
      { cap := consumed.2
        obj :=
          { s.obj with
            pipes := pipeEndUnref s.obj.pipes prev.object (prev.rights &&& Right.write ≠ 0) } })

def untypedFromSlot (s : Sys) (cur slot : Nat) (need : Rights) : Option Nat :=
  match capLookup s.cap cur slot (some .untyped) need with
  | none => none
  | some a =>
  let object := (s.cap.mem a).object
  if maxUntyped ≤ object then none
  else if !(s.obj.untypeds object).inUse then none
  else if object = untypedKernel then none
  else some object

/-
  `untyped_split`. When the capability cannot be installed the
  child region is given up, but not the parent's watermark.
-/
def untypedSplit (s : Sys) (cur src dest bytes : Nat) : Bool × Sys :=
  if bytes = 0 ∨ cnodeSize ≤ dest ∨ dest < kernelReservedCaps then (false, s)
  else
    match untypedFromSlot s cur src Right.write with
    | none => (false, s)
    | some parent =>
    match untypedCarve s.obj.untypeds parent bytes with
    | none => (false, s)
    | some (child, region, rest) =>
    let minted := capMintUntypedChild s.cap cur src dest child
        (.untypedSplit parent child (s.obj.untypeds parent) region)
    let given := if minted.1 then region
      else { base := 0, size := 0, watermark := 0, objects := 0, inUse := false }
    (minted.1,
      { cap := minted.2
        obj := { s.obj with untypeds := update (update s.obj.untypeds parent rest) child given } })

/-
  `sched_split`; `allocated` is the index that `kobj_alloc`
  gave the child context, if it had room.
-/
def schedSplit (s : Sys) (cur parentSlot untypedSlot dest budgetUs periodUs : Nat)
    (slack badFlags : Bool) (allocated : Option Nat) : Bool × Sys :=
  match capLookup s.cap cur parentSlot (some .schedContext) Right.write with
  | none => (false, s)
  | some a =>
  let parent := s.cap.mem a
  if parent.object = 0 ∨ scIndexMax ≤ parent.object then (false, s)
  else
    match untypedFromSlot s cur untypedSlot Right.write, allocated with
    | some _, some idx =>
      match schedCarve s.obj.scs parent.object budgetUs periodUs slack badFlags with
      | none => (false, s)
      | some (rest, child) =>
        let installed := capInstallDerivedObject s.cap cur dest
            parentSlot parent.serial .schedContext idx
            parent.rights
            (.schedSplit parent.object idx (s.obj.scs parent.object) rest child)
        (installed.1,
          { cap := installed.2
            obj := if installed.1 then
                { s.obj with scs := update (update s.obj.scs parent.object rest) idx child }
              else s.obj })
    | _, _ => (false, s)

/-
  Where `create_task` gets the capability space: the slot's
  own, allocated once, a fresh one, or none because the
  caller's untyped memory is exhausted.
-/
inductive CNodeSource where
  | kernel
  | fresh
  | exhausted
deriving DecidableEq, Repr

def replyEpBase : Nat := 64
def maxEndpoints : Nat := 320

namespace CapState

/- All slots of a space written to null. -/
def clearSpace (s : CapState) (space : Nat) : CapState :=
  { s with
    mem := fun a => if a.space = space ∧ a.slot < cnodeSize then Capability.nullify else s.mem a }

def setTask (s : CapState) (id : Nat) (t : Tcb) : CapState :=
  { s with tasks := update s.tasks id t }

/- The birth capabilities, each with the next serial. -/
def placeBirth (s : CapState) (id space : Nat) : CapState :=
  let birth0 := s.freshSerial
  let birth3 := s.burn.freshSerial
  let birth4 := s.burn.burn.freshSerial
  let s1 := s.burn.burn.burn.place ⟨space, 0⟩
    (freshCap .tcb Right.all (s.tcbObject id) birth0) .birth
  let s2 := s1.place ⟨space, 3⟩ (freshCap .frame (Right.read ||| Right.write ||| Right.exec)
      0x400000 birth3) .birth
  if id = 0 ∨ maxEndpoints ≤ replyEpBase + id then s2
  else
    s2.place ⟨space, capslotReplyEp⟩ (freshCap .endpoint (Right.read ||| Right.write)
        (replyEpBase + id) birth4) .birth

end CapState

/- What `create_task` does to the slot before its cspace. -/
def reviveTask (t : Tcb) : Tcb := { t with slotGen := (t.slotGen + 1) % 2 ^ 64, state := .runnable }

/- The birth of a task whose space is at `space`. -/
def birthIn (s : CapState) (id space : Nat) : CapState :=
  ((s.setTask id
      { reviveTask (s.tasks id) with
        cspace := some space
        cspaceSize := cnodeSize }).clearSpace space).placeBirth
    id space

/- `create_task`, for a slot other than 0. -/
def createTask (s : CapState) (id : Nat) (source : CNodeSource) : CapState :=
  match source, (s.tasks id).cspace with
  | .kernel, some space => birthIn s id space
  | .exhausted, _ => s.setTask id { reviveTask (s.tasks id) with state := .dead }
  | _, _ => birthIn { s with nextSpace := s.nextSpace + 1 } id s.nextSpace

/- A spawn that cannot load its image gives the slot back. -/
def abandonTask (s : CapState) (id : Nat) : CapState :=
  s.setTask id { s.tasks id with state := .dead }

def spawnAborted (s : CapState) (id : Nat) (source : CNodeSource) : CapState :=
  abandonTask (createTask s id source) id

/- Whether `cap_clone_cspace` copies this capability. -/
def cloned (slot : Nat) (c : Capability) : Bool :=
  slot ≠ capslotReplyEp ∧ c.typ ≠ .null ∧ c.typ ≠ .reply ∧ c.serial ≠ 0

/-
  The loop of `cap_clone_cspace` over the slots in order; the
  flag is false when the child reaches its ceiling.
-/
def cloneLoop (child parentSpace childSpace childSize : Nat) : List Nat → CapState → Bool × CapState
  | [], s => (true, s)
  | slot :: rest, s =>
    let src : Addr := ⟨parentSpace, slot⟩
    if cloned slot (s.mem src) then
      if maxCapsPerTask ≤ s.capsInUse child then (false, s)
      else
        cloneLoop child parentSpace childSpace childSize rest
          (s.commit child ⟨childSpace, slot⟩ .clone (s.mem src)
            (rustCapGrantInto s.mem s.nextSerial (some src)
              (some childSpace) childSize slot Right.all)).2
    else cloneLoop child parentSpace childSpace childSize rest s

/- `cap_clone_cspace`; the flag is `copied >= 0`. -/
def capCloneCspace (s : Sys) (parent child : Nat) : Bool × Sys :=
  let c := s.cap
  if parent = 0 ∨ c.maxTasks ≤ parent ∨ child = 0 ∨
      c.maxTasks ≤ child ∨ parent = child then (false, s)
  else
    match (c.tasks parent).cspace, (c.tasks child).cspace with
    | some parentSpace, some childSpace =>
      let childSize := (c.tasks child).cspaceSz
      let lim := min (min (c.tasks parent).cspaceSz childSize) cnodeSize
      let copied := cloneLoop child parentSpace childSpace childSize
          ((List.range lim).drop kernelReservedCaps) c
      if !copied.1 then (false, { s with cap := copied.2 })
      else
        match pipeCountForkedEnds s.obj.pipes copied.2.mem childSpace childSize with
        | none => (false, { s with cap := copied.2 })
        | some pipes => (true, { cap := copied.2, obj := { s.obj with pipes := pipes } })
    | _, _ => (false, s)

/-
  `h_fork` up to the grant of the child's TCB, under the spawn
  lock. A failed clone leaves its copies behind in a dead slot.
-/
def hFork (s : Sys) (parent child : Nat) (source : CNodeSource) : Bool × Sys :=
  let created := createTask s.cap child source
  if (created.tasks child).state = .dead then (false, { s with cap := created })
  else
    let copied := capCloneCspace { s with cap := created } parent child
    if copied.1 then copied else (false, { copied.2 with cap := abandonTask copied.2.cap child })

/-
  `pipe_close_task_ends`: each pass closes the first pipe end
  that is left.
-/
def pipeCloseTaskEnds (id space size : Nat) : Nat → Sys → Sys
  | 0, s => s
  | pass + 1, s =>
    match firstIndex (fun slot => (s.cap.mem ⟨space, slot⟩).typ = .pipe) size with
    | none => s
    | some slot =>
      let prev := s.cap.mem ⟨space, slot⟩
      pipeCloseTaskEnds id space size pass
        { cap := (capConsumeSlotOf s.cap id slot).2
          obj :=
            { s.obj with
              pipes := pipeEndUnref s.obj.pipes prev.object (prev.rights &&& Right.write ≠ 0) } }

/- The spaces of `reparent_dying_locked`: all but the dying. -/
def survivorSpaces (s : CapState) (id : Nat) : List CSpaceDesc :=
  ((List.range s.maxTasks).filter (· ≠ id)).filterMap (taskDesc s) ++ [rootDesc]

/- `release_cspace`; the scratch table starts anyhow. -/
def releaseCspace (s : CapState) (id : Nat) (scratch : Scratch) : CapState :=
  if id = 0 ∨ s.maxTasks ≤ id then s
  else
    match (s.tasks id).cspace with
    | none => { s with capsInUse := update s.capsInUse id 0 }
    | some space =>
    let size := min (s.tasks id).cspaceSz cnodeSize
    let reparented := (rustCapReparentDying space size (survivorSpaces s id)
        scratch (2 * cnodeSize) s.mem).1
    { s with
      mem := fun a => if a.space = space ∧ a.slot < size then Capability.nullify else reparented a
      capsInUse := update s.capsInUse id 0 }

/-
  `task_teardown_body`: the pipe ends are closed while the
  task is alive, then it is dead, then its space is released.
-/
def taskTeardown (s : Sys) (id : Nat) (scratch : Scratch) : Sys :=
  if (s.cap.tasks id).state = .dead then s
  else
    let closed := match (s.cap.tasks id).cspace with
      | none => s
      | some space =>
        if id = 0 ∨ s.cap.maxTasks ≤ id then s
        else pipeCloseTaskEnds id space (s.cap.tasks id).cspaceSz (s.cap.tasks id).cspaceSz s
    { closed with cap := releaseCspace (abandonTask closed.cap id) id scratch }

end Horus
