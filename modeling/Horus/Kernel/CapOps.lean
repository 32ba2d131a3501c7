import Horus.Capability.Derive
import Horus.Kernel.Objects

/-
  The capability operations of `capability.c`.

  The running task `cur` is an argument. An operation returns
  what the source returns and the state afterwards; where the
  source takes a fresh serial before it checks anything, so
  does the model, and a refusal then still advances the
  counter.
-/

namespace Horus

open Function

namespace CapState

/- `cap_alloc_fresh_serial`: the serial it returns. -/
def freshSerial (s : CapState) : Nat := (assignFreshSerial s.nextSerial).1

/- `cap_alloc_fresh_serial`: the counter afterwards. -/
def burn (s : CapState) : CapState := { s with nextSerial := (assignFreshSerial s.nextSerial).2 }

/- A write that counts a slot of `pid` it fills. -/
def install (s : CapState) (pid : Nat) (a : Addr) (c : Capability)
    (origin : Origin) (source : Option Capability) : CapState :=
  { s with
    mem := update s.mem a c
    capsInUse := if (s.mem a).typ = .null then
        update s.capsInUse pid (s.capsInUse pid + 1)
      else s.capsInUse
    log := ⟨origin, source, c⟩ :: s.log
    uncounted := if (s.mem a).typ = .null then
        update s.uncounted a false
      else s.uncounted }

/- A write that is never counted. -/
def place (s : CapState) (a : Addr) (c : Capability) (origin : Origin) : CapState :=
  { s with
    mem := update s.mem a c
    log := ⟨origin, none, c⟩ :: s.log
    uncounted := update s.uncounted a true }

/- Empty an occupied slot of `pid`, counting it down. -/
def erase (s : CapState) (pid : Nat) (a : Addr) : CapState :=
  if (s.mem a).typ = .null then s
  else
    { s with
      mem := update s.mem a Capability.nullify
      capsInUse := update s.capsInUse pid (s.capsInUse pid - 1) }

/-
  Take over what a derivation of the capability core returned:
  the memory, the counter, and the count of a filled slot.
-/
def commit (s : CapState) (pid : Nat) (a : Addr) (origin : Origin) (source : Capability)
    (result : Option (CapMem × Nat)) : Bool × CapState :=
  match result with
  | none => (false, s)
  | some (mem, nextSerial) =>
  (true,
    { s with
      mem := mem
      nextSerial := nextSerial
      capsInUse := if (s.mem a).typ = .null then
          update s.capsInUse pid (s.capsInUse pid + 1)
        else s.capsInUse
      log := ⟨origin, some source, mem a⟩ :: s.log
      uncounted := if (s.mem a).typ = .null then
          update s.uncounted a false
        else s.uncounted })

/- The ceiling test every counted installer makes. -/
def atCeiling (s : CapState) (pid : Nat) (a : Addr) : Bool :=
  (s.mem a).typ = .null ∧ maxCapsPerTask ≤ s.capsInUse pid

end CapState

def capCurrentCspace (s : CapState) (cur slot : Nat) : Option (Nat × Nat) :=
  if cnodeSize ≤ slot then none
  else
    match (s.tasks cur).cspace with
    | some space =>
      if (s.tasks cur).cspaceSz ≤ slot then none else some (space, (s.tasks cur).cspaceSz)
    | none => if cur ≠ 0 then none else some (rootSpace, cnodeSize)

def capLookup (s : CapState) (cur slot : Nat) (expected : Option CapType)
    (required : Rights) : Option Addr :=
  match capCurrentCspace s cur slot with
  | none => none
  | some (space, size) => rustCapLookupTyped s.mem (some space) size slot expected required

def capLookupIpcObject (s : CapState) (cur slot : Nat) (expected : CapType)
    (required : Rights) (indexMax : Nat) : Option Nat :=
  match capCurrentCspace s cur slot with
  | none => none
  | some (space, size) =>
    rustIpcObjectFromSlot s.mem (some space) size slot expected required indexMax

def kcapLookup (s : CapState) (cur slot : Nat) (required : Rights) : Option Addr :=
  capLookup s cur slot none required

def callerHasAuthority (s : CapState) (cur : Nat) : Bool := cur = 0 ∨ (s.tasks cur).cspace.isSome

/- `tasks[cur].cspace ? tasks[cur].cspace : root_cnode`. -/
def cspaceOrRoot (s : CapState) (cur : Nat) : Nat := (s.tasks cur).cspace.getD rootSpace

----
-- Installers
----

/- A record that is derived from no other. -/
def freshCap (typ : CapType) (rights : Rights) (object serial : Nat) : Capability :=
  { typ := typ, rights := rights, object := object, badge := 0, serial := serial, token := 0 }

/- `cap_install_from_root`: any slot, not counted. -/
def capInstallFromRoot (s : CapState) (pid slot rootSlot object : Nat) : Bool × CapState :=
  if s.maxTasks ≤ pid ∨ cnodeSize ≤ slot ∨ cnodeSize ≤ rootSlot then (false, s)
  else
    match (s.tasks pid).cspace with
    | none => (false, s)
    | some space =>
    let root := s.mem ⟨rootSpace, rootSlot⟩
    if root.typ = .tcb ∧ (object = 0 ∨ s.maxTasks ≤ object) then (false, s)
    else if s.freshSerial = 0 then (false, s.burn)
    else
      (true, s.burn.place ⟨space, slot⟩ (freshCap root.typ root.rights
            (if root.typ = .tcb then s.tcbObject object
              else object)
            s.freshSerial)
          .fromRoot)

/- `cap_install_object`, with badge 0 as every caller has it. -/
def capInstallObject (s : CapState) (cur dest : Nat) (typ : CapType)
    (object : Nat) (rights : Rights) (origin : Origin) : Bool × CapState :=
  if s.freshSerial = 0 then (false, s.burn)
  else
    match (s.tasks cur).cspace with
    | none => (false, s.burn)
    | some space =>
    if dest < kernelReservedCaps ∨ (s.tasks cur).cspaceSz ≤ dest then (false, s.burn)
    else if s.atCeiling cur ⟨space, dest⟩ then (false, s.burn)
    else
      (true, s.burn.install cur ⟨space, dest⟩ (freshCap typ rights object s.freshSerial)
          origin none)

def capInstallDerivedObject (s : CapState) (cur dest src srcSerial : Nat)
    (srcType : CapType) (object : Nat) (rights : Rights) (origin : Origin) : Bool × CapState :=
  if s.freshSerial = 0 then (false, s.burn)
  else
    match (s.tasks cur).cspace with
    | none => (false, s.burn)
    | some space =>
    let source := s.mem ⟨space, src⟩
    if dest < kernelReservedCaps ∨ (s.tasks cur).cspaceSz ≤ dest ∨
        (s.tasks cur).cspaceSz ≤ src ∨ dest = src ∨ srcSerial = 0 ∨ source.serial ≠ srcSerial ∨
        source.typ ≠ srcType then (false, s.burn)
    else if s.atCeiling cur ⟨space, dest⟩ then (false, s.burn)
    else
      (true, s.burn.install cur ⟨space, dest⟩
          { typ := srcType
            rights := rights &&& source.rights
            object := object
            badge := srcSerial
            serial := s.freshSerial
            token := 0 }
          origin (some source))

/- The slots the search for a free one passes over. -/
def libcSlot (slot : Nat) : Bool := libcSlotFirst ≤ slot ∧ slot < libcSlotFirst + shlibMaxPages

/-
  `cap_install_object_first_free`, with badge 0 as every
  caller has it: the slot it chose.
-/
def capInstallObjectFirstFree (s : CapState) (cur minSlot : Nat) (typ : CapType)
    (object : Nat) (rights : Rights) (origin : Origin) : Option Nat × CapState :=
  if s.freshSerial = 0 then (none, s.burn)
  else
    match (s.tasks cur).cspace with
    | none => (none, s.burn)
    | some space =>
    if minSlot < kernelReservedCaps ∨ (s.tasks cur).cspaceSz ≤ minSlot then (none, s.burn)
    else if maxCapsPerTask ≤ s.capsInUse cur then (none, s.burn)
    else
      match firstIndex (fun slot =>
            minSlot ≤ slot && !libcSlot slot && (s.mem ⟨space, slot⟩).typ = .null)
          (s.tasks cur).cspaceSz with
      | none => (none, s.burn)
      | some slot =>
        (some slot, s.burn.install cur ⟨space, slot⟩ (freshCap typ rights object s.freshSerial)
            origin none)

/- `cap_install_reply_for`: the slot of the reply capability. -/
def capInstallReplyFor (s : CapState) (pid sender senderGen : Nat) : Bool × CapState :=
  if pid = 0 ∨ s.maxTasks ≤ pid then (false, s)
  else if sender = 0 ∨ s.maxTasks ≤ sender then (false, s)
  else if s.freshSerial = 0 then (false, s.burn)
  else
    match (s.tasks pid).cspace with
    | none => (false, s.burn)
    | some space =>
    if (s.tasks pid).cspaceSz ≤ capslotReply then (false, s.burn)
    else if s.atCeiling pid ⟨space, capslotReply⟩ then (false, s.burn)
    else
      (true, s.burn.install pid ⟨space, capslotReply⟩ (freshCap .reply Right.write
            (packTask sender senderGen) s.freshSerial)
          .recvReply none)

/-
  The checks of `cap_install_child_pipe_end` under the lock:
  the spawner's end and the empty slot of the child.
-/
def childEndSlots (s : CapState) (child dest spawner src : Nat)
    (rights : Rights) : Option (Addr × Addr) :=
  match (s.tasks child).cspace with
  | none => none
  | some space =>
  if (s.tasks child).cspaceSz ≤ dest then none
  else
    match rustCapLookup s.mem (s.tasks spawner).cspace (s.tasks spawner).cspaceSz src 0 with
    | none => none
    | some a =>
      if (s.mem a).typ ≠ .pipe then none
      else if !hasRights (s.mem a).rights rights then none
      else if s.atCeiling child ⟨space, dest⟩ then none
      else if (s.mem ⟨space, dest⟩).typ ≠ .null then none
      else some (a, ⟨space, dest⟩)

/-
  `cap_install_child_pipe_end`: a standard slot of the child,
  derived from the spawner's end and counted in the pipe
  table.
-/
def capInstallChildPipeEnd (s : Sys) (child dest spawner src : Nat)
    (rights : Rights) : Bool × Sys :=
  let c := s.cap
  if child = 0 ∨ c.maxTasks ≤ child ∨ spawner = 0 ∨ c.maxTasks ≤ spawner ∨ cnodeSize ≤ src ∨
      (dest ≠ stdinPipeSlot ∧ dest ≠ stdoutPipeSlot) then
    (false, s)
  else if c.freshSerial = 0 then (false, { s with cap := c.burn })
  else
    match childEndSlots c child dest spawner src rights with
    | none => (false, { s with cap := c.burn })
    | some (a, d) =>
    match pipeEndRef s.obj.pipes (c.mem a).object (rights &&& Right.write ≠ 0) with
    | none => (false, { s with cap := c.burn })
    | some pipes =>
      (true,
        { cap := c.burn.install child d
              { typ := .pipe
                rights := rights
                object := (c.mem a).object
                badge := (c.mem a).serial
                serial := c.freshSerial
                token := 0 }
              .childPipe (some (c.mem a))
          obj := { s.obj with pipes := pipes } })

/- `cap_consume_slot`: a slot of the caller's own. -/
def capConsumeSlot (s : CapState) (cur dest : Nat) : Bool × CapState :=
  match (s.tasks cur).cspace with
  | none => (false, s)
  | some space =>
    if dest < kernelReservedCaps ∨ (s.tasks cur).cspaceSz ≤ dest then (false, s)
    else (true, s.erase cur ⟨space, dest⟩)

/-
  `cap_consume_slot_of`: the capability that was there, when
  the slot exists.
-/
def capConsumeSlotOf (s : CapState) (pid slot : Nat) : Option Capability × CapState :=
  if pid = 0 ∨ s.maxTasks ≤ pid then (none, s)
  else
    match (s.tasks pid).cspace with
    | none => (none, s)
    | some space =>
      if (s.tasks pid).cspaceSz ≤ slot then (none, s)
      else (some (s.mem ⟨space, slot⟩), s.erase pid ⟨space, slot⟩)

----
-- Derivations
----

/-
  The checks that `cap_mint`, `cap_mint_token` and
  `cap_transfer` share before they call the core: the source,
  held with MINT, and the destination.
-/
def mintSlots (s : CapState) (cur dest src : Nat) : Option (Addr × Addr) :=
  if !callerHasAuthority s cur then none
  else
    match kcapLookup s cur src Right.mint with
    | none => none
    | some a =>
      if cnodeSize ≤ dest ∨ dest < kernelReservedCaps then none
      else
        let d : Addr := ⟨cspaceOrRoot s cur, dest⟩
        if s.atCeiling cur d then none else some (a, d)

/-
  The common shape of the three: those checks, then the
  derivation in the core on the caller's space.
-/
def mintThrough (s : CapState) (cur dest src : Nat) (origin : Origin)
    (core : Nat → Option (CapMem × Nat)) : Bool × CapState :=
  match mintSlots s cur dest src with
  | none => (false, s)
  | some (a, d) => s.commit cur d origin (s.mem a) (core d.space)

def capMint (s : CapState) (cur dest src : Nat) (newRights : Rights) : Bool × CapState :=
  mintThrough s cur dest src .mint fun space =>
    rustCapMint s.mem s.nextSerial (some space) (s.tasks cur).cspaceSz dest src newRights

def capMintToken (s : CapState) (cur dest src : Nat) (newRights : Rights)
    (token : Nat) : Bool × CapState :=
  mintThrough s cur dest src .mintToken fun space =>
    rustCapMintToken s.mem s.nextSerial (some space) (s.tasks cur).cspaceSz dest src newRights token

def capTransfer (s : CapState) (cur dest src : Nat) : Bool × CapState :=
  mintThrough s cur dest src .transfer fun space =>
    rustCapTransfer s.mem s.nextSerial (some space) (s.tasks cur).cspaceSz dest src

def capReplyMintInto (s : CapState) (pid invSlot invSerial epIndex dest : Nat)
    (newRights : Rights) (token : Nat) : Bool × CapState :=
  if pid = 0 ∨ s.maxTasks ≤ pid then (false, s)
  else
    match (s.tasks pid).cspace with
    | none => (false, s)
    | some space =>
    let size := (s.tasks pid).cspaceSz
    let inv := s.mem ⟨space, invSlot⟩
    if size ≤ invSlot ∨ size ≤ dest then (false, s)
    else if inv.typ ≠ .endpoint ∨ inv.serial = 0 ∨
        inv.serial ≠ invSerial ∨ inv.object ≠ epIndex then
      (false, s)
    else if maxCapsPerTask ≤ s.capsInUse pid then (false, s)
    else
      s.commit pid ⟨space, dest⟩ .replyMint inv (rustCapReplyMint s.mem s.nextSerial
          (some ⟨space, invSlot⟩) (some space) size dest
          newRights token)

def capMintUntypedChild (s : CapState) (cur src dest childIndex : Nat)
    (origin : Origin) : Bool × CapState :=
  if s.freshSerial = 0 then (false, s.burn)
  else if !callerHasAuthority s cur then (false, s.burn)
  else
    match kcapLookup s cur src Right.write with
    | none => (false, s.burn)
    | some a =>
    if (s.mem a).typ ≠ .untyped then (false, s.burn)
    else if cnodeSize ≤ dest ∨ dest < kernelReservedCaps then (false, s.burn)
    else
      match (s.tasks cur).cspace with
      | none => (false, s.burn)
      | some space =>
      if (s.tasks cur).cspaceSz ≤ dest then (false, s.burn)
      else if s.atCeiling cur ⟨space, dest⟩ then (false, s.burn)
      else
        (true, s.burn.install cur ⟨space, dest⟩
            { typ := .untyped
              rights := (s.mem a).rights
              object := childIndex
              badge := (s.mem a).serial
              serial := s.freshSerial
              token := 0 }
            origin (some (s.mem a)))

/-
  `cap_grant_common`: from a slot of the caller into any slot
  of the target.
-/
def capGrantCommon (s : CapState) (cur target dest src : Nat)
    (newRights : Rights) (fromUser : Bool) : Bool × CapState :=
  if target = 0 ∨ s.maxTasks ≤ target then (false, s)
  else if cnodeSize ≤ src ∨ cnodeSize ≤ dest then (false, s)
  else if !callerHasAuthority s cur then (false, s)
  else
    match (s.tasks cur).cspace, (s.tasks target).cspace with
    | some srcSpace, some dstSpace =>
      match rustCapLookup s.mem (some srcSpace) (s.tasks cur).cspaceSz src 0 with
      | none => (false, s)
      | some a =>
        let size := (s.tasks target).cspaceSz
        if dest < size ∧ s.atCeiling target ⟨dstSpace, dest⟩ then (false, s)
        else
          s.commit target ⟨dstSpace, dest⟩ .grant (s.mem a) (if fromUser then
              rustCapGrantFromUser s.mem s.nextSerial (some a) (some dstSpace) size dest newRights
            else rustCapGrantInto s.mem s.nextSerial (some a) (some dstSpace) size dest newRights)
    | _, _ => (false, s)

/- `cap_grant_into`, the kernel's own grants. -/
def capGrantInto (s : CapState) (cur target dest src : Nat)
    (newRights : Rights) : Bool × CapState :=
  capGrantCommon s cur target dest src newRights false

/- `cap_grant_from_user`, which refuses pipe ends. -/
def capGrantFromUser (s : CapState) (cur target dest src : Nat)
    (newRights : Rights) : Bool × CapState :=
  capGrantCommon s cur target dest src newRights true

/- The descriptor of a task that a loop over the table adds. -/
def taskDesc (s : CapState) (id : Nat) : Option CSpaceDesc :=
  match (s.tasks id).cspace with
  | none => none
  | some space =>
  if (s.tasks id).state = .dead then none
  else some { caps := some space, size := (s.tasks id).cspaceSz, capsInUse := some id }

def rootDesc : CSpaceDesc := { caps := some rootSpace, size := cnodeSize, capsInUse := none }

/- The spaces that `cap_revoke` collects: live tasks, root. -/
def revokeSpaces (s : CapState) : List CSpaceDesc :=
  (List.range s.maxTasks).filterMap (taskDesc s) ++ [rootDesc]

/- An all-zero tally for every pipe. -/
def zeroTally : PipeTally := { cells := fun _ => 0, len := pipeTallyCells * maxPipes }

/-
  `cap_revoke`. No operation installs a `CAP_REVOCATION`, so
  the redirection through one is not modelled.
-/
def capRevoke (s : Sys) (cur slot : Nat) : Bool × Sys :=
  let c := s.cap
  if cnodeSize ≤ slot then (false, s)
  else if !callerHasAuthority c cur then (false, s)
  else
    let space := cspaceOrRoot c cur
    if slot < kernelReservedCaps ∧ space = rootSpace then (false, s)
    else if (c.mem ⟨space, slot⟩).rights &&& Right.revoke = 0 ∧ space ≠ rootSpace then (false, s)
    else
      let counter := if space = rootSpace then none else some cur
      let swept := rustCapRevokeGlobal space (c.tasks cur).cspaceSz slot counter (revokeSpaces c)
          { mem := c.mem, capsInUse := c.capsInUse, tally := zeroTally }
      (swept.1,
        { cap := { c with mem := swept.2.mem, capsInUse := swept.2.capsInUse }
          obj := { s.obj with pipes := pipeReleaseRevokedEnds swept.2.tally s.obj.pipes } })

/- `cap_move`: a transfer, then a revocation of the source. -/
def capMove (s : Sys) (cur dest src : Nat) : Bool × Sys :=
  let moved := capTransfer s.cap cur dest src
  if moved.1 then capRevoke { s with cap := moved.2 } cur src
  else (false, { s with cap := moved.2 })

end Horus
