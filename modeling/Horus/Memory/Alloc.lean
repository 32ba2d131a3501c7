import Horus.Kernel.Objects
import Horus.Lib.Extents
import Horus.Lib.Runs

/-
  Kernel memory (`untyped.c`): regions of the arena, the bump
  allocator, retyping, splitting, and the cspace of a new task.

  A region hands out bytes from its watermark on, and never
  takes any back. The last four fields of `Memory` are not in
  the source: they keep what has been handed out, from which
  region, and what regions there have been.
-/

namespace Horus

open Function

def maxTasks : Nat := 256
def capBytes : Nat := 40
def tcbBytesReserved : Nat := 2048
def kobjAlignBytes : Nat := 64
def maxFramePages : Nat := 64

/- `UNTYPED_KERNEL_BYTES`: the cspaces and the task table. -/
def untypedKernelBytes : Nat :=
  maxTasks * ((cnodeSize * capBytes + 63) / 64 * 64 + tcbBytesReserved)

def untypedUserBytes : Nat := 3 * 1024 * 1024 + 512 * 1024

def untypedArenaBytes : Nat := untypedKernelBytes + untypedUserBytes

def untypedArenaPages : Nat := untypedArenaBytes / pageSize

/- The objects that are reached by index. -/
inductive KobjClass where
  | endpoint
  | notification
  | frame
  | schedContext
deriving DecidableEq, Repr

/- `MAX_DYN_ENDPOINTS` and so on: the size of the table. -/
def KobjClass.maxDyn : KobjClass → Nat
  | .endpoint => 256
  | .notification => 256
  | .frame => untypedArenaPages
  | .schedContext => maxTasks

/- `DYN_EP_BASE` and so on: the index of the first entry. -/
def KobjClass.dynBase : KobjClass → Nat
  | .endpoint => 320
  | .notification => 64
  | .frame => 1
  | .schedContext => dynScBase

/- `KOBJ_*`. -/
inductive KobjType where
  | cnode
  | endpoint
  | notification
  | frame
  | taskTable
  | revokeSpaces
  | taskRunningCpu
  | kstackInflight
  | schedContext
deriving DecidableEq, Repr

def KobjType.indexed : KobjType → Option KobjClass
  | .endpoint => some .endpoint
  | .notification => some .notification
  | .frame => some .frame
  | .schedContext => some .schedContext
  | _ => none

/- `sizeof`, which the compiler decides. -/
structure Layout where
  endpoint : Nat
  notification : Nat
  schedContext : Nat
  tcb : Nat
  cspaceDesc : Nat
  int : Nat

/- Where the boot put the arena. -/
structure MemConfig where
  layout : Layout
  arena : Nat
  placed : 0 < arena
  fits : arena + untypedArenaBytes ≤ 2 ^ 64

def kobjSize (L : Layout) (typ : KobjType) (pages : Nat) : Nat :=
  match typ with
  | .cnode => cnodeSize * capBytes
  | .endpoint => L.endpoint
  | .notification => L.notification
  | .schedContext => L.schedContext
  | .frame => if pages = 0 ∨ maxFramePages < pages then 0 else pages * pageSize
  | .taskTable => maxTasks * L.tcb
  | .revokeSpaces => (maxTasks + 1) * L.cspaceDesc
  | .taskRunningCpu => maxTasks * L.int
  | .kstackInflight => (maxTasks + 63) / 64 * 8

def kobjAlign (typ : KobjType) : Nat := if typ = .frame then pageSize else kobjAlignBytes

structure KobjSlot where
  mem : Option Nat
  untyped : Nat
  pinned : Bool
  pages : Nat
deriving DecidableEq, Repr

inductive Carved where
  | object (typ : KobjType)
  | region (id : Nat)
deriving DecidableEq, Repr

/- Bytes that left a region: what for, which, whose. -/
structure Carving where
  what : Carved
  extent : Lib.Extent
  region : Nat
deriving DecidableEq, Repr

/- A region there has been, and the one it was split from. -/
structure RegionRecord where
  extent : Lib.Extent
  parent : Option Nat
deriving DecidableEq, Repr

structure Memory where
  untypeds : Nat → Untyped
  slots : KobjClass → Nat → KobjSlot
  cspaces : Nat → Option Nat
  carved : List Carving
  regions : Nat → RegionRecord
  nextRegion : Nat
  regionOf : Nat → Nat

def Untyped.unused : Untyped :=
  { base := 0, size := 0, watermark := 0, objects := 0, inUse := false }

/- A region of which nothing has been handed out. -/
def Untyped.whole (base size : Nat) : Untyped :=
  { base := base, size := size, watermark := 0, objects := 0, inUse := true }

def kernelHalf : Nat := alignUp untypedKernelBytes pageSize

/- `untyped_init`: the kernel's region and the users'. -/
def untypedInit (cfg : MemConfig) : Memory :=
  { untypeds := fun u =>
      if u = untypedKernel then Untyped.whole 0 kernelHalf
      else if u = untypedRoot then Untyped.whole kernelHalf (untypedArenaBytes - kernelHalf)
      else Untyped.unused
    slots := fun _ _ => { mem := none, untyped := 0, pinned := false, pages := 0 }
    cspaces := fun _ => none
    carved := []
    regions := fun r =>
      if r = untypedKernel then { extent := ⟨cfg.arena, kernelHalf⟩, parent := none }
      else { extent := ⟨cfg.arena + kernelHalf, untypedArenaBytes - kernelHalf⟩, parent := none }
    nextRegion := 2
    regionOf := fun u => u }

----
-- Allocation
----

/-
  `untyped_bump`, in 64 bits: the address, and the region with
  its watermark behind the object. The address is aligned, not
  the offset in the region.
-/
def untypedBump (arena : Nat) (u : Untyped) (bytes align : Nat) : Option (Nat × Untyped) :=
  if !u.inUse ∨ arena = 0 then none
  else if align = 0 ∨ align &&& (align - 1) ≠ 0 then none
  else
    let absBase := (arena + u.base) % 2 ^ 64
    let start := u.watermark
    if u.size ≤ start then none
    else
      let room := u.size - start
      let pad := (align - ((absBase + start) % 2 ^ 64 &&& (align - 1))) &&& (align - 1)
      if room < pad then none
      else if room - pad < bytes then none
      else
        some ((arena + u.base + (start + pad)) % 2 ^ 64,
          { u with watermark := (start + pad + bytes) % 2 ^ 64 })

namespace Memory

/-
  The entry for a new object: none when the table is full, and
  no entry for an object that is not reached by index.
-/
def kobjIndex (m : Memory) (typ : KobjType) : Option (Option (KobjClass × Nat)) :=
  match typ.indexed with
  | none => some none
  | some cls =>
    (firstIndex (fun i => (m.slots cls i).mem.isNone) cls.maxDyn).map fun i => some (cls, i)

def setSlot (m : Memory) (cls : KobjClass) (i : Nat) (slot : KobjSlot) : Memory :=
  { m with slots := update m.slots cls (update (m.slots cls) i slot) }

/- `objects` of region `u` counted up or down. -/
def setObjects (m : Memory) (u objects : Nat) : Memory :=
  { m with untypeds := update m.untypeds u { m.untypeds u with objects := objects } }

/- `bytes` at `start` leave region `u`, which becomes `rest`. -/
def take (m : Memory) (u start bytes : Nat) (rest : Untyped) (what : Carved) : Memory :=
  { m with
    untypeds := update m.untypeds u rest
    carved := ⟨what, ⟨start, bytes⟩, m.regionOf u⟩ :: m.carved }

@[simp] theorem setObjects_self (m : Memory) (u objects : Nat) :
    (m.setObjects u objects).untypeds u = { m.untypeds u with objects := objects } :=
  update_self _ _ _

theorem setObjects_of_ne (m : Memory) (objects : Nat) {u v : Nat}
    (hNe : v ≠ u) : (m.setObjects u objects).untypeds v = m.untypeds v :=
  update_of_ne hNe _ _

/- The entry of a new object, which starts pinned. -/
def fillSlot (m : Memory) (index : Option (KobjClass × Nat)) (mem u pages : Nat) : Memory :=
  match index with
  | none => m
  | some (cls, i) =>
  m.setSlot cls i
    { mem := some mem
      untyped := u
      pinned := true
      pages := if cls = .frame then pages
        else (m.slots cls i).pages }

def outIndex (index : Option (KobjClass × Nat)) : Nat :=
  match index with
  | none => 0
  | some (cls, i) => cls.dynBase + i

/- `kobj_alloc`: the address and the index. -/
def kobjAlloc (cfg : MemConfig) (m : Memory) (u : Nat) (typ : KobjType)
    (pages : Nat) : Option (Nat × Nat) × Memory :=
  if maxUntyped ≤ u then (none, m)
  else
    let pages := if typ ≠ .frame ∨ pages = 0 then 1 else pages
    let need := kobjSize cfg.layout typ pages
    if need = 0 then (none, m)
    else
      match m.kobjIndex typ with
      | none => (none, m)
      | some index =>
      match untypedBump cfg.arena (m.untypeds u) need (kobjAlign typ) with
      | none => (none, m)
      | some (mem, rest) =>
        (some (mem, outIndex index), ((m.take u mem need rest (.object typ)).fillSlot
            index mem u pages).setObjects u ((rest.objects + 1) % 2 ^ 32))

/-
  `destroy_dyn_endpoint`, `destroy_dyn_notification`,
  `destroy_dyn_frame` and `destroy_dyn_sc`, as far as the
  tables go. A frame that is mapped is kept.
-/
def destroyDyn (m : Memory) (cls : KobjClass) (i : Nat) (mapped : Bool) : Memory :=
  let slot := m.slots cls i
  if slot.mem.isNone ∨ (cls = .frame ∧ mapped = true) then m
  else
    let counted := if slot.untyped < maxUntyped then
        m.setObjects slot.untyped ((m.untypeds slot.untyped).objects - 1)
      else m
    counted.setSlot cls i
      { slot with mem := none, pinned := false, pages := if cls = .frame then 0 else slot.pages }

----
-- Splitting and Retyping
----

/-
  The region that `untyped_from_slot` finds, where `object` is
  what the untyped capability in the slot names, if it is one
  and has the rights.
-/
def regionNamed (m : Memory) (object : Option Nat) : Option Nat :=
  match object with
  | none => none
  | some u =>
    if maxUntyped ≤ u then none
    else if !(m.untypeds u).inUse then none
    else if u = untypedKernel then none
    else some u

/- The part of `untyped_split` under the lock. -/
def splitCarve (cfg : MemConfig) (m : Memory) (parent bytes : Nat) : Option Nat × Memory :=
  match untypedCarve m.untypeds parent bytes with
  | none => (none, m)
  | some (child, region, rest) =>
  let extent : Lib.Extent := ⟨cfg.arena + region.base, region.size⟩
  let taken := m.take parent extent.start extent.bytes rest (.region m.nextRegion)
  (some child,
    { taken with
      untypeds := update taken.untypeds child region
      regions := update m.regions m.nextRegion
          { extent := extent, parent := some (m.regionOf parent) }
      nextRegion := m.nextRegion + 1
      regionOf := update m.regionOf child m.nextRegion })

/- The descriptor goes back, the bytes do not. -/
def splitRelease (m : Memory) (child : Nat) : Memory :=
  { m with
    untypeds := update m.untypeds child
        { m.untypeds child with base := 0, size := 0, watermark := 0, inUse := false } }

/- The error of a split that has no room. -/
def splitError (m : Memory) (parent bytes : Nat) : Int :=
  let start := alignUp (m.untypeds parent).watermark pageSize
  let take := alignUp bytes pageSize
  if take < bytes ∨ (start + take) % 2 ^ 64 < start then -22 else -12

/-
  `untyped_split`; `minted` says whether the capability for
  the child could be installed.
-/
def untypedSplit (cfg : MemConfig) (m : Memory) (object : Option Nat)
    (dest bytes : Nat) (minted : Bool) : Int × Memory :=
  if bytes = 0 then (-22, m)
  else if cnodeSize ≤ dest then (-22, m)
  else if dest < kernelReservedCaps then (-1, m)
  else
    match m.regionNamed object with
    | none => (-1, m)
    | some parent =>
    let carved := m.splitCarve cfg parent bytes
    match carved.1 with
    | none => (m.splitError parent bytes, m)
    | some child => if minted then (0, carved.2) else (-1, carved.2.splitRelease child)

/-
  The loop of `untyped_retype`; `installs i` says whether the
  capability for the `i`th object could be installed. An
  object that cannot be named is destroyed again.
-/
def retypeLoop (cfg : MemConfig) (u : Nat) (typ : KobjType) (pages : Nat)
    (installs : Nat → Bool) : Nat → Nat → Memory → Nat × Memory
  | 0, i, m => (i, m)
  | n + 1, i, m =>
    let r := m.kobjAlloc cfg u typ pages
    match r.1 with
    | none => (i, m)
    | some (_, index) =>
    if installs i then retypeLoop cfg u typ pages installs n (i + 1) r.2
    else
      match typ.indexed with
      | none => (i, r.2)
      | some cls => (i, r.2.destroyDyn cls (index - cls.dynBase) false)

/- `untyped_retype`: the number of objects, or the error. -/
def untypedRetype (cfg : MemConfig) (m : Memory) (object : Option Nat)
    (typ : KobjType) (count pages dest : Nat) (installs : Nat → Bool) : Int × Memory :=
  match m.regionNamed object with
  | none => (-1, m)
  | some u =>
  if typ ≠ .endpoint ∧ typ ≠ .notification ∧ typ ≠ .frame then (-22, m)
  else if count = 0 then (-22, m)
  else if typ ≠ .frame ∧ pages ≠ 0 then (-22, m)
  else if typ = .frame ∧ maxFramePages < pages then (-34, m)
  else if dest < kernelReservedCaps then (-1, m)
  else if cnodeSize < count then (-34, m)
  else if cnodeSize - count < dest then (-34, m)
  else
    let made := retypeLoop cfg u typ pages installs count 0 m
    (if made.1 = 0 then -12 else made.1, made.2)

/-
  What `create_task` does for the cspace: the slot keeps its
  own when the kernel pays, and gets a fresh one otherwise.
-/
def createTaskCspace (cfg : MemConfig) (m : Memory) (id u : Nat) : Bool × Memory :=
  if (m.cspaces id).isNone ∨ u ≠ untypedKernel then
    let r := m.kobjAlloc cfg u .cnode 0
    match r.1 with
    | none => (false, m)
    | some (mem, _) => (true, { r.2 with cspaces := update r.2.cspaces id (some mem) })
  else (true, m)

end Memory

inductive MemOp where
  | kobjAlloc (u : Nat) (typ : KobjType) (pages : Nat)
  | retype (object : Option Nat) (typ : KobjType) (count pages dest : Nat) (installs : Nat → Bool)
  | split (object : Option Nat) (dest bytes : Nat) (minted : Bool)
  | createTask (id u : Nat)
  | destroy (cls : KobjClass) (i : Nat) (mapped : Bool)

def memExec (cfg : MemConfig) (m : Memory) : MemOp → Memory
  | .kobjAlloc u typ pages => (m.kobjAlloc cfg u typ pages).2
  | .retype object typ count pages dest installs =>
    (m.untypedRetype cfg object typ count pages dest installs).2
  | .split object dest bytes minted => (m.untypedSplit cfg object dest bytes minted).2
  | .createTask id u => (m.createTaskCspace cfg id u).2
  | .destroy cls i mapped => m.destroyDyn cls i mapped

/- Any sequence of calls. -/
def MemRun (cfg : MemConfig) : Memory → Memory → Prop := Lib.Run (memExec cfg) (fun _ _ => True)

end Horus
