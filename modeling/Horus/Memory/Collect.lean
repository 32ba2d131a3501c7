import Horus.Kernel.Records
import Horus.Memory.Alloc

/-
  Capabilities and the objects they name, with the collector
  (`kobj_gc_locked`), at the granularity of locked sections.

  An object is allocated under one lock and named under
  another, and a task that is killed on another CPU goes on to
  the end of its system call. So the creation of an object and
  the death of a task are several steps each, and a call goes
  on after its task is dead. `ids` and `named` are not in the
  source: which object an index holds, and which one it held
  when a capability was written.
-/

namespace Horus

open Function

def KobjClass.capType : KobjClass → CapType
  | .endpoint => .endpoint
  | .notification => .notification
  | .frame => .frame
  | .schedContext => .schedContext

def capClass : CapType → Option KobjClass
  | .endpoint => some .endpoint
  | .notification => some .notification
  | .frame => some .frame
  | .schedContext => some .schedContext
  | _ => none

/- The table entry of a retyped object that is named. -/
def dynEntry (typ : CapType) (object : Nat) : Option (KobjClass × Nat) :=
  match capClass typ with
  | none => none
  | some cls =>
    if cls.dynBase ≤ object ∧ object < cls.dynBase + cls.maxDyn then
      some (cls, object - cls.dynBase)
    else none

def Capability.dynName (c : Capability) : Option (KobjClass × Nat) := dynEntry c.typ c.object

/- An object that a call has allocated and not named yet. -/
structure Making where
  cls : KobjClass
  index : Nat
  failed : Bool
deriving DecidableEq, Repr

structure Store where
  sys : Sys
  mem : Memory
  mapped : Nat → Bool
  shlib : Nat → Bool
  inCall : Nat → Bool
  dying : Nat → Bool
  making : Nat → Option Making
  ids : KobjClass → Nat → Nat
  nextId : Nat
  named : Addr → Nat

/- Equal but for the badge, which is no part of the name. -/
def sameRecord (c c' : Capability) : Bool :=
  c'.typ = c.typ ∧ c'.rights = c.rights ∧ c'.object = c.object ∧ c'.serial = c.serial

namespace Store

/- The object that a capability names now. -/
def idOf (s : Store) (c : Capability) : Nat :=
  match c.dynName with
  | none => 0
  | some (cls, i) => s.ids cls i

/-
  The capability system moves on. Both halves have the region
  table; a capability that is new in its slot names what its
  index holds.
-/
def withSys (s : Store) (sys : Sys) : Store :=
  { s with
    sys := sys
    mem := { s.mem with untypeds := sys.obj.untypeds }
    named := fun a =>
      if s.sys.cap.Visible a ∧ sameRecord (s.sys.cap.mem a) (sys.cap.mem a) then s.named a
      else s.idOf (sys.cap.mem a) }

def withCap (s : Store) (cap : CapState) : Store := s.withSys { s.sys with cap := cap }

def withMem (s : Store) (m : Memory) : Store :=
  { s with mem := m, sys := { s.sys with obj := { s.sys.obj with untypeds := m.untypeds } } }

end Store

def Memory.kobjUnpin (m : Memory) (cls : KobjClass) (i : Nat) : Memory :=
  m.setSlot cls i { m.slots cls i with pinned := false }

def Memory.kobjNoteNamed (m : Memory) (typ : CapType) (object : Nat) : Memory :=
  match dynEntry typ object with
  | none => m
  | some (cls, i) => m.kobjUnpin cls i

def storeBoot (cfg : BootConfig) (mcfg : MemConfig) : Store :=
  { sys := { boot cfg with obj := { (boot cfg).obj with untypeds := (untypedInit mcfg).untypeds } }
    mem := untypedInit mcfg
    mapped := fun _ => false
    shlib := fun _ => false
    inCall := fun _ => false
    dying := fun _ => false
    making := fun _ => none
    ids := fun _ _ => 0
    nextId := 1
    named := fun _ => 0 }

def markCap (c : Capability) (cls : KobjClass) (i : Nat) : Bool :=
  c.serial ≠ 0 ∧ c.dynName = some (cls, i)

/-
  `mark_reachable`: the cspaces of live tasks, the root table
  and the frames of the shared library.
-/
def markReachable (s : Store) (cls : KobjClass) (i : Nat) : Bool :=
  let c := s.sys.cap
  ((List.range c.maxTasks).any fun t =>
    if (c.tasks t).state = .dead then false
    else
      match (c.tasks t).cspace with
      | none => false
      | some space =>
        (List.range (min (c.tasks t).cspaceSz cnodeSize)).any
          fun slot => markCap (c.mem ⟨space, slot⟩) cls i) ||
  ((List.range cnodeSize).any fun slot => markCap (c.mem ⟨rootSpace, slot⟩) cls i) ||
  (cls = .frame ∧ s.shlib i = true)

/- One turn of a loop of `kobj_gc_locked`. -/
def sweepTurn (marks mapped : Nat → Bool) (cls : KobjClass) (m : Memory) (i : Nat) : Memory :=
  if (m.slots cls i).mem.isSome && !(m.slots cls i).pinned && !marks i then
    m.destroyDyn cls i (mapped i)
  else m

/- One loop of `kobj_gc_locked`. -/
def sweepClass (marks mapped : Nat → Bool) (cls : KobjClass) (m : Memory) : Memory :=
  (List.range cls.maxDyn).foldl (sweepTurn marks mapped cls) m

def Store.sweep (s : Store) (cls : KobjClass) (m : Memory) : Memory :=
  sweepClass (markReachable s cls) s.mapped cls m

/- The memory after `kobj_gc_locked`, table by table. -/
def Store.swept (s : Store) : Memory :=
  s.sweep .schedContext (s.sweep .frame (s.sweep .notification (s.sweep .endpoint s.mem)))

/- `kobj_gc_locked`: the marks are made before the sweep. -/
def kobjGcLocked (s : Store) : Store := s.withMem s.swept

----
-- Sections
----

inductive StoreOp where
  | enter (t : Nat)
  | leave (t : Nat)
  | call (op : Op)
  | alloc (cur untypedSlot : Nat) (typ : KobjType) (pages : Nat)
  | carveFails (cur : Nat)
  | retypeName (cur dest : Nat)
  | schedName (cur dest parentSlot parentSerial : Nat) (rights : Rights) (origin : Origin)
  | drop (cur : Nat)
  | revoke (cur slot : Nat)
  | closeEnd (id slot : Nat)
  | die (id : Nat)
  | bury (id : Nat) (scratch : Scratch)
  | shlibFrame
  | mapFrame (i : Nat) (mapped : Bool)

namespace Store

/- `kobj_alloc` on the way to a capability. -/
def alloc (cfg : MemConfig) (s : Store) (cur untypedSlot : Nat)
    (typ : KobjType) (pages : Nat) : Store :=
  match untypedFromSlot s.sys cur untypedSlot Right.write, typ.indexed with
  | some u, some cls =>
    let r := s.mem.kobjAlloc cfg u typ pages
    match r.1 with
    | none => s
    | some (_, index) =>
    let i := index - cls.dynBase
    { s.withMem r.2 with
      making := update s.making cur (some ⟨cls, i, false⟩)
      ids := update s.ids cls (update (s.ids cls) i s.nextId)
      nextId := s.nextId + 1 }
  | _, _ => s

/-
  The object has been named, which unpins it, or it could not
  be, and is dropped in the next section of the call.
-/
def afterName (s : Store) (cur : Nat) (x : Making) (r : Bool × CapState) : Store :=
  let s' := s.withCap r.2
  if r.1 then
    { s'.withMem (s'.mem.kobjNoteNamed x.cls.capType (x.cls.dynBase + x.index)) with
      making := update s.making cur none }
  else { s' with making := update s.making cur (some { x with failed := true }) }

/-
  `shlib_init` takes a frame of the kernel's region. It is
  kept because it is the library's, not by a pin.
-/
def shlibFrame (cfg : MemConfig) (s : Store) : Store :=
  let r := s.mem.kobjAlloc cfg untypedKernel .frame 1
  match r.1 with
  | none => s
  | some (_, index) =>
  let i := index - KobjClass.frame.dynBase
  { s.withMem (r.2.kobjUnpin .frame i) with
    shlib := update s.shlib i true
    ids := update s.ids .frame (update (s.ids .frame) i s.nextId)
    nextId := s.nextId + 1 }

end Store

/- `cap_install_from_root` notes what it has named. -/
def noteFromRoot (before after : Store) : Op → Store
  | .installFromRoot _ _ rootSlot object =>
    after.withMem (after.mem.kobjNoteNamed (before.sys.cap.mem ⟨rootSpace, rootSlot⟩).typ object)
  | _ => after

def storeExec (cfg : MemConfig) (s : Store) : StoreOp → Store
  | .enter t => { s with inCall := update s.inCall t true }
  | .leave t => { s with inCall := update s.inCall t false }
  | .call op =>
    let done := s.withSys (exec s.sys op).2
    if (exec s.sys op).1 then noteFromRoot s done op else done
  | .alloc cur untypedSlot typ pages => s.alloc cfg cur untypedSlot typ pages
  | .carveFails cur =>
    { s with making := update s.making cur ((s.making cur).map ({ · with failed := true })) }
  | .retypeName cur dest =>
    match s.making cur with
    | none => s
    | some x =>
      s.afterName cur x (capInstallObject s.sys.cap cur dest x.cls.capType (x.cls.dynBase + x.index)
          (Right.read ||| Right.write ||| Right.grant ||| Right.mint ||| Right.revoke) .retype)
  | .schedName cur dest parentSlot parentSerial rights origin =>
    match s.making cur with
    | none => s
    | some x =>
      s.afterName cur x (capInstallDerivedObject s.sys.cap cur dest
          parentSlot parentSerial x.cls.capType
          (x.cls.dynBase + x.index) rights origin)
  | .drop cur =>
    match s.making cur with
    | none => s
    | some x =>
      { s.withMem (s.mem.destroyDyn x.cls x.index (s.mapped x.index)) with
        making := update s.making cur none }
  | .revoke cur slot => kobjGcLocked (s.withSys (capRevoke s.sys cur slot).2)
  | .closeEnd id slot => s.withSys (hPipeClose s.sys id slot).2
  | .die id => { s.withCap (abandonTask s.sys.cap id) with dying := update s.dying id true }
  | .bury id scratch =>
    kobjGcLocked
      { s.withCap (releaseCspace s.sys.cap id scratch) with dying := update s.dying id false }
  | .shlibFrame => s.shlibFrame cfg
  | .mapFrame i mapped => { s with mapped := update s.mapped i mapped }

/- A slot that a new task can be given. -/
def Store.reusable (s : Store) (id : Nat) : Bool :=
  s.sys.cap.freeSlot id && !s.dying id && !s.inCall id

/-
  What the kernel installs from its root table is static, or a
  frame of the shared library.
-/
def Store.rootNames (s : Store) (rootSlot object : Nat) : Bool :=
  match dynEntry (s.sys.cap.mem ⟨rootSpace, rootSlot⟩).typ object with
  | none => true
  | some (cls, i) => cls = .frame ∧ s.shlib i = true

/-
  When a section of a call can come. The callers of the second
  group hold the spawn lock, as every death does, so they are
  alive; those of the third may have been killed meanwhile.
-/
def callEnabled (s : Store) : Op → Bool
  | .createTask id _ => s.reusable id
  | .spawnAborted id _ => s.reusable id
  | .installFromRoot pid _ rootSlot object => s.sys.cap.running pid && s.rootNames rootSlot object
  | .fork parent child _ => s.sys.cap.running parent && s.reusable child
  | .grantInto cur target _ _ _ => s.sys.cap.running cur && s.sys.cap.running target
  | .childPipeEnd child _ spawner _ _ => s.sys.cap.running child && s.sys.cap.running spawner
  | .childTcb cur _ => s.sys.cap.running cur
  | .installReplyFor pid _ _ => s.inCall pid
  | .consumeReply cur => s.inCall cur
  | .mint cur _ _ _ => s.inCall cur
  | .mintToken cur _ _ _ _ => s.inCall cur
  | .transfer cur _ _ => s.inCall cur
  | .grant cur _ _ _ => s.inCall cur
  | .replyMint pid _ _ _ _ _ _ => s.inCall pid
  | .pipe cur => s.inCall cur
  | .pipeClose cur _ => s.inCall cur
  | .untypedSplit cur _ _ _ => s.inCall cur
  | _ => false

def storeEnabled (s : Store) : StoreOp → Bool
  | .enter t => s.sys.cap.running t && !s.inCall t
  | .leave t => s.inCall t && (s.making t).isNone
  | .call op => callEnabled s op
  | .alloc cur _ typ _ => s.inCall cur && (s.making cur).isNone && typ.indexed.isSome
  | .carveFails cur =>
    match s.making cur with
    | none => false
    | some x => x.cls = .schedContext ∧ x.failed = false
  | .retypeName cur _ =>
    match s.making cur with
    | none => false
    | some x => x.cls ≠ .schedContext ∧ x.failed = false
  | .schedName cur _ _ _ _ _ =>
    match s.making cur with
    | none => false
    | some x => x.cls = .schedContext ∧ x.failed = false
  | .drop cur =>
    match s.making cur with
    | none => false
    | some x => x.failed
  | .revoke cur _ => s.inCall cur
  | .closeEnd id slot =>
    s.sys.cap.running id && match (s.sys.cap.tasks id).cspace with
      | none => false
      | some space => (s.sys.cap.mem ⟨space, slot⟩).typ = .pipe
  | .die id => id ≠ 0 ∧ s.sys.cap.running id = true
  | .bury id _ => s.dying id
  | .shlibFrame => true
  | .mapFrame _ _ => true

/- Any interleaving whose steps also meet the condition `C`. -/
def StoreRun (cfg : MemConfig) (C : Store → StoreOp → Prop) : Store → Store → Prop :=
  Lib.Run (storeExec cfg) (fun s op => storeEnabled s op = true ∧ C s op)

end Horus
