import Horus.Capability.Revoke

/-
  The kernel state that the capability operations of
  `capability.c`, `pipe.c`, `untyped.c` and `scheduler.c` read
  and write.

  Two fields of `CapState` are not in the source. `log` keeps
  every capability ever installed together with the one it was
  made from, and `uncounted` keeps the slots whose occupant an
  uncounted installer placed. No operation reads them.
-/

namespace Horus

inductive TaskState where
  | dead
  | runnable
  | blockedIpc
  | blockedNotif
  | blockedWait
deriving DecidableEq, Repr

/- The fields of a task slot that capability code reads. -/
structure Tcb where
  state : TaskState
  slotGen : Nat
  cspace : Option Nat
  cspaceSize : Nat
deriving DecidableEq, Repr

namespace Tcb

def empty : Tcb := { state := .dead, slotGen := 0, cspace := none, cspaceSize := 0 }

/- `cspace_size ? cspace_size : CNODE_SIZE`. -/
def cspaceSz (t : Tcb) : Nat := if t.cspaceSize = 0 then cnodeSize else t.cspaceSize

end Tcb

def maxCapsPerTask : Nat := 128

def capslotReplyEp : Nat := 4
def stdinPipeSlot : Nat := 14
def stdoutPipeSlot : Nat := 15
def capslotReply : Nat := 21
def capslotDynamicFirst : Nat := 64
def libcSlotFirst : Nat := 128
def shlibMaxPages : Nat := 64

def maxPipes : Nat := 32

/- One entry of the pipe table, without its buffer. -/
structure Pipe where
  inUse : Bool
  gen : Nat
  readerEnds : Nat
  writerEnds : Nat
deriving DecidableEq, Repr

def maxUntyped : Nat := 64
def untypedKernel : Nat := 0
def untypedRoot : Nat := 1

/- A region of memory from which objects are carved. -/
structure Untyped where
  base : Nat
  size : Nat
  watermark : Nat
  objects : Nat
  inUse : Bool
deriving DecidableEq, Repr

def scPpmWhole : Nat := 1000000
def scMinPeriodUs : Nat := 10000
def scMaxPeriodUs : Nat := 10000000
def scRootBase : Nat := 1
def maxCpus : Nat := 8
def dynScBase : Nat := scRootBase + maxCpus
def scIndexMax : Nat := dynScBase + 256

/- A scheduling context: the part of a CPU it holds. -/
structure SchedContext where
  live : Bool
  cpu : Nat
  sharePpm : Nat
  periodUs : Nat
  slack : Bool
  parent : Nat
deriving DecidableEq, Repr

/-
  How a capability came to be. The first six are installed
  by the kernel from no other capability; a split also keeps
  which objects it was between and what they were.
-/
inductive Origin where
  | birth
  | fromRoot
  | retype
  | recvReply
  | childTcb
  | pipeEnd
  | mint
  | mintToken
  | transfer
  | grant
  | clone
  | replyMint
  | childPipe
  | untypedSplit (parentIndex childIndex : Nat) (parent child : Untyped)
  | schedSplit (parentIndex childIndex : Nat) (parent rest child : SchedContext)
deriving DecidableEq, Repr

/- One installation, with the source as it was then. -/
structure Derivation where
  origin : Origin
  source : Option Capability
  made : Capability
deriving DecidableEq, Repr

/- The capability spaces and the tables that lead to them. -/
structure CapState where
  mem : CapMem
  nextSerial : Nat
  capsInUse : Nat → Nat
  tasks : Nat → Tcb
  nextSpace : Nat
  maxTasks : Nat
  log : List Derivation
  uncounted : Addr → Bool

/- The tables of the objects that capabilities name. -/
structure ObjState where
  pipes : Nat → Pipe
  untypeds : Nat → Untyped
  scs : Nat → SchedContext

structure Sys where
  cap : CapState
  obj : ObjState

/- `root_cnode` is the space at pointer 0. -/
def rootSpace : Nat := 0

/- `tcb_object` and `reply_object` pack a task the same way. -/
def packTask (id gen : Nat) : Nat := gen * 2 ^ 16 % 2 ^ 64 + id % 2 ^ 16

namespace CapState

/- The slot of a task's own capability space. -/
def slotOf (s : CapState) (id slot : Nat) : Option Addr :=
  (s.tasks id).cspace.map fun space => ⟨space, slot⟩

def tcbObject (s : CapState) (id : Nat) : Nat := packTask id (s.tasks id).slotGen

end CapState

/- An entry of the boot table: serial `0xC0DE0000 + tag`. -/
def primordial (typ : CapType) (rights : Rights) (object tag : Nat) : Capability :=
  { typ := typ
    rights := rights
    object := object
    badge := 0
    serial := 0xC0DE0000 + tag
    token := 0 }

/- `cap_init`; `nic` is the network device, if one is found. -/
def rootCnode (nic : Option Nat) : Nat → Capability
  | 0 => primordial .tcb Right.all 0 1
  | 1 => primordial .notification (Right.read ||| Right.write) 0 2
  | 2 => primordial .endpoint (Right.read ||| Right.write ||| Right.grant) 0 3
  | 3 => primordial .frame (Right.read ||| Right.write ||| Right.exec) 0x400000 4
  | 6 => primordial .user Right.all 0 6
  | 7 => primordial .audit (Right.read ||| Right.auditWrite) 0 7
  | 8 => primordial .console Right.all 0 8
  | 9 => primordial .encryptedStorage Right.all 0 9
  | 10 => primordial .ioDevice Right.all 1 10
  | 11 => primordial .endpoint (Right.read ||| Right.write) 6 11
  | 12 => primordial .endpoint Right.write 6 12
  | 13 =>
    primordial .endpoint (Right.read ||| Right.write ||| Right.mint |||
        Right.grant ||| Right.revoke ||| (0xFF#32 <<< 10))
      4 13
  | 14 => primordial .notification (Right.read ||| Right.write) 0 14
  | 15 => primordial .kernelLog (Right.read ||| Right.mint ||| Right.revoke) 0 15
  | 16 => primordial .bootModule Right.read 0 16
  | 17 =>
    primordial .untyped (Right.read ||| Right.write ||| Right.grant |||
        Right.mint ||| Right.revoke) untypedRoot 17
  | 18 => primordial .debug (Right.read ||| Right.mint ||| Right.revoke) 0 18
  | 19 =>
    match nic with
    | some device => primordial .ioDevice Right.all device 19
    | none => Capability.nullify
  | 20 => primordial .frame (Right.read ||| Right.exec) 0 20
  | 21 => primordial .frame (Right.read ||| Right.write) 0 21
  | 22 => primordial .storageFormat (Right.read ||| Right.write) 0 22
  | 23 => primordial .endpoint (Right.write ||| Right.mint ||| Right.grant ||| Right.revoke) 6 23
  | 24 =>
    primordial .schedContext (Right.read ||| Right.write ||| Right.grant |||
        Right.mint ||| Right.revoke) 0 24
  | _ => Capability.nullify

end Horus
