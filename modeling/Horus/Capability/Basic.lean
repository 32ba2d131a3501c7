import Mathlib.Logic.Function.Basic
import Mathlib.Data.BitVec

/-
  The data model of the capability core
  (`rust/src/capability.rs` and `kernel.h`).

  A capability is one 40-byte record. Capability spaces are
  arrays of such records reached through pointers, so the
  memory maps an address, a pointer with a slot number, to the
  record stored there.
-/

namespace Horus

/-
  The capability types of `kernel.h`. The last two are the
  sentinels `CAP_MARK_NEW` and `CAP_MARK_DONE`, which a
  revocation writes over the type of a capability it is about
  to remove.
-/
inductive CapType where
  | null
  | tcb
  | notification
  | endpoint
  | frame
  | user
  | audit
  | console
  | encryptedStorage
  | revocation
  | blockDev
  | ioDevice
  | pipe
  | kernelLog
  | bootModule
  | untyped
  | reply
  | debug
  | storageFormat
  | schedContext
  | markNew
  | markDone
deriving DecidableEq, Repr

abbrev Rights := BitVec 32

namespace Right

def read : Rights := 1#32
def write : Rights := 2#32
def exec : Rights := 4#32
def grant : Rights := 8#32
def mint : Rights := 16#32
def revoke : Rights := 32#32
def auditWrite : Rights := 64#32
def priority : Rights := 128#32
def all : Rights := BitVec.allOnes 32

end Right

/- The rights a tokened capability never keeps. -/
def tokenStrippedRights : Rights := Right.read

/- `held` carries every right of `need`. -/
def hasRights (held need : Rights) : Bool := held &&& need == need

/-
  One capability. `badge` is the serial of the capability it
  was derived from, or 0 for a root; `serial` names this
  capability; `token` is the name a server gave it.
-/
structure Capability where
  typ : CapType
  rights : Rights
  object : Nat
  badge : Nat
  serial : Nat
  token : Nat
deriving DecidableEq, Repr

namespace Capability

/- What `nullify` leaves in a slot. -/
def nullify : Capability :=
  { typ := .null, rights := 0, object := 0, badge := 0, serial := 0, token := 0 }

end Capability

/- A slot of a capability space. -/
structure Addr where
  space : Nat
  slot : Nat
deriving DecidableEq, Repr

/- The contents of every capability space. -/
abbrev CapMem := Addr → Capability

def cnodeSize : Nat := 256
def kernelReservedCaps : Nat := 4

/-
  `CSpaceDesc`: a pointer to a capability space (null is
  `none`), its size, and the task whose `caps_in_use` counts
  it (null is `none`).
-/
structure CSpaceDesc where
  caps : Option Nat
  size : Nat
  capsInUse : Option Nat
deriving DecidableEq, Repr

/- One iteration of a loop over the slots of a descriptor. -/
structure SlotRef where
  addr : Addr
  capsInUse : Option Nat
deriving DecidableEq, Repr

/- The slots below `limit`, in the order of the inner loop. -/
def CSpaceDesc.slotRefs (d : CSpaceDesc) : List SlotRef :=
  match d.caps with
  | none => []
  | some space =>
    (List.range (min d.size cnodeSize)).map fun i =>
      { addr := { space := space, slot := i }, capsInUse := d.capsInUse }

/-
  Every iteration of the doubly nested loop over an array of
  descriptors, in order. Null descriptors contribute nothing.
-/
def slotRefs (spaces : List CSpaceDesc) : List SlotRef := spaces.flatMap CSpaceDesc.slotRefs

/- The addresses that a loop over `spaces` visits. -/
def slotAddrs (spaces : List CSpaceDesc) : List Addr := (slotRefs spaces).map SlotRef.addr

theorem mem_slotRefs_iff (spaces : List CSpaceDesc) (ref : SlotRef) :
    ref ∈ slotRefs spaces ↔ ∃ d ∈ spaces, d.caps = some ref.addr.space ∧
          ref.addr.slot < min d.size cnodeSize ∧ ref.capsInUse = d.capsInUse := by
  unfold slotRefs
  rw [List.mem_flatMap]
  refine exists_congr fun d => and_congr_right fun _ => ?_
  cases hCaps : d.caps with
  | none => simp [CSpaceDesc.slotRefs, hCaps]
  | some =>
  simp only [CSpaceDesc.slotRefs, hCaps, List.mem_map, List.mem_range, Option.some.injEq]
  constructor
  · rintro ⟨i, hi, rfl⟩
    exact ⟨rfl, hi, rfl⟩
  · rintro ⟨rfl, hSlot, hCounter⟩
    exact ⟨ref.addr.slot, hSlot, by rw [← hCounter]⟩

theorem mem_slotAddrs_iff (spaces : List CSpaceDesc) (a : Addr) :
    a ∈ slotAddrs spaces ↔ ∃ d ∈ spaces, d.caps = some a.space ∧ a.slot < min d.size cnodeSize := by
  unfold slotAddrs
  rw [List.mem_map]
  constructor
  · rintro ⟨ref, hRef, rfl⟩
    rcases (mem_slotRefs_iff spaces ref).mp hRef with ⟨d, hD, hCaps, hSlot, _⟩
    exact ⟨d, hD, hCaps, hSlot⟩
  · rintro ⟨d, hD, hCaps, hSlot⟩
    refine ⟨⟨a, d.capsInUse⟩, ?_, rfl⟩
    exact (mem_slotRefs_iff spaces _).mpr ⟨d, hD, hCaps, hSlot, rfl⟩

/- The first serials are left to the boot capabilities. -/
def minDerivedSerial : Nat := 2 ^ 32

/-
  `assign_fresh_serial`: the serial, or 0 when the 64-bit
  counter is exhausted, and the counter afterwards.
-/
def assignFreshSerial (nextSerial : Nat) : Nat × Nat :=
  let base := max nextSerial minDerivedSerial
  if base + 1 < 2 ^ 64 then (base + 1, base + 1) else (0, nextSerial)

/- The counter either advances with the serial or is spent. -/
theorem assignFreshSerial_cases (n : Nat) :
    ((assignFreshSerial n).1 = 0 ∧ (assignFreshSerial n).2 = n) ∨
    ((assignFreshSerial n).1 = max n minDerivedSerial + 1 ∧
      (assignFreshSerial n).2 = max n minDerivedSerial + 1) := by
  unfold assignFreshSerial
  dsimp only
  split
  · exact .inr ⟨rfl, rfl⟩
  · exact .inl ⟨rfl, rfl⟩

/- `serial_is_primordial`: the tag `0xC0DE` in bits 16-31. -/
def serialIsPrimordial (serial : Nat) : Bool := serial / 2 ^ 16 == 0xC0DE

end Horus
