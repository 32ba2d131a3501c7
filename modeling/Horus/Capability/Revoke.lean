import Horus.Capability.Basic
import Horus.Lib.Marking

/-
  Revocation (`rust/src/capability.rs`).

  Revoking a capability marks its whole subtree in place,
  pass by pass, and then sweeps the marked slots. The pipe
  ends removed on the way are tallied so that the caller can
  release them.
-/

namespace Horus

open Function

def pipeTallyCells : Nat := 3
def pipeTallyGenMixed : Nat := 0xFFFFFFFF

/-
  Three cells a pipe: readers removed, writers removed, and
  the generation they named. A null tally has length 0.
-/
structure PipeTally where
  cells : Nat → Nat
  len : Nat

/- `PipeTally::note`. -/
def PipeTally.note (t : PipeTally) (c : Capability) : PipeTally :=
  if c.typ ≠ .pipe then t
  else
    let index := c.object % 2 ^ 32
    let generation := c.object / 2 ^ 32 % 2 ^ 32
    if t.len / pipeTallyCells ≤ index then t
    else
      let base := index * pipeTallyCells
      let writer := if c.rights &&& Right.write = 0 then 0 else 1
      let cells := update t.cells (base + writer) (min (t.cells (base + writer) + 1) 0xFFFFFFFF)
      if cells (base + 2) = 0 then { t with cells := update cells (base + 2) generation }
      else if cells (base + 2) ≠ generation then
        { t with cells := update cells (base + 2) pipeTallyGenMixed }
      else { t with cells := cells }

/- What a revocation reads and writes. -/
structure Sweep where
  mem : CapMem
  capsInUse : Nat → Nat
  tally : PipeTally

/- The loop of `mark_children_of`. -/
def markLoop (parentSerial : Nat) : List SlotRef → Sweep → Sweep
  | [], w => w
  | ref :: rest, w =>
    let c := w.mem ref.addr
    if c.typ = .null ∨ c.typ = .markNew ∨ c.typ = .markDone then markLoop parentSerial rest w
    else if c.serial = 0 ∨ c.badge = 0 then markLoop parentSerial rest w
    else if c.badge = parentSerial then
      markLoop parentSerial rest
        { w with mem := update w.mem ref.addr { c with typ := .markNew }, tally := w.tally.note c }
    else markLoop parentSerial rest w

def markChildrenOf (refs : List SlotRef) (parentSerial : Nat) (w : Sweep) : Sweep :=
  if parentSerial = 0 then w else markLoop parentSerial refs w

/- One iteration of the marking loop of `revoke_subtree`. -/
def promoteLoop (refs : List SlotRef) : List SlotRef → Sweep → Bool → Sweep × Bool
  | [], w, progress => (w, progress)
  | ref :: rest, w, progress =>
    let c := w.mem ref.addr
    if c.typ = .markNew then
      let w' := { w with mem := update w.mem ref.addr { c with typ := .markDone } }
      promoteLoop refs rest (if c.serial = 0 then w'
          else markChildrenOf refs c.serial w') true
    else promoteLoop refs rest w progress

/-
  The marking loop itself. Every pass but the last promotes a
  slot, so one pass more than there are slots always ends it.
-/
def promotePasses (refs : List SlotRef) : Nat → Sweep → Sweep
  | 0, w => w
  | fuel + 1, w =>
    if (promoteLoop refs refs w false).2 then
      promotePasses refs fuel (promoteLoop refs refs w false).1
    else (promoteLoop refs refs w false).1

/- `*caps_in_use -= 1` behind a null and a zero check. -/
def decrementInUse (counter : Option Nat) (capsInUse : Nat → Nat) : Nat → Nat :=
  match counter with
  | none => capsInUse
  | some t => update capsInUse t (capsInUse t - 1)

/- What the sweep removes from a slot that is not empty. -/
def sweepHit (rootSerial rootObject : Nat) (c : Capability) : Bool :=
  decide (c.typ = .markNew) || decide (c.typ = .markDone) ||
    (decide (rootSerial ≠ 0) && decide (c.serial = rootSerial)) ||
    (decide (rootSerial = 0) && decide (rootObject ≠ 0) && decide (c.object = rootObject))

/- The last loop of `revoke_subtree`. -/
def sweepLoop (rootSerial rootObject : Nat) : List SlotRef → Sweep → Sweep
  | [], w => w
  | ref :: rest, w =>
    let c := w.mem ref.addr
    if c.typ = .null then sweepLoop rootSerial rootObject rest w
    else if sweepHit rootSerial rootObject c then
      sweepLoop rootSerial rootObject rest
        { mem := update w.mem ref.addr Capability.nullify
          capsInUse := decrementInUse ref.capsInUse w.capsInUse
          tally := w.tally.note c }
    else sweepLoop rootSerial rootObject rest w

def revokeSubtree (spaces : List CSpaceDesc) (rootSerial rootObject : Nat) (w : Sweep) : Sweep :=
  let refs := slotRefs spaces
  sweepLoop rootSerial rootObject refs (if rootSerial = 0 then w
      else promotePasses refs (refs.length + 1) (markChildrenOf refs rootSerial w))

def isPrimordialRoot (mem : CapMem) (a : Addr) : Bool :=
  decide (a.slot < kernelReservedCaps) && serialIsPrimordial (mem a).serial

/-
  `rust_cap_revoke_global`, with the caller's array of every
  live capability space. The flag is the return value.
-/
def rustCapRevokeGlobal (space size slot : Nat) (counter : Option Nat)
    (spaces : List CSpaceDesc) (w : Sweep) : Bool × Sweep :=
  if size ≤ slot ∨ cnodeSize ≤ slot then (false, w)
  else if isPrimordialRoot w.mem ⟨space, slot⟩ then (false, w)
  else
    let target := w.mem ⟨space, slot⟩
    if target.typ = .null then (true, w)
    else
      (true, revokeSubtree spaces target.serial target.object
          { mem := update w.mem ⟨space, slot⟩ Capability.nullify
            capsInUse := decrementInUse counter w.capsInUse
            tally := w.tally.note target })

/- `rust_cap_revoke`: the same within one capability space. -/
def rustCapRevoke (space size slot : Nat) (w : Sweep) : Bool × Sweep :=
  rustCapRevokeGlobal space size slot none
    [{ caps := some space, size := size, capsInUse := none }] w

end Horus
