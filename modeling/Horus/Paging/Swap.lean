import Horus.Lib.Aead
import Horus.Lib.Bytes
import Horus.Lib.Runs
import Mathlib.Data.Finset.Card
import Mathlib.Algebra.Ring.Nat

/-
  The sealed swap slot store.

  The partition is an array of slots of one page. A page is
  sealed under a fresh generation and written to a free slot;
  the generation and the tag stay in memory. The scheme that
  seals is ideal, and the blocks of the partition may be
  replaced by anybody at any time. Every call holds the lock
  of the store, so a call is one step.
-/

namespace Horus.Paging

open Lib

/- What memory holds for one slot; generation 0 is free. -/
structure SwapSlot where
  gen : Nat
  tag : List UInt8
  refs : Nat
deriving DecidableEq, Repr

def SwapSlot.free : SwapSlot where
  gen := 0
  tag := List.replicate 16 0
  refs := 0

/- The calls that returned, as the callers count them. -/
inductive SwapCall where
  | put (slot : Nat) (page : List UInt8)
  | ref (slot : Nat)
  | free (slot : Nat)
deriving DecidableEq, Repr

/-
  `disk` is the partition, `sealed` all that was sealed in
  this boot. `issued` and `calls` are history: how often a
  generation was taken, and the calls, the latest first.
-/
structure Swap where
  on : Bool
  slots : Nat
  used : Nat
  hint : Nat
  gen : Nat
  slot : Nat → SwapSlot
  disk : Nat → List UInt8
  sealed : List Sealed
  issued : Nat
  calls : List SwapCall

/- Before `swap_enable`. -/
def Swap.boot (disk : Nat → List UInt8) : Swap where
  on := false
  slots := 0
  used := 0
  hint := 0
  gen := 0
  slot := fun _ => SwapSlot.free
  disk := disk
  sealed := []
  issued := 0
  calls := []

def slotsPerFrame : Nat := 128

def dirEntries : Nat := 1024

def swapDirs : Nat := 4

def swapSlotsMax : Nat := swapDirs * dirEntries * slotsPerFrame

/- The bytes of "horuswap". -/
def swapLabel : List UInt8 := [104, 111, 114, 117, 115, 119, 97, 112]

/- The nonce and the authenticated data. -/
def sealParams (slot gen : Nat) : List UInt8 × List UInt8 :=
  (leBytes 4 slot ++ leBytes 8 gen, swapLabel ++ leBytes 8 slot ++ leBytes 8 gen)

/-
  What the scheme and the device answer: the ciphertext and
  the tag, unless sealing fails, and whether the write is
  reported as done.
-/
structure SealIo where
  made : Option (List UInt8 × List UInt8)
  written : Bool
deriving DecidableEq, Repr

/- A generation is taken. -/
def Swap.issue (s : Swap) : Swap := { s with gen := (s.gen + 1) % 2 ^ 64, issued := s.issued + 1 }

/- The entry for a page sealed under the current generation. -/
def Swap.entry (s : Swap) (slot : Nat) (page cipher tag : List UInt8) : Sealed where
  nonce := (sealParams slot s.gen).1
  aad := (sealParams slot s.gen).2
  plain := page
  cipher := cipher
  tag := tag

def Swap.noteSealed (s : Swap) (e : Sealed) : Swap := { s with sealed := e :: s.sealed }

/- The slot takes the current generation. -/
def Swap.fill (s : Swap) (slot : Nat) (cipher tag : List UInt8) : Swap :=
  { s with
    disk := Function.update s.disk slot cipher
    slot := Function.update s.slot slot
      { gen := s.gen
        tag := tag
        refs := if (s.slot slot).refs = 0 then 1
          else (s.slot slot).refs } }

/-
  A write that is reported as failed may still have reached
  the disk; that is a later replacement of the block.
-/
def sealAndWrite (s : Swap) (slot : Nat) (page : List UInt8) (io : SealIo) : Swap × Bool :=
  match io.made with
  | none => (s.issue, false)
  | some (cipher, tag) =>
  if io.written then
    ((s.issue.noteSealed (s.issue.entry slot page cipher tag)).fill slot cipher tag, true)
  else (s.issue.noteSealed (s.issue.entry slot page cipher tag), false)

/- The slot the scan from the hint stops at. -/
def Swap.freeSlot (s : Swap) : Option Nat :=
  ((List.range s.slots).map
    fun k => (s.hint + k) % s.slots).find?
      fun i => (s.slot i).gen = 0

def Swap.taken (s : Swap) (slot : Nat) : Swap :=
  { s with used := (s.used + 1) % 2 ^ 64, hint := slot + 1 }

def Swap.note (s : Swap) (c : SwapCall) : Swap := { s with calls := c :: s.calls }

/- The answer is the code and the slot given back. -/
def swapPut (s : Swap) (page : List UInt8) (io : SealIo) : Swap × Int × Option Nat :=
  if s.on then
    match s.freeSlot with
    | none => (s, -1, none)
    | some slot =>
      match sealAndWrite s slot page io with
      | (s', false) => (s', -1, none)
      | (s', true) => ((s'.taken slot).note (.put slot page), 0, some slot)
  else (s, -1, none)

def Swap.setSlot (s : Swap) (slot : Nat) (v : SwapSlot) : Swap :=
  { s with slot := Function.update s.slot slot v }

def swapRef (s : Swap) (slot : Nat) : Swap :=
  if s.on ∧ slot < s.slots ∧ (s.slot slot).gen ≠ 0 then
    s.setSlot slot { s.slot slot with refs := ((s.slot slot).refs + 1) % 2 ^ 32 }
  else s

/-
  The answer is the code and what the caller's page holds
  afterwards; `read` says whether the device read succeeds.
-/
def swapGet (s : Swap) (slot : Nat) (page : List UInt8) (read : Bool) : Int × List UInt8 :=
  if ¬ s.on then (-3, page)
  else if s.slots ≤ slot ∨ (s.slot slot).gen = 0 then (-3, page)
  else if ¬ read then (-2, page)
  else
    match openSealed s.sealed (sealParams slot (s.slot slot).gen).1
        (sealParams slot (s.slot slot).gen).2
        (s.disk slot) (s.slot slot).tag with
    | none => (-1, page)
    | some plain => (0, plain)

def Swap.dropUsed (s : Swap) : Swap :=
  { s with used := if s.used = 0 then 2 ^ 64 - 1 else s.used - 1 }

def swapFree (s : Swap) (slot : Nat) : Swap :=
  if s.on ∧ slot < s.slots then
    if (s.slot slot).gen ≠ 0 ∧ 1 < (s.slot slot).refs then
      s.setSlot slot { s.slot slot with refs := (s.slot slot).refs - 1 }
    else if (s.slot slot).gen ≠ 0 then s.dropUsed.setSlot slot SwapSlot.free
    else s.setSlot slot SwapSlot.free
  else s

/- `memory` says whether the pool has the frames it takes. -/
def swapEnable (s : Swap) (count : Nat) (memory : Bool) : Swap :=
  if s.on ∨ count = 0 ∨ memory = false then s
  else
    { s with
      on := true
      slots := min count swapSlotsMax
      used := 0
      hint := 0
      gen := 0
      slot := fun _ => SwapSlot.free }

/- `tamper` replaces a block of the partition. -/
inductive SwapOp where
  | enable (count : Nat) (memory : Bool)
  | put (page : List UInt8) (io : SealIo)
  | ref (slot : Nat)
  | get (slot : Nat) (page : List UInt8) (read : Bool)
  | free (slot : Nat)
  | tamper (slot : Nat) (block : List UInt8)
deriving DecidableEq, Repr

def Swap.tamper (s : Swap) (slot : Nat) (block : List UInt8) : Swap :=
  { s with disk := Function.update s.disk slot block }

/- Reading a slot changes nothing of the store. -/
def Swap.apply (s : Swap) : SwapOp → Swap
  | .enable count memory => swapEnable s count memory
  | .put page io => (swapPut s page io).1
  | .ref slot => (swapRef s slot).note (.ref slot)
  | .get _ _ _ => s
  | .free slot => (swapFree s slot).note (.free slot)
  | .tamper slot block => s.tamper slot block

/- The page of the put that last returned the slot. -/
def lastPut (slot : Nat) : List SwapCall → Option (List UInt8)
  | [] => none
  | .put i page :: cs => if i = slot then some page else lastPut slot cs
  | _ :: cs => lastPut slot cs

/- How often the slot was referenced since that put. -/
def refsSince (slot : Nat) : List SwapCall → Nat
  | [] => 0
  | .put i _ :: cs => if i = slot then 0 else refsSince slot cs
  | .ref i :: cs => if i = slot then refsSince slot cs + 1 else refsSince slot cs
  | .free _ :: cs => refsSince slot cs

/- How often the slot was released since that put. -/
def freesSince (slot : Nat) : List SwapCall → Nat
  | [] => 0
  | .put i _ :: cs => if i = slot then 0 else freesSince slot cs
  | .ref _ :: cs => freesSince slot cs
  | .free i :: cs => if i = slot then freesSince slot cs + 1 else freesSince slot cs

/- The slots in use, of the first `n` of a table. -/
def slotsInUse (n : Nat) (slot : Nat → SwapSlot) : Finset Nat :=
  (Finset.range n).filter fun i => (slot i).gen ≠ 0

def Swap.inUse (s : Swap) : Finset Nat := slotsInUse s.slots s.slot

end Horus.Paging
