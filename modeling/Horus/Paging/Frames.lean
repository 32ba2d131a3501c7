import Horus.Lib.Table
import Mathlib.Algebra.Ring.Nat

/-
  The pool of page frames.

  Frames are named by their physical address. The pool keeps
  a stack of free frames, a count of references for each frame
  it spans, and a bit for the frames that are out on loan. The
  counts are 16 bits wide and are found by the low 32 bits of
  an address. The memory of the frames and the slots of the
  swap store are kept beside it.
-/

namespace Horus.Paging

open Function

/- The bytes of a page, by their offset. -/
abbrev Page : Type := Nat → UInt8

def zeroPage : Page := fun _ => 0

def pageSize : Nat := 4096

def userPhysBase : Nat := 0x01000000

/-
  What the boot found: how many frames the pool spans, the
  frames objects are carved from, the shared zero page (0 when
  there is none), and the device pages that the kernel maps
  for itself in every address space.
-/
structure Machine where
  pages : Nat
  pages_le : userPhysBase + pages * pageSize ≤ 2 ^ 32
  arena : Nat → Bool
  zero : Nat
  windows : List Nat

/- `pool_frame_index`. -/
def Machine.inPool (m : Machine) (f : Nat) : Prop :=
  userPhysBase ≤ f ∧ f % pageSize = 0 ∧ (f - userPhysBase) / pageSize < m.pages

instance (m : Machine) (f : Nat) : Decidable (m.inPool f) := inferInstanceAs (Decidable (_ ∧ _))

/-
  The counted page of an address: callers pass the address as
  32 bits.
-/
def Machine.refcIndex (m : Machine) (phys : Nat) : Option Nat :=
  if userPhysBase ≤ phys % 2 ^ 32 ∧ (phys % 2 ^ 32 - userPhysBase) / pageSize < m.pages then
    some (phys % 2 ^ 32 - phys % pageSize)
  else none

/- A page in the swap store and how many entries name it. -/
structure SwapPage where
  page : Page
  refs : Nat

/-
  `pinned` are the pages of frame objects, and `ever` the
  frames that were given out at some time.
-/
structure Frames where
  free : List Nat
  refs : Nat → Nat
  loan : Nat → Bool
  ever : Nat → Bool
  pinned : Nat → Bool
  mem : Nat → Page
  slot : Nat → Option SwapPage

def Frames.lend (fr : Frames) (f : Nat) (rest : List Nat) : Frames :=
  { fr with
    free := rest
    refs := update fr.refs f 1
    loan := update fr.loan f true
    ever := update fr.ever f true }

def allocUserPhysicalPage (fr : Frames) : Option (Nat × Frames) :=
  match fr.free with
  | [] => none
  | f :: rest => some (f, fr.lend f rest)

def Frames.takeBack (fr : Frames) (m : Machine) (f : Nat) : Frames :=
  { fr with
    loan := update fr.loan f false
    refs := update fr.refs f 0
    free := if fr.free.length < m.pages then f :: fr.free
      else fr.free }

def freeUserPhysicalPage (m : Machine) (fr : Frames) (f : Nat) : Frames :=
  if f = m.zero then fr
  else if m.inPool f ∧ fr.loan f = true then fr.takeBack m f
  else fr

def Frames.setRefs (fr : Frames) (f n : Nat) : Frames := { fr with refs := update fr.refs f n }

def rustPageRefInc (m : Machine) (fr : Frames) (phys : Nat) : Frames :=
  match m.refcIndex phys with
  | none => fr
  | some f => fr.setRefs f (min (fr.refs f + 1) 65535)

/- The answer is the new count, or what was wrong. -/
def rustPageRefDec (m : Machine) (fr : Frames) (phys : Nat) : Frames × Int :=
  match m.refcIndex phys with
  | none => (fr, -1)
  | some f =>
    if fr.refs f = 0 then (fr, -2) else (fr.setRefs f (fr.refs f - 1), (fr.refs f - 1 : Nat))

def pageRefInc (m : Machine) (fr : Frames) (phys : Nat) : Frames :=
  match m.refcIndex phys with
  | none => fr
  | some f => fr.setRefs f ((fr.refs f + 1) % 65536)

def pageRefDec (m : Machine) (fr : Frames) (phys : Nat) : Frames :=
  match m.refcIndex phys with
  | none => fr
  | some f => fr.setRefs f (fr.refs f - 1)

def userLeafRelease (m : Machine) (fr : Frames) (phys : Nat) : Frames :=
  match rustPageRefDec m fr phys with
  | (fr', refs) => if refs = 0 then freeUserPhysicalPage m fr' phys else fr'

/- A page of a frame object that is made. -/
def framePinRefcount (m : Machine) (fr : Frames) (f : Nat) : Frames :=
  if m.inPool f ∧ m.arena f = true ∧ fr.pinned f = false then
    { fr with
      pinned := update fr.pinned f true
      refs := if fr.refs f = 0 then update fr.refs f 1
        else fr.refs }
  else fr

/-
  A page of a frame object that is destroyed, which is put off
  while the page is mapped.
-/
def frameUnpinRefcount (fr : Frames) (f : Nat) : Frames :=
  if fr.pinned f = true ∧ fr.refs f ≤ 1 then
    { fr with
      pinned := update fr.pinned f false
      refs := if fr.refs f = 1 then update fr.refs f 0
        else fr.refs
      mem := update fr.mem f zeroPage }
  else fr

def Frames.setPage (fr : Frames) (f : Nat) (page : Page) : Frames :=
  { fr with mem := update fr.mem f page }

def Frames.setSlot (fr : Frames) (n : Nat) (v : Option SwapPage) : Frames :=
  { fr with slot := update fr.slot n v }

/- `swap_put`; the slot is one the store had free. -/
def swapStore (fr : Frames) (n : Nat) (page : Page) : Frames := fr.setSlot n (some ⟨page, 1⟩)

/- `swap_ref`. -/
def swapShare (fr : Frames) (n : Nat) : Frames :=
  match fr.slot n with
  | none => fr
  | some v => fr.setSlot n (some ⟨v.page, v.refs + 1⟩)

/- `swap_free`. -/
def swapLetGo (fr : Frames) (n : Nat) : Frames :=
  match fr.slot n with
  | none => fr
  | some v => if 1 < v.refs then fr.setSlot n (some ⟨v.page, v.refs - 1⟩) else fr.setSlot n none

end Horus.Paging
