import Horus.Paging.Frames
import Mathlib.Data.List.Sort

/-
  Address spaces and page faults.

  An address space is its tables and its last-level entries.
  The tables of the user half are found by level and by the
  bits of the address above them, the entries by the number of
  the virtual page. An entry in swap holds the slot instead of
  an address. The user half has no large pages.
-/

namespace Horus.Paging

open Lib

/-
  The accessed and dirty bits only steer which page an
  eviction takes, and are left out.
-/
structure Pte where
  addr : Nat
  present : Bool
  write : Bool
  user : Bool
  cow : Bool
  sealed : Bool
  swapped : Bool
  nx : Bool
deriving DecidableEq, Repr

/- The entry that is zero. -/
def Pte.empty : Pte where
  addr := 0
  present := false
  write := false
  user := false
  cow := false
  sealed := false
  swapped := false
  nx := false

/- A present user page with the protection given. -/
def Pte.userPage (addr : Nat) (write nx : Bool) : Pte :=
  { Pte.empty with addr := addr, present := true, write := write, user := true, nx := nx }

/- Not present and in swap. -/
def Pte.inSwap (e : Pte) : Bool := !e.present && e.swapped

/- Present and naming the frame. -/
def Pte.names (e : Pte) (f : Nat) : Bool := e.present && e.addr == f

def lowStackBase : Nat := 0x7df000

def lowStackTop : Nat := 0x7ff000

def userMaxVaddr : Nat := 0x800000000000

/- `rust_user_page_is_noexec`. -/
def userPageIsNoexec (va : Nat) : Bool :=
  (0x7d0000 ≤ va && va < 0x800000) || (0x7ff000000000 - 0x100000 ≤ va &&
      va < 0x7ff000000000 + 0x100000)

/- The parts of a task that may be paged in. -/
structure Bounds where
  imageBase : Nat
  imageEnd : Nat
  heapStart : Nat
  heapEnd : Nat
deriving DecidableEq, Repr

/- `rust_validate_page_fault`. -/
def validatePageFault (b : Bounds) (va : Nat) : Bool :=
  va < userMaxVaddr && ((b.imageBase != 0 && b.imageBase ≤ va && va < b.imageEnd) ||
      (b.heapStart != 0 && b.heapStart ≤ va && va < b.heapEnd) ||
      (lowStackBase ≤ va && va < lowStackTop))

/-
  A table is keyed by its level (3 below the root, 1 above the
  pages) and by the part of the page number above it.
-/
structure Space where
  pml4 : Nat
  tables : Table (Nat × Nat) Nat
  leaves : Table Nat Pte

def Space.leaf (sp : Space) (vp : Nat) : Pte := (sp.leaves.get vp).getD Pte.empty

def Space.setLeaf (sp : Space) (vp : Nat) (e : Pte) : Space :=
  { sp with leaves := sp.leaves.set vp e }

def Space.addTable (sp : Space) (k : Nat × Nat) (f : Nat) : Space :=
  { sp with tables := sp.tables.set k f }

/- `user_table_next`: the table, made when it is not there. -/
def userTableNext (fr : Frames) (sp : Space) (k : Nat × Nat) : Option (Frames × Space) :=
  match sp.tables.get k with
  | some _ => some (fr, sp)
  | none =>
    match allocUserPhysicalPage fr with
    | none => none
    | some (f, fr') => some (fr', sp.addTable k f)

/- The tables above a page, from the top. -/
def tableKeys (vp : Nat) : List (Nat × Nat) := [(3, vp / 2 ^ 27), (2, vp / 2 ^ 18), (1, vp / 2 ^ 9)]

/- Tables made in turn, up to the first that cannot be. -/
def makeTables (fr : Frames) (sp : Space) : List (Nat × Nat) → Frames × Space × Bool
  | [] => (fr, sp, true)
  | k :: ks =>
    match userTableNext fr sp k with
    | none => (fr, sp, false)
    | some (fr', sp') => makeTables fr' sp' ks

/- `user_pte_slot`: whether the entry of the page can be had. -/
def userPteSlot (fr : Frames) (sp : Space) (vp : Nat) : Frames × Space × Bool :=
  if vp < 2 ^ 35 then makeTables fr sp (tableKeys vp) else (fr, sp, false)

/- The swap slot of an entry that is written over. -/
def dropSwapped (fr : Frames) (e : Pte) : Frames := if e.inSwap then swapLetGo fr e.addr else fr

def userMapPage (fr : Frames) (sp : Space) (vp : Nat) (e : Pte) : Frames × Space × Bool :=
  match userPteSlot fr sp vp with
  | (fr', sp', false) => (fr', sp', false)
  | (fr', sp', true) => (dropSwapped fr' (sp'.leaf vp), sp'.setLeaf vp e, true)

/- A frame of the pool with given contents, mapped. -/
def userMapFreshPage (m : Machine) (fr : Frames) (sp : Space) (vp : Nat)
    (nx : Bool) : Frames × Space × Bool :=
  match allocUserPhysicalPage fr with
  | none => (fr, sp, false)
  | some (f, fr') =>
  match userMapPage (fr'.setPage f zeroPage) sp vp (Pte.userPage f true nx) with
  | (fr'', sp', true) => (fr'', sp', true)
  | (fr'', sp', false) => (freeUserPhysicalPage m fr'' f, sp', false)

----
-- Page Faults
----

/- The entry after a copy-on-write break. -/
def Pte.broken (e : Pte) (f va : Nat) : Pte :=
  { e with addr := f, present := true, write := true, cow := false, nx := userPageIsNoexec va }

/- `rust_cow_copy_required`. -/
def cowCopyRequired (isCow isWrite : Bool) (refs : Int) : Bool :=
  isCow && isWrite && decide (1 < refs)

/- The reference a break dropped, taken again. -/
def retakeRef (m : Machine) (fr : Frames) (phys : Nat) (refs : Int) : Frames :=
  if 0 ≤ refs then rustPageRefInc m fr phys else fr

def cowBreakPte (m : Machine) (fr : Frames) (e : Pte) (va : Nat) : Frames × Pte × Int :=
  if e.sealed then (fr, e, -5)
  else if m.arena e.addr then (fr, e, -4)
  else
    match rustPageRefDec m fr e.addr with
    | (fr', refs) =>
      if cowCopyRequired true true ((if 0 < refs then refs else 0) + 1) then
        match allocUserPhysicalPage fr' with
        | none => (retakeRef m fr' e.addr refs, e, -3)
        | some (f, fr'') => (fr''.setPage f (fr''.mem e.addr), e.broken f va, 0)
      else (retakeRef m fr' e.addr refs, e.broken e.addr va, 0)

/- The entry when a page has come back from swap. -/
def Pte.backIn (e : Pte) (f : Nat) : Pte :=
  { e with addr := f, present := true, sealed := false, swapped := false }

/- `read` says whether the page can be had from the store. -/
def swapFaultIn (m : Machine) (fr : Frames) (e : Pte) (read : Bool) : Frames × Pte × Int :=
  match allocUserPhysicalPage fr with
  | none => (fr, e, -3)
  | some (f, fr') =>
    match fr'.slot e.addr, read with
    | some v, true => (swapLetGo (fr'.setPage f v.page) e.addr, e.backIn f, 0)
    | _, _ => (freeUserPhysicalPage m fr' f, e, -7)

/- A frame with zeros for the page, if there is one. -/
def freshLeaf (fr : Frames) (e : Pte) (va : Nat) : Frames × Pte × Int :=
  match allocUserPhysicalPage fr with
  | none => (fr, e, -3)
  | some (f, fr') => (fr'.setPage f zeroPage, Pte.userPage f true (userPageIsNoexec va), 0)

/- What `handle_demand_page_fault` does with the entry. -/
def faultLeaf (m : Machine) (b : Bounds) (fr : Frames) (e : Pte) (va : Nat)
    (isWrite read : Bool) : Frames × Pte × Int :=
  if e.inSwap then swapFaultIn m fr e read
  else if isWrite ∧ e.cow then if e.addr = m.zero then freshLeaf fr e va else cowBreakPte m fr e va
  else if isWrite ∧ e.present ∧ e.sealed then (fr, e, -6)
  else if e.present then (fr, e, -2)
  else if ¬ validatePageFault b va then (fr, e, -1)
  else if ¬ isWrite ∧ m.zero ≠ 0 then
    (fr, { Pte.userPage m.zero false (userPageIsNoexec va) with cow := true }, 0)
  else freshLeaf fr e va

/-
  The fault of one address space: the table below the root has
  to be there, the others are made.
-/
def faultSpace (m : Machine) (b : Bounds) (fr : Frames) (sp : Space)
    (va : Nat) (isWrite read : Bool) : Frames × Space × Int :=
  match sp.tables.get (3, va / pageSize / 2 ^ 27) with
  | none => (fr, sp, -1)
  | some _ =>
  match makeTables fr sp (tableKeys (va / pageSize)) with
  | (fr', sp', false) => (fr', sp', -3)
  | (fr', sp', true) =>
    match faultLeaf m b fr' (sp'.leaf (va / pageSize)) va isWrite read with
    | (fr'', e, rc) => (fr'', sp'.setLeaf (va / pageSize) e, rc)

def swapEvictable (m : Machine) (fr : Frames) (e : Pte) : Prop :=
  e.present = true ∧ e.user = true ∧ e.cow = false ∧
    e.sealed = false ∧ e.addr ≠ m.zero ∧ m.inPool e.addr ∧
    fr.loan e.addr = true ∧ fr.refs e.addr = 1

instance (m : Machine) (fr : Frames) (e : Pte) : Decidable (swapEvictable m fr e) :=
  inferInstanceAs (Decidable (_ ∧ _))

/- The entry when the page has gone to a slot. -/
def Pte.goneOut (e : Pte) (n : Nat) : Pte :=
  { e with addr := n, present := false, sealed := false, swapped := true }

/- One page of an address space goes to a free slot. -/
def evictLeaf (m : Machine) (b : Bounds) (fr : Frames) (sp : Space) (vp n : Nat) : Frames × Space :=
  if swapEvictable m fr (sp.leaf vp) ∧ validatePageFault b (vp * pageSize) = true ∧
      (fr.slot n).isNone then
    (userLeafRelease m (swapStore fr n (fr.mem (sp.leaf vp).addr)) (sp.leaf vp).addr,
      sp.setLeaf vp ((sp.leaf vp).goneOut n))
  else (fr, sp)

/- The entry that parent and child have after a fork. -/
def Pte.shared (e : Pte) : Pte :=
  if e.inSwap then if e.write then { e with write := false, cow := true } else e
  else { e with write := false, cow := true }

/-
  One page of `clone_user_aspace`; the answer is false when
  the clone has to be given up.
-/
def forkStep (m : Machine) (fr : Frames) (parent child : Space)
    (vp : Nat) : Frames × Space × Space × Bool :=
  if (parent.leaf vp).inSwap then
    match userMapPage fr child vp (parent.leaf vp).shared with
    | (fr', child', false) => (fr', parent, child', false)
    | (fr', child', true) =>
      (swapShare fr' (parent.leaf vp).addr, parent.setLeaf vp (parent.leaf vp).shared, child', true)
  else if (parent.leaf vp).present = false ∨ (parent.leaf vp).user = false then
    (fr, parent, child, true)
  else if m.arena (parent.leaf vp).addr ∨ (parent.leaf vp).sealed then (fr, parent, child, false)
  else
    match userMapPage fr child vp (parent.leaf vp).shared with
    | (fr', child', false) => (fr', parent, child', false)
    | (fr', child', true) =>
      (rustPageRefInc m fr' (parent.leaf vp).addr,
        parent.setLeaf vp (parent.leaf vp).shared, child',
        true)

def forkLoop (m : Machine) (fr : Frames) (parent child : Space) :
    List Nat → Frames × Space × Space × Bool
  | [] => (fr, parent, child, true)
  | vp :: vps =>
    match forkStep m fr parent child vp with
    | (fr', parent', child', false) => (fr', parent', child', false)
    | (fr', parent', child', true) => forkLoop m fr' parent' child' vps

/- The pages with an entry, in the order of their addresses. -/
def Space.pages (sp : Space) : List Nat := (sp.leaves.map Prod.fst).dedup.insertionSort (· ≤ ·)

/- What is let go of when an address space is freed. -/
inductive Held where
  | page (e : Pte)
  | table (f : Nat)
deriving DecidableEq, Repr

/-
  Tables are freed after what is below them: the key is the
  last page covered, then the level.
-/
def Space.held (sp : Space) : List (Nat × Nat × Held) :=
  sp.leaves.map (fun p => (p.1, 0, Held.page p.2)) ++ sp.tables.map (fun p =>
      ((p.1.2 + 1) * 2 ^ (9 * p.1.1) - 1, p.1.1, Held.table p.2))

def Space.teardown (sp : Space) : List Held :=
  (sp.held.insertionSort fun a b => a.1 < b.1 ∨ (a.1 = b.1 ∧ a.2.1 ≤ b.2.1)).map (·.2.2)

def releaseHeld (m : Machine) (fr : Frames) : Held → Frames
  | .page e =>
    if e.inSwap then swapLetGo fr e.addr
    else if e.present then userLeafRelease m fr e.addr
    else fr
  | .table f => freeUserPhysicalPage m fr f

def freeUserAspace (m : Machine) (fr : Frames) (sp : Space) : Frames :=
  freeUserPhysicalPage m (sp.teardown.foldl (releaseHeld m) fr) sp.pml4

/- A page of registers that only the kernel may use. -/
def Pte.window (w : Nat) : Pte :=
  { Pte.empty with addr := w, present := true, write := true, nx := true }

def ensureIdentityMmioPage (fr : Frames) (sp : Space) (w : Nat) : Frames × Space :=
  match makeTables fr sp (tableKeys (w / pageSize)) with
  | (fr', sp', false) => (fr', sp')
  | (fr', sp', true) => (fr', sp'.setLeaf (w / pageSize) (Pte.window w))

def ensureWindows (fr : Frames) (sp : Space) : List Nat → Frames × Space
  | [] => (fr, sp)
  | w :: ws =>
    match ensureIdentityMmioPage fr sp w with
    | (fr', sp') => ensureWindows fr' sp' ws

end Horus.Paging
