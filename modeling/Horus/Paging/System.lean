import Horus.Paging.Space
import Horus.Lib.Runs

/-
  The paging of all tasks.

  The system is the pool, the address space of each task, and
  the address spaces whose release was put off because another
  processor had them loaded. A step is one kernel operation
  under the page lock, or one store by a task.
-/

namespace Horus.Paging

open Lib Function

structure Pg where
  fr : Frames
  space : Nat → Option Space
  deferred : List Space
  bounds : Nat → Bounds

def maxTasks : Nat := 256

def pendingAspaceMax : Nat := 16

def userAreaBase : Nat := 0x400000

def userAspacePremapPages : Nat := 32

def userImageMaxPages : Nat := 4096

def Pg.setSpace (s : Pg) (t : Nat) (sp : Option Space) : Pg :=
  { s with space := update s.space t sp }

def Pg.setFr (s : Pg) (fr : Frames) : Pg := { s with fr := fr }

/- A task has an address space of its own. -/
def isTask (t : Nat) : Prop := 0 < t ∧ t < maxTasks

instance (t : Nat) : Decidable (isTask t) := inferInstanceAs (Decidable (_ ∧ _))

/-
  `reclaim_deferred_aspaces`: those that no other processor
  has loaded. `loaded` are the roots that are.
-/
def reclaimDeferred (m : Machine) (loaded : List Nat) (fr : Frames) :
    List Space → Frames × List Space
  | [] => (fr, [])
  | sp :: sps =>
    if sp.pml4 ∈ loaded then
      match reclaimDeferred m loaded fr sps with
      | (fr', kept) => (fr', sp :: kept)
    else reclaimDeferred m loaded (freeUserAspace m fr sp) sps

/- The old address space of a task slot that is used again. -/
def releaseOld (m : Machine) (loaded : List Nat) (s : Pg) (t : Nat) : Pg :=
  match s.space t with
  | none => s
  | some sp =>
  match reclaimDeferred m loaded s.fr s.deferred with
  | (fr, kept) =>
    if sp.pml4 ∉ loaded then
      { s with fr := freeUserAspace m fr sp, deferred := kept, space := update s.space t none }
    else
      { s with
        fr := fr
        deferred := if kept.length < pendingAspaceMax then
            kept ++ [sp]
          else kept
        space := update s.space t none }

/- Pages mapped in turn, up to the first that cannot be. -/
def premap (m : Machine) (nx : Bool) (fr : Frames) (sp : Space) : List Nat → Frames × Space × Bool
  | [] => (fr, sp, true)
  | vp :: vps =>
    match userMapFreshPage m fr sp vp nx with
    | (fr', sp', false) => (fr', sp', false)
    | (fr', sp', true) => premap m nx fr' sp' vps

def lowStackPages : List Nat := (List.range 32).map fun i => lowStackBase / pageSize + i

/- The image window, then the low stack. -/
def buildSpace (m : Machine) (fr : Frames) (sp : Space)
    (image : List Nat) : Frames × Space × Bool :=
  match premap m false fr sp image with
  | (fr', sp', false) => (fr', sp', false)
  | (fr', sp', true) => premap m true fr' sp' lowStackPages

def imagePages (base count : Nat) : List Nat :=
  (List.range (min (if count = 0 then userAspacePremapPages else count)
    userImageMaxPages)).map fun p => (if base = 0 then userAreaBase else base) / pageSize + p

/- The address space of a task slot that has none. -/
def createFresh (m : Machine) (s : Pg) (t : Nat) (image : List Nat) : Pg :=
  match allocUserPhysicalPage s.fr with
  | none => s
  | some (root, fr) =>
  match buildSpace m fr ⟨root, [], []⟩ image with
  | (fr', sp, false) => s.setFr (freeUserAspace m fr' sp)
  | (fr', sp, true) =>
    match ensureWindows fr' sp m.windows with
    | (fr'', sp') => (s.setFr fr'').setSpace t (some sp')

/-
  `rust_get_user_page_protection` answers the default for
  every page of the image window, so the pages are writable.
-/
def createUserPagedir (m : Machine) (s : Pg) (t base count : Nat) (loaded : List Nat) : Pg :=
  if isTask t then createFresh m (releaseOld m loaded s t) t (imagePages base count) else s

/- Both address spaces after a clone that succeeded. -/
def Pg.forked (s : Pg) (fr : Frames) (child parent : Nat) (csp psp : Space) : Pg :=
  { fr := fr
    space := update (update s.space parent (some psp)) child (some csp)
    deferred := s.deferred
    bounds := update s.bounds child (s.bounds parent) }

/- The clone into a task slot that has no address space. -/
def cloneFresh (m : Machine) (s : Pg) (child parent : Nat) (psp : Space) : Pg × Int :=
  match allocUserPhysicalPage s.fr with
  | none => (s, -2)
  | some (root, fr) =>
  match forkLoop m fr psp ⟨root, [], []⟩ psp.pages with
  | (fr', psp', csp, false) =>
    ((s.setFr (freeUserAspace m fr' csp)).setSpace parent (some psp'), -3)
  | (fr', psp', csp, true) =>
    match ensureWindows fr' csp m.windows with
    | (fr'', csp') => (s.forked fr'' child parent csp' psp', 0)

/-
  `clone_user_aspace` for a fork of `parent`; the child takes
  over the bounds of the parent.
-/
def cloneUserAspace (m : Machine) (s : Pg) (child parent : Nat) (loaded : List Nat) : Pg × Int :=
  if isTask child ∧ child ≠ parent then
    match s.space parent with
    | none => (s, -1)
    | some psp => cloneFresh m (releaseOld m loaded s child) child parent psp
  else (s, -1)

/- One page of a task goes to a slot of the swap store. -/
def evictPage (m : Machine) (s : Pg) (t vp n : Nat) : Pg :=
  match s.space t with
  | none => s
  | some sp =>
    match evictLeaf m (s.bounds t) s.fr sp vp n with
    | (fr, sp') => (s.setFr fr).setSpace t (some sp')

/-
  What a fault meets: the pages that are evicted first when
  frames are short, and whether a page can be read back.
-/
structure FaultIo where
  evict : List (Nat × Nat × Nat)
  read : Bool
deriving DecidableEq, Repr

def evictAll (m : Machine) (s : Pg) (victims : List (Nat × Nat × Nat)) : Pg :=
  victims.foldl (fun s v => evictPage m s v.1 v.2.1 v.2.2) s

def demandFault (m : Machine) (s : Pg) (t va : Nat) (isWrite read : Bool) : Pg × Int :=
  match s.space t with
  | none => (s, -1)
  | some sp =>
    match faultSpace m (s.bounds t) s.fr sp va isWrite read with
    | (fr, sp', rc) => ((s.setFr fr).setSpace t (some sp'), rc)

def handleDemandPageFault (m : Machine) (s : Pg) (t va : Nat) (isWrite : Bool)
    (io : FaultIo) : Pg × Int :=
  demandFault m (evictAll m s io.evict) t va isWrite io.read

/-
  The addresses at which a fault is handled: where the task may
  page in, and, on the way of a copy to or from the task, where
  the entry is in swap or waits to be copied.
-/
def faultReaches (b : Bounds) (sp : Space) (va : Nat) (isWrite : Bool) : Bool :=
  validatePageFault b va || (sp.leaf (va / pageSize)).inSwap ||
    (isWrite && (sp.leaf (va / pageSize)).present && (sp.leaf (va / pageSize)).user &&
      (sp.leaf (va / pageSize)).cow &&
      !(sp.leaf (va / pageSize)).write)

def userMapDevicePage (s : Pg) (t vp phys : Nat) (writable : Bool) : Pg × Int :=
  match s.space t with
  | none => (s, -1)
  | some sp =>
  match userPteSlot s.fr sp vp with
  | (fr, sp', ok) =>
    if ok = true ∧ (sp'.leaf vp).sealed = true then ((s.setFr fr).setSpace t (some sp'), -1)
    else
      match userMapPage fr sp' vp (Pte.userPage phys writable true) with
      | (fr', sp'', done) => ((s.setFr fr').setSpace t (some sp''), if done then 0 else -1)

/- A page of a frame object, with the rights asked for. -/
def userMapFramePage (m : Machine) (s : Pg) (t vp phys : Nat) (write exec : Bool) : Pg × Int :=
  match s.space t with
  | none => (s, -1)
  | some sp =>
  match userPteSlot s.fr sp vp with
  | (fr, sp', false) => ((s.setFr fr).setSpace t (some sp'), -1)
  | (fr, sp', true) =>
  if (sp'.leaf vp).present = true ∨ (sp'.leaf vp).swapped = true then
    ((s.setFr fr).setSpace t (some sp'), -2)
  else
    ((s.setFr (pageRefInc m fr phys)).setSpace t (some (sp'.setLeaf vp
        (Pte.userPage phys write (!exec)))), 0)

def userUnmapFramePage (m : Machine) (s : Pg) (t vp phys : Nat) : Pg × Int :=
  match s.space t with
  | none => (s, -1)
  | some sp =>
  match userPteSlot s.fr sp vp with
  | (fr, sp', false) => ((s.setFr fr).setSpace t (some sp'), -1)
  | (fr, sp', true) =>
  if (sp'.leaf vp).present = false then ((s.setFr fr).setSpace t (some sp'), -1)
  else if (sp'.leaf vp).addr ≠ phys then ((s.setFr fr).setSpace t (some sp'), -2)
  else ((s.setFr (pageRefDec m fr phys)).setSpace t (some (sp'.setLeaf vp Pte.empty)), 0)

def userMapPrivateCopy (m : Machine) (s : Pg) (t vp : Nat) (page : Page) : Pg × Int :=
  match s.space t with
  | none => (s, -1)
  | some sp =>
  match allocUserPhysicalPage s.fr with
  | none => (s, -1)
  | some (f, fr) =>
  match userPteSlot (fr.setPage f page) sp vp with
  | (fr', sp', ok) =>
    if ok = false ∨ (sp'.leaf vp).present = true ∨ (sp'.leaf vp).swapped = true then
      ((s.setFr (freeUserPhysicalPage m fr' f)).setSpace t (some sp'), -1)
    else ((s.setFr fr').setSpace t (some (sp'.setLeaf vp (Pte.userPage f true true))), 0)

def Pte.sealedPage (e : Pte) : Pte := { e with write := false, cow := false, sealed := true }

/- Pages in swap are read back first. -/
def sealFaultIn (m : Machine) (t : Nat) : Pg → List (Nat × FaultIo) → Pg × Bool
  | s, [] => (s, true)
  | s, (vp, io) :: vps =>
    match s.space t with
    | none => (s, false)
    | some sp =>
    if (sp.leaf vp).inSwap then
      match handleDemandPageFault m s t (vp * pageSize) false io with
      | (s', rc) => if rc = 0 then sealFaultIn m t s' vps else (s', false)
    else sealFaultIn m t s vps

/- Every page is there, is the task's own and not an object's. -/
def sealable (m : Machine) (e : Pte) : Bool := e.present && e.user && !m.arena e.addr

def sealLeaves (sp : Space) (vps : List Nat) : Space :=
  vps.foldl (fun sp vp => sp.setLeaf vp (sp.leaf vp).sealedPage) sp

/- `h_mem_seal` and `user_seal_range` for whole pages. -/
def userSealRange (m : Machine) (s : Pg) (t : Nat) (vps : List (Nat × FaultIo)) : Pg × Int :=
  if vps = [] ∨ ∃ v ∈ vps, v.1 * pageSize < (s.bounds t).imageBase ∨
        (s.bounds t).imageEnd < (v.1 + 1) * pageSize ∨ userMaxVaddr < (v.1 + 1) * pageSize then
    (s, -1)
  else
    match sealFaultIn m t s vps with
    | (s', false) => (s', -1)
    | (s', true) =>
    match s'.space t with
    | none => (s', -1)
    | some sp =>
    if (vps.map Prod.fst).all
        fun vp => sealable m (sp.leaf vp) then
      (s'.setSpace t (some (sealLeaves sp (vps.map Prod.fst))), 0)
    else (s', -1)

/-
  `store` is a store by the task or by `copy_to_user`, `pin`
  and `unpin` make and destroy a page of a frame object,
  `kalloc` is a frame the kernel takes for good, `forget` a fork
  that is given up after its clone, and `setBounds` the loader
  and `brk`.
-/
inductive PgOp where
  | create (t base count : Nat) (loaded : List Nat)
  | clone (child parent : Nat) (loaded : List Nat)
  | fault (t va : Nat) (isWrite : Bool) (io : FaultIo)
  | evict (t vp n : Nat)
  | store (t vp off : Nat) (byte : UInt8)
  | mapDevice (t vp phys : Nat) (writable : Bool)
  | mapFrame (t vp phys : Nat) (write exec : Bool)
  | unmapFrame (t vp phys : Nat)
  | privateCopy (t vp : Nat) (page : Page)
  | sealRange (t : Nat) (vps : List (Nat × FaultIo))
  | pin (f : Nat)
  | unpin (f : Nat)
  | kalloc
  | forget (t : Nat)
  | setBounds (t : Nat) (b : Bounds)

/- A page that the hardware lets the task write. -/
def Pte.storable (e : Pte) : Bool := e.present && e.user && e.write

def storeByte (s : Pg) (t vp off : Nat) (byte : UInt8) : Pg :=
  match s.space t with
  | none => s
  | some sp =>
    if (sp.leaf vp).storable then
      s.setFr (s.fr.setPage (sp.leaf vp).addr (update (s.fr.mem (sp.leaf vp).addr) off byte))
    else s

def faultStep (m : Machine) (s : Pg) (t va : Nat) (isWrite : Bool) (io : FaultIo) : Pg :=
  match s.space t with
  | none => s
  | some sp =>
    if isTask t ∧ faultReaches (s.bounds t) sp va isWrite = true then
      (handleDemandPageFault m s t va isWrite io).1
    else s

def kallocStep (s : Pg) : Pg :=
  match allocUserPhysicalPage s.fr with
  | none => s
  | some (_, fr) => s.setFr fr

/-
  A frame object is mapped through a capability for it, so the
  page is that of an object.
-/
def Pg.apply (m : Machine) (s : Pg) : PgOp → Pg
  | .create t base count loaded => createUserPagedir m s t base count loaded
  | .clone child parent loaded => (cloneUserAspace m s child parent loaded).1
  | .fault t va isWrite io => faultStep m s t va isWrite io
  | .evict t vp n => evictPage m s t vp n
  | .store t vp off byte => storeByte s t vp off byte
  | .mapDevice t vp phys writable => (userMapDevicePage s t vp phys writable).1
  | .mapFrame t vp phys write exec =>
    if s.fr.pinned phys then (userMapFramePage m s t vp phys write exec).1 else s
  | .unmapFrame t vp phys => if s.fr.pinned phys then (userUnmapFramePage m s t vp phys).1 else s
  | .privateCopy t vp page => (userMapPrivateCopy m s t vp page).1
  | .sealRange t vps => (userSealRange m s t vps).1
  | .pin f => s.setFr (framePinRefcount m s.fr f)
  | .unpin f => s.setFr (frameUnpinRefcount s.fr f)
  | .kalloc => kallocStep s
  | .forget t => s.setSpace t none
  | .setBounds t b => { s with bounds := update s.bounds t b }

/- After `paging_init`: no address spaces, the zero page lent. -/
def Pg.boot (m : Machine) (free : List Nat) (mem : Nat → Page) : Pg where
  fr :=
    { free := free
      refs := fun f => if f = m.zero ∧ m.zero ≠ 0 then 1 else 0
      loan := fun f => decide (f = m.zero ∧ m.zero ≠ 0)
      ever := fun f => decide (f = m.zero ∧ m.zero ≠ 0)
      pinned := fun _ => false
      mem := fun f => if f = m.zero then zeroPage else mem f
      slot := fun _ => none }
  space := fun _ => none
  deferred := []
  bounds := fun _ => ⟨0, 0, 0, 0⟩

end Horus.Paging
