import Horus.Paging.Once
import Mathlib.Data.List.Dedup

/-
  No frame in use is ever free.

  The counts of the pool are right against the entries and
  tables of all address spaces, those of the tasks and those
  whose release was put off, in every run in which no mapped
  device page is counted under the address of a frame of the
  pool and no count is driven to its limit.

  Main declarations:
    * `Pg.spaces`, `Pg.entries`, `Pg.tables`
    * `PoolGood`
    * `PoolOk`, `PoolGood.apply`
    * `no_frame_in_use_is_free`
-/

namespace Horus.Paging

open Function
open Lib

variable {sps kept : List Space} {f phys child parent : Nat} {es : List Pte}
    {ts loaded free : List Nat} {sp psp csp : Space} {fr : Frames} {m : Machine}

----
-- All Address Spaces
----

/- Those of the tasks, then those put off. -/
def Pg.spaces (s : Pg) : List Space := (List.range maxTasks).filterMap s.space ++ s.deferred

def entriesOf (sps : List Space) : List Pte := sps.flatMap Space.entries

def framesOf (sps : List Space) : List Nat := sps.flatMap Space.frames

def Pg.entries (s : Pg) : List Pte := entriesOf s.spaces

def Pg.tables (s : Pg) : List Nat := framesOf s.spaces

/- All address spaces but that of the task. -/
def Pg.others (s : Pg) (t : Nat) : List Space :=
  ((List.range maxTasks).erase t).filterMap s.space ++ s.deferred

structure PoolGood (m : Machine) (s : Pg) : Prop where
  good : Good m s.fr s.entries s.tables
  once : ∀ sp ∈ s.spaces, Once m sp.entries
  few : s.deferred.length ≤ pendingAspaceMax
  tasks : ∀ t, maxTasks ≤ t → s.space t = none

section Spaces

variable {m : Machine} {s : Pg} {t : Nat} {fr : Frames} {sp : Space}

/- The address space of one task is changed. -/
theorem spaces_setSpace (s : Pg) (hTask : t < maxTasks) (o : Option Space) :
    (s.setSpace t o).spaces.Perm (o.toList ++ s.others t) := by
  have hUpdate := filterMap_update (List.nodup_range (n := maxTasks))
      (List.mem_range.mpr hTask) s.space o
  have hAll := hUpdate.append_right s.deferred
  rw [List.append_assoc] at hAll
  exact hAll

theorem spaces_perm (s : Pg) (hTask : t < maxTasks) :
    s.spaces.Perm ((s.space t).toList ++ s.others t) := by
  have hSame : s.setSpace t (s.space t) = s := by
    simp [Pg.setSpace]
  have hPerm := spaces_setSpace s hTask (s.space t)
  rw [hSame] at hPerm
  exact hPerm

theorem Good.spaces_perm {sps' : List Space} (hPerm : sps.Perm sps')
    (hGood : Good m fr (entriesOf sps) (framesOf sps)) :
    Good m fr (entriesOf sps') (framesOf sps') :=
  hGood.perm (hPerm.flatMap_right _) (hPerm.flatMap_right _)

theorem PoolGood.task_lt (hPool : PoolGood m s) (hSpace : s.space t = some sp) : t < maxTasks := by
  by_contra hNot
  have hNone := hPool.tasks t (by omega)
  rw [hSpace] at hNone
  cases hNone

theorem PoolGood.at (hPool : PoolGood m s) (hSpace : s.space t = some sp) :
    GoodAt m s.fr sp (entriesOf (s.others t)) (framesOf (s.others t)) := by
  have hPerm := Paging.spaces_perm s (hPool.task_lt hSpace)
  rw [hSpace] at hPerm
  exact Good.spaces_perm hPerm hPool.good

theorem PoolGood.once_at (hPool : PoolGood m s)
    (hSpace : s.space t = some sp) : Once m sp.entries := by
  have hPerm := Paging.spaces_perm s (hPool.task_lt hSpace)
  rw [hSpace] at hPerm
  exact hPool.once sp (hPerm.mem_iff.mpr List.mem_cons_self)

namespace PoolGood

variable (hPool : PoolGood m s)

include hPool

/- The address space of a task slot is put in place. -/
theorem put (hTask : t < maxTasks) {o : Option Space}
    (hGood : Good m fr (entriesOf (o.toList ++ s.others t)) (framesOf (o.toList ++ s.others t)))
    (hOnce : ∀ sp ∈ o, Once m sp.entries) : PoolGood m ((s.setFr fr).setSpace t o) := by
  have hPerm := spaces_setSpace (s.setFr fr) hTask o
  refine ⟨?_, ?_, hPool.few, ?_⟩
  · exact Good.spaces_perm hPerm.symm hGood
  · intro sp hIn
    rcases List.mem_append.mp (hPerm.mem_iff.mp hIn) with hNew | hOld
    · exact hOnce sp (Option.mem_toList.mp hNew)
    · have hPerm := Paging.spaces_perm s hTask
      exact hPool.once sp (hPerm.mem_iff.mpr (List.mem_append_right _ hOld))
  · intro t' hLe
    change update s.space t o t' = none
    rw [update_of_ne (by omega)]
    exact hPool.tasks t' hLe

theorem set (hTask : t < maxTasks)
    (hGood : GoodAt m fr sp (entriesOf (s.others t)) (framesOf (s.others t)))
    (hOnce : Once m sp.entries) : PoolGood m ((s.setFr fr).setSpace t (some sp)) := by
  refine hPool.put hTask hGood ?_
  intro sp' hIs
  cases hIs
  exact hOnce

theorem unset (hTask : t < maxTasks)
    (hGood : Good m fr (entriesOf (s.others t)) (framesOf (s.others t))) :
    PoolGood m ((s.setFr fr).setSpace t none) := by
  refine hPool.put hTask hGood ?_
  intro sp' hIs
  cases hIs

theorem pinned_not_free (hPinned : s.fr.pinned f = true) : f ∉ s.fr.free := by
  intro hFree
  have hNot := (hPool.good.free f hFree).2.2.1
  rw [(hPool.good.pinned f hPinned).1] at hNot
  cases hNot

/- A change of the pool that the counts follow. -/
theorem setFr (hGood : Good m fr s.entries s.tables) : PoolGood m (s.setFr fr) :=
  ⟨hGood, hPool.once, hPool.few, hPool.tasks⟩

end PoolGood

end Spaces

----
-- Steps
----

section Steps

variable {m : Machine} {s : Pg} {t : Nat}

theorem PoolGood.evictPage (hPool : PoolGood m s) (t vp n : Nat) :
    PoolGood m (evictPage m s t vp n) := by
  unfold Paging.evictPage
  split
  · exact hPool
  case h_2 sp hSpace =>
    generalize hRes : evictLeaf m (s.bounds t) s.fr sp vp n = r
    exact hPool.set (hPool.task_lt hSpace) ((hPool.at hSpace).evictLeaf hRes)
      ((hPool.once_at hSpace).evictLeaf hRes)

theorem PoolGood.evictAll (hPool : PoolGood m s) (victims : List (Nat × Nat × Nat)) :
    PoolGood m (evictAll m s victims) := by
  induction victims generalizing s with
  | nil => exact hPool
  | cons v _ ih => exact ih (hPool.evictPage v.1 v.2.1 v.2.2)

theorem PoolGood.handleDemandPageFault (hPool : PoolGood m s)
    (t va : Nat) (isWrite : Bool) (io : FaultIo) : PoolGood m
      (handleDemandPageFault m s t va isWrite io).1 := by
  have hEvicted := hPool.evictAll io.evict
  unfold Paging.handleDemandPageFault demandFault
  split
  · exact hEvicted
  case h_2 sp hSpace =>
    generalize hRes : faultSpace m _ _ sp va isWrite io.read = r
    have hAt := hEvicted.at hSpace
    exact hEvicted.set (hEvicted.task_lt hSpace) (hAt.faultSpace hRes)
      ((hEvicted.once_at hSpace).faultSpace hAt hRes)

/- The zero page cannot be written to. -/
theorem GoodAt.write_ne_zero (hGood : GoodAt m fr sp es ts) {vp : Nat}
    (hPresent : (sp.leaf vp).present = true)
    (hWrite : (sp.leaf vp).write = true) (hZero : m.zero ≠ 0) : (sp.leaf vp).addr ≠ m.zero := by
  intro hAddr
  obtain ⟨rest, hOld, _⟩ := hGood.opened vp
  have hLent := hOld.lent _ (hOld.zero hZero)
  rw [← hAddr] at hLent
  exact (hOld.sole _ List.mem_cons_self hPresent hWrite hLent.1 hLent.2).1 hAddr

theorem storable_iff {e : Pte} : e.storable = true ↔
      e.present = true ∧ e.user = true ∧ e.write = true := by
  simp [Pte.storable, and_assoc]

section

variable (hPool : PoolGood m s)

include hPool

theorem PoolGood.storeByte (t vp off : Nat) (byte : UInt8) :
    PoolGood m (storeByte s t vp off byte) := by
  unfold Paging.storeByte
  split
  · exact hPool
  case h_2 sp hSpace =>
    split
    case isTrue hMay =>
      obtain ⟨hPresent, _, hWrite⟩ := storable_iff.mp hMay
      exact hPool.setFr (hPool.good.setPage ((hPool.at hSpace).write_ne_zero hPresent hWrite) _)
    case isFalse => exact hPool

theorem PoolGood.userMapDevicePage (hClean : m.refcIndex phys = none) (t vp : Nat) (writable : Bool) :
    PoolGood m (userMapDevicePage s t vp phys writable).1 := by
  unfold Paging.userMapDevicePage
  split
  · exact hPool
  case h_2 sp hSpace =>
    have hTask := hPool.task_lt hSpace
    have hAt := hPool.at hSpace
    generalize hSlot : userPteSlot s.fr sp vp = r
    obtain ⟨fr₁, sp₁, ok⟩ := r
    have hAt₁ := hAt.grown (userPteSlot_grown hSlot)
    have hOnce₁ := (hPool.once_at hSpace).grown (userPteSlot_grown hSlot)
    dsimp only
    split
    · exact hPool.set hTask hAt₁ hOnce₁
    generalize hMap : userMapPage fr₁ sp₁ vp (Pte.userPage phys writable true) = r
    obtain ⟨fr₂, sp₂, done⟩ := r
    have hOut := not_inPool_of_refcIndex hClean
    rcases userMapPage_cases hMap with ⟨_, hGrown⟩ | ⟨_, fr₃, sp₃, hGrown, rfl, rfl⟩
    · exact hPool.set hTask (hAt₁.grown hGrown) (hOnce₁.grown hGrown)
    rw [← hGrown.leaf]
    refine hPool.set hTask ((hAt₁.grown hGrown).set ?_) ((hOnce₁.grown hGrown).set ?_)
    · intro rest ts hOld
      refine hOld.overwrite.addOutside ?_ rfl ?_
      · nofun
      · intro _
        exact ⟨hOut, hClean⟩
    · intro _ hCounted
      exact absurd hCounted.1 hOut

theorem PoolGood.userMapFramePage (hPinned : s.fr.pinned phys = true) (hFew : s.fr.refs phys < 65535)
    (t vp : Nat) (write exec : Bool) : PoolGood m
      (userMapFramePage m s t vp phys write exec).1 := by
  unfold Paging.userMapFramePage
  split
  · exact hPool
  case h_2 sp hSpace =>
    have hTask := hPool.task_lt hSpace
    have hAt := hPool.at hSpace
    generalize hSlot : userPteSlot s.fr sp vp = r
    obtain ⟨fr₁, sp₁, ok⟩ := r
    have hGrown := userPteSlot_grown hSlot
    have hAt₁ := hAt.grown hGrown
    have hOnce₁ := (hPool.once_at hSpace).grown hGrown
    cases ok with
    | false => exact hPool.set hTask hAt₁ hOnce₁
    | true =>
    dsimp only
    split
    · exact hPool.set hTask hAt₁ hOnce₁
    refine hPool.set hTask (hAt₁.set ?_) (hOnce₁.set ?_)
    · intro rest ts hOld
      have hNotFree := hPool.pinned_not_free hPinned
      refine hOld.dropEntry.mapFrame ?_ ?_ ?_ rfl rfl
      · rw [hGrown.same.2.2]
        exact hPinned
      · rw [(hGrown.kept hNotFree).2.1]
        exact hFew
      · nofun
    · intro _ hCounted
      have hNot : m.arena phys = false := hCounted.2.2
      rw [(hPool.good.pinned _ hPinned).1] at hNot
      cases hNot

theorem PoolGood.userUnmapFramePage (hPinned : s.fr.pinned phys = true) (t vp : Nat) :
    PoolGood m (userUnmapFramePage m s t vp phys).1 := by
  unfold Paging.userUnmapFramePage
  split
  · exact hPool
  case h_2 sp hSpace =>
    have hTask := hPool.task_lt hSpace
    generalize hSlot : userPteSlot s.fr sp vp = r
    obtain ⟨fr₁, sp₁, ok⟩ := r
    have hGrown := userPteSlot_grown hSlot
    have hAt₁ := (hPool.at hSpace).grown hGrown
    have hOnce₁ := (hPool.once_at hSpace).grown hGrown
    cases ok with
    | false => exact hPool.set hTask hAt₁ hOnce₁
    | true =>
    dsimp only
    split
    · exact hPool.set hTask hAt₁ hOnce₁
    case isFalse hThere =>
      split
      · exact hPool.set hTask hAt₁ hOnce₁
      case isFalse hAddr =>
        have hSame : (sp₁.leaf vp).addr = phys := by
          simpa using hAddr
        have hPresent : (sp₁.leaf vp).present = true := by
          simpa using hThere
        refine hPool.set hTask (hAt₁.set ?_) (hOnce₁.set ?_)
        · intro rest ts hOld
          have hGone : Good m (pageRefDec m fr₁ (sp₁.leaf vp).addr) rest ts := by
            refine hOld.unmapFrame hPresent ?_
            rw [hGrown.same.2.2, hSame]
            exact hPinned
          rw [hSame] at hGone
          refine hGone.addOutside ok_empty rfl ?_
          intro hIs
          cases hIs
        · nofun

theorem PoolGood.sealFaultIn (t : Nat) (vps : List (Nat × FaultIo)) :
    PoolGood m (sealFaultIn m t s vps).1 := by
  induction vps generalizing s with
  | nil => exact hPool
  | cons v _ ih =>
  obtain ⟨vp, io⟩ := v
  unfold Paging.sealFaultIn
  split
  · exact hPool
  split
  · have hFault := hPool.handleDemandPageFault t (vp * pageSize) false io
    split
    case h_1 s' rc hRes =>
      rw [hRes] at hFault
      split
      · exact ih hFault
      · exact hFault
  · exact ih hPool

end

theorem PoolGood.userMapPrivateCopy (hPool : PoolGood m s) (t vp : Nat) (page : Page) :
    PoolGood m (userMapPrivateCopy m s t vp page).1 := by
  unfold Paging.userMapPrivateCopy
  split
  · exact hPool
  case h_2 sp hSpace =>
    have hTask := hPool.task_lt hSpace
    split
    · exact hPool
    case h_2 f fr hAlloc =>
      have hHand := ((hPool.at hSpace).alloc hAlloc).setHand page
      generalize hSlot : userPteSlot (fr.setPage f page) sp vp = r
      obtain ⟨fr₁, sp₁, ok⟩ := r
      have hGrown := userPteSlot_grown hSlot
      have hHand₁ := hHand.grown hGrown
      have hOnce₁ := (hPool.once_at hSpace).grown hGrown
      dsimp only
      split
      · exact hPool.set hTask hHand₁.freeHand hOnce₁
      case isFalse hThere =>
        obtain ⟨_, hThere⟩ := not_or.mp hThere
        obtain ⟨_, hSwapped⟩ := not_or.mp hThere
        have hNotIn : (sp₁.leaf vp).inSwap = false := by
          simp [Pte.inSwap, hSwapped]
        have hOk : (Pte.userPage f true true).Ok := by
          intro hCow
          cases hCow
        have hFilled := hHand₁.fillHand vp hOk rfl rfl
        rw [dropSwapped_of_not_in hNotIn] at hFilled
        refine hPool.set hTask hFilled (hOnce₁.set ?_)
        · intro _ _
          rw [Space.entries, hGrown.leaves]
          exact (hPool.at hSpace).free_unnamed (alloc_mem hAlloc)

/- A seal changes the flags of entries only. -/
theorem GoodAt.sealLeaves (hGood : GoodAt m fr sp es ts) (hOnce : Once m sp.entries)
    (vps : List Nat) : GoodAt m fr (sealLeaves sp vps) es ts ∧
      Once m (sealLeaves sp vps).entries := by
  induction vps generalizing sp with
  | nil => exact ⟨hGood, hOnce⟩
  | cons vp _ ih =>
  refine ih (hGood.set ?_) (hOnce.reflag rfl rfl)
  intro rest ts hOld
  have hOk : (sp.leaf vp).sealedPage.Ok := nofun
  refine hOld.reflag hOk rfl rfl rfl ?_
  intro hWrite
  cases hWrite

theorem PoolGood.userSealRange (hPool : PoolGood m s) (t : Nat) (vps : List (Nat × FaultIo)) :
    PoolGood m (userSealRange m s t vps).1 := by
  unfold Paging.userSealRange
  split
  · exact hPool
  have hFault := hPool.sealFaultIn t vps
  generalize hRes : Paging.sealFaultIn m t s vps = r at hFault
  obtain ⟨s', ok⟩ := r
  cases ok with
  | false => exact hFault
  | true =>
  dsimp only
  split
  · exact hFault
  case h_2 sp hSpace =>
    split
    · obtain ⟨hGood, hOnce⟩ := (hFault.at hSpace).sealLeaves
          (hFault.once_at hSpace) (vps.map Prod.fst)
      exact hFault.set (hFault.task_lt hSpace) hGood hOnce
    · exact hFault

theorem PoolGood.kallocStep (hPool : PoolGood m s) : PoolGood m (kallocStep s) := by
  unfold Paging.kallocStep
  split
  · exact hPool
  case h_2 f fr hAlloc => exact hPool.setFr (hPool.good.alloc hAlloc).dropTable

end Steps

----
-- Creating and Releasing
----

section Release

variable {m : Machine} {s : Pg} {t : Nat} {fr fr' : Frames}

/- Address spaces that are forgotten. -/
theorem Good.dropSpaces {es' : List Pte} {ts' : List Nat}
    (hGood : Good m fr (es' ++ es) (ts' ++ ts)) : Good m fr es ts := by
  induction es' with
  | nil =>
    induction ts' with
    | nil => exact hGood
    | cons _ _ ih => exact ih hGood.dropTable
  | cons _ _ ih => exact ih hGood.dropEntry

theorem PoolGood.forget (hPool : PoolGood m s) (t : Nat) : PoolGood m (s.setSpace t none) := by
  by_cases hTask : t < maxTasks
  · refine PoolGood.unset hPool hTask ?_
    have hPerm := Paging.spaces_perm s hTask
    have hAll := Good.spaces_perm hPerm hPool.good
    rw [entriesOf, framesOf, List.flatMap_append, List.flatMap_append] at hAll
    exact hAll.dropSpaces
  · have hSame : s.setSpace t none = s := by
      have hNone := hPool.tasks t (by omega)
      rw [Pg.setSpace, ← hNone, update_eq_self]
    rw [hSame]
    exact hPool

/- Those that are not loaded are freed, and the others stay. -/
theorem Good.reclaimDeferred {rest : List Space}
    (hGood : Good m fr (entriesOf (sps ++ rest)) (framesOf (sps ++ rest)))
    (hReclaim : reclaimDeferred m loaded fr sps = (fr', kept)) :
    Good m fr' (entriesOf (kept ++ rest)) (framesOf (kept ++ rest)) ∧ kept.Sublist sps := by
  induction sps generalizing fr kept rest with
  | nil =>
    cases hReclaim
    exact ⟨hGood, List.Sublist.refl _⟩
  | cons sp sps ih =>
  unfold Paging.reclaimDeferred at hReclaim
  split at hReclaim
  · generalize hRest : Paging.reclaimDeferred m loaded fr sps = r at hReclaim
    cases hReclaim
    have hMoved := Good.spaces_perm List.perm_middle.symm hGood
    obtain ⟨hDone, hSub⟩ := ih hMoved hRest
    exact ⟨Good.spaces_perm List.perm_middle hDone, hSub.cons_cons sp⟩
  · have hFreed : Good m (freeUserAspace m fr sp) (entriesOf (sps ++ rest))
        (framesOf (sps ++ rest)) :=
      GoodAt.freeUserAspace hGood
    obtain ⟨hDone, hSub⟩ := ih hFreed hReclaim
    exact ⟨hDone, hSub.cons sp⟩

theorem PoolGood.reclaimDeferred (hPool : PoolGood m s)
    (hReclaim : reclaimDeferred m loaded s.fr s.deferred = (fr', kept)) :
    PoolGood m { s with fr := fr', deferred := kept } := by
  have hFront := Good.spaces_perm List.perm_append_comm hPool.good
  obtain ⟨hGood, hSub⟩ := Good.reclaimDeferred hFront hReclaim
  refine ⟨?_, ?_, ?_, hPool.tasks⟩
  · exact Good.spaces_perm List.perm_append_comm hGood
  · intro sp hIn
    refine hPool.once sp ?_
    rcases List.mem_append.mp hIn with hTask | hKept
    · exact List.mem_append_left _ hTask
    · exact List.mem_append_right _ (hSub.subset hKept)
  · exact hSub.length_le.trans hPool.few

/- The address space of a task is put off. -/
theorem PoolGood.defer (hPool : PoolGood m s) (hSpace : s.space t = some sp)
    (hRoom : s.deferred.length < pendingAspaceMax) : PoolGood m
      { s with deferred := s.deferred ++ [sp], space := update s.space t none } := by
  have hTask := hPool.task_lt hSpace
  have hBefore := Paging.spaces_perm s hTask
  have hAfter := spaces_setSpace s hTask none
  rw [hSpace] at hBefore
  have hPerm : s.spaces.Perm ((s.setSpace t none).spaces ++ [sp]) := by
    refine hBefore.trans ?_
    refine (List.perm_append_comm).trans ?_
    exact hAfter.symm.append_right [sp]
  have hAssoc : (s.setSpace t none).spaces ++ [sp] =
        (List.range maxTasks).filterMap (update s.space t none) ++ (s.deferred ++ [sp]) :=
    List.append_assoc _ _ _
  rw [hAssoc] at hPerm
  refine ⟨?_, ?_, ?_, ?_⟩
  · exact Good.spaces_perm hPerm hPool.good
  · intro sp' hIn
    exact hPool.once sp' (hPerm.mem_iff.mpr hIn)
  · simp only [List.length_append, List.length_singleton]
    omega
  · exact (hPool.forget t).tasks

theorem PoolGood.releaseOld (hPool : PoolGood m s) (loaded : List Nat) (t : Nat) :
    PoolGood m (releaseOld m loaded s t) := by
  unfold Paging.releaseOld
  split
  · exact hPool
  case h_2 sp hSpace =>
    generalize hReclaim : Paging.reclaimDeferred m loaded s.fr s.deferred = r
    have hKept := hPool.reclaimDeferred hReclaim
    dsimp only
    split
    · exact hKept.unset (hPool.task_lt hSpace) (hKept.at hSpace).freeUserAspace
    · split
      case isTrue hRoom => exact hKept.defer hSpace hRoom
      case isFalse => exact hKept.forget t

theorem releaseOld_none (m : Machine) (loaded : List Nat) (s : Pg) (t : Nat) :
    (releaseOld m loaded s t).space t = none := by
  unfold Paging.releaseOld
  split
  case h_1 hNone => exact hNone
  · dsimp only
    split <;> exact update_self _ _ _

theorem releaseOld_other (m : Machine) (loaded : List Nat) (s : Pg) {t t' : Nat} (hNe : t' ≠ t) :
    (releaseOld m loaded s t).space t' = s.space t' := by
  unfold Paging.releaseOld
  split
  · rfl
  dsimp only
  split <;> exact update_of_ne hNe _ _

end Release

section Create

variable {m : Machine} {s : Pg} {t : Nat} {fr : Frames}

/- A new address space that has only its root. -/
theorem GoodAt.root (hGood : Good m fr es (f :: ts)) : GoodAt m fr ⟨f, [], []⟩ es ts := hGood

theorem PoolGood.others_of_none (hPool : PoolGood m s)
    (hTask : t < maxTasks) (hNone : s.space t = none) :
    Good m s.fr (entriesOf (s.others t)) (framesOf (s.others t)) := by
  have hPerm := Paging.spaces_perm s hTask
  rw [hNone] at hPerm
  exact Good.spaces_perm hPerm hPool.good

theorem PoolGood.createFresh (hClean : ∀ w ∈ m.windows, m.refcIndex w = none) (hPool : PoolGood m s)
    (hTask : t < maxTasks) (hNone : s.space t = none) (image : List Nat) :
    PoolGood m (createFresh m s t image) := by
  have hOthers := hPool.others_of_none hTask hNone
  unfold Paging.createFresh
  split
  · exact hPool
  case h_2 root fr hAlloc =>
    have hRoot := GoodAt.root (hOthers.alloc hAlloc)
    generalize hBuild : Paging.buildSpace m fr ⟨root, [], []⟩ image = r
    obtain ⟨fr₁, sp, ok⟩ := r
    have hBuilt := hRoot.buildSpace hBuild
    have hOnce := Once.buildSpace (fun _ _ => Nat.zero_le _) hRoot hBuild
    cases ok with
    | false =>
      have hSame : (s.setFr (freeUserAspace m fr₁ sp)).setSpace t none =
            s.setFr (freeUserAspace m fr₁ sp) := by
        simp only [Pg.setSpace, Pg.setFr, ← hNone, update_eq_self]
      have hFreed := hPool.unset hTask hBuilt.freeUserAspace
      rw [hSame] at hFreed
      exact hFreed
    | true =>
    dsimp only
    generalize hWin : Paging.ensureWindows fr₁ sp m.windows = r
    exact hPool.set hTask (hBuilt.ensureWindows _ hClean hWin) (hOnce.ensureWindows _ hClean hWin)

theorem PoolGood.createUserPagedir
    (hClean : ∀ w ∈ m.windows, m.refcIndex w = none) (hPool : PoolGood m s)
    (t base count : Nat) (loaded : List Nat) :
    PoolGood m (createUserPagedir m s t base count loaded) := by
  unfold Paging.createUserPagedir
  split
  case isTrue hTask =>
    exact (hPool.releaseOld loaded t).createFresh hClean hTask.2 (releaseOld_none m loaded s t) _
  case isFalse => exact hPool

end Create

----
-- Cloning
----

section Clone

variable {m : Machine} {s : Pg}

theorem naming_entriesOf_le (hOnce : ∀ sp ∈ sps, Once m sp.entries)
    (hCounted : Counted m f) : naming (entriesOf sps) f ≤ sps.length := by
  induction sps with
  | nil => exact Nat.zero_le _
  | cons sp sps ih =>
  obtain ⟨hHead, hTail⟩ := List.forall_mem_cons.mp hOnce
  have hOne := hHead f hCounted
  have hRest := ih hTail
  change naming (sp.entries ++ entriesOf sps) f ≤ _
  rw [naming_append, List.length_cons]
  omega

/- The references that forks take are few. -/
theorem PoolGood.naming_le (hPool : PoolGood m s) (hCounted : Counted m f) :
    naming s.entries f ≤ maxTasks + pendingAspaceMax := by
  have hLe := naming_entriesOf_le hPool.once hCounted
  have hTasks := (List.range maxTasks).length_filterMap_le s.space
  have hFew := hPool.few
  rw [List.length_range] at hTasks
  have hAll : s.spaces.length = ((List.range maxTasks).filterMap s.space).length +
        s.deferred.length := List.length_append
  change naming (entriesOf s.spaces) f ≤ _
  omega

theorem pages_nodup (sp : Space) : sp.pages.Nodup :=
  (List.perm_insertionSort _ _).nodup_iff.mpr (List.nodup_dedup _)

/- Both address spaces are in place of that of the parent. -/
theorem PoolGood.forked (hPool : PoolGood m s) (hChild : child < maxTasks)
    (hParent : parent < maxTasks) (hNe : child ≠ parent) (hNone : s.space child = none)
    (hGood : GoodAt m fr csp (psp.entries ++ entriesOf (s.others parent))
        (psp.frames ++ framesOf (s.others parent)))
    (hOnceP : Once m psp.entries) (hOnceC : Once m csp.entries) :
    PoolGood m (s.forked fr child parent csp psp) := by
  have hOne : PoolGood m ((s.setFr fr).setSpace parent (some psp)) :=
    hPool.set hParent (Good.dropSpaces hGood) hOnceP
  have hStill : ((s.setFr fr).setSpace parent (some psp)).space child =
        none :=
    (update_of_ne hNe _ _).trans hNone
  have hBefore := Paging.spaces_perm ((s.setFr fr).setSpace parent (some psp)) hChild
  rw [hStill] at hBefore
  have hOthers := hBefore.symm.trans (spaces_setSpace (s.setFr fr) hParent (some psp))
  have hBoth := Good.spaces_perm (hOthers.symm.cons csp) hGood
  have hTwo := hOne.set hChild hBoth hOnceC
  exact { hTwo with }

/- The counts after the loop of a fork, however far it came. -/
theorem PoolGood.good_forkLoop {root : Nat} {fr' : Frames} {psp' : Space} {ok : Bool}
    (hPool : PoolGood m s) (hSpace : s.space parent = some psp)
    (hAlloc : allocUserPhysicalPage s.fr = some (root, fr))
    (hLoop : forkLoop m fr psp ⟨root, [], []⟩ psp.pages = (fr', psp', csp, ok)) :
    GoodAt m fr' csp (psp'.entries ++ entriesOf (s.others parent))
      (psp'.frames ++ framesOf (s.others parent)) := by
  have hRoot := GoodAt.root (Good.alloc (hPool.at hSpace) hAlloc)
  refine GoodAt.forkLoop (pages_nodup psp) hRoot ?_ hLoop
  intro f hCounted
  have hAll := hPool.naming_le hCounted
  have hPerm := Paging.spaces_perm s (hPool.task_lt hSpace)
  rw [hSpace] at hPerm
  have hSame : naming s.entries f = naming (psp.entries ++ entriesOf (s.others parent)) f :=
    naming_perm (hPerm.flatMap_right _) f
  have hPages := naming_toShare_le psp (pages_nodup psp) f
  have hOne := hPool.once_at hSpace f hCounted
  have hNil : naming (Space.entries ⟨root, [], []⟩) f = 0 := rfl
  rw [naming_append]
  have hBound : maxTasks + pendingAspaceMax = 272 := rfl
  omega

theorem PoolGood.cloneFresh (hClean : ∀ w ∈ m.windows, m.refcIndex w = none) (hPool : PoolGood m s)
    (hChild : child < maxTasks) (hNe : child ≠ parent)
    (hNone : s.space child = none) (hSpace : s.space parent = some psp) :
    PoolGood m (cloneFresh m s child parent psp).1 := by
  have hParent := hPool.task_lt hSpace
  unfold Paging.cloneFresh
  split
  · exact hPool
  case h_2 root fr hAlloc =>
    generalize hLoop : Paging.forkLoop m fr psp ⟨root, [], []⟩ psp.pages = r
    obtain ⟨fr₁, psp', csp, ok⟩ := r
    have hForked := hPool.good_forkLoop hSpace hAlloc hLoop
    obtain ⟨hOnceP, hOnceC⟩ := Once.forkLoop (pages_nodup psp) (hPool.once_at hSpace) rfl hLoop
    cases ok with
    | false => exact hPool.set hParent hForked.freeUserAspace hOnceP
    | true =>
    dsimp only
    generalize hWin : Paging.ensureWindows fr₁ csp m.windows = r
    exact hPool.forked hChild hParent hNe hNone (hForked.ensureWindows _ hClean hWin) hOnceP
      (hOnceC.ensureWindows _ hClean hWin)

theorem PoolGood.cloneUserAspace
    (hClean : ∀ w ∈ m.windows, m.refcIndex w = none) (hPool : PoolGood m s)
    (child parent : Nat) (loaded : List Nat) :
    PoolGood m (cloneUserAspace m s child parent loaded).1 := by
  unfold Paging.cloneUserAspace
  split
  case isTrue hOk =>
    obtain ⟨hTask, hNe⟩ := hOk
    split
    · exact hPool
    case h_2 psp hSpace =>
      refine (hPool.releaseOld loaded child).cloneFresh hClean
        hTask.2 hNe (releaseOld_none m loaded s child) ?_
      rw [releaseOld_other m loaded s hNe.symm]
      exact hSpace
  case isFalse => exact hPool

end Clone

----
-- Runs
----

/-
  The conditions: the counts are found by the low 32 bits of
  an address, so a device page above 4 GiB must not share them
  with the pool, and the count of an object's page, which
  `page_ref_inc` lets wrap, must not be at its limit.
-/
def PoolOk (m : Machine) (s : Pg) : PgOp → Prop
  | .mapDevice _ _ phys _ => m.refcIndex phys = none
  | .mapFrame _ _ phys _ _ => s.fr.refs phys < 65535
  | _ => True

instance (m : Machine) (s : Pg) (op : PgOp) : Decidable (PoolOk m s op) := by
  unfold PoolOk
  split <;> infer_instance

variable {s : Pg}

theorem PoolGood.faultStep (hPool : PoolGood m s) (t va : Nat) (isWrite : Bool) (io : FaultIo) :
    PoolGood m (faultStep m s t va isWrite io) := by
  unfold Paging.faultStep
  split
  · exact hPool
  · split
    · exact hPool.handleDemandPageFault t va isWrite io
    · exact hPool

theorem PoolGood.apply (hClean : ∀ w ∈ m.windows, m.refcIndex w = none) (op : PgOp)
    (hPool : PoolGood m s) (hOk : PoolOk m s op) : PoolGood m (s.apply m op) := by
  cases op with
  | create t base count loaded => exact hPool.createUserPagedir hClean t base count loaded
  | clone child parent loaded => exact hPool.cloneUserAspace hClean child parent loaded
  | fault t va isWrite io => exact hPool.faultStep t va isWrite io
  | evict t vp n => exact hPool.evictPage t vp n
  | store t vp off byte => exact hPool.storeByte t vp off byte
  | mapDevice t vp _ writable => exact hPool.userMapDevicePage hOk t vp writable
  | mapFrame t vp _ write exec =>
    unfold Pg.apply
    dsimp only
    split
    case isTrue hPinned => exact hPool.userMapFramePage hPinned hOk t vp write exec
    case isFalse => exact hPool
  | unmapFrame t vp =>
    unfold Pg.apply
    dsimp only
    split
    case isTrue hPinned => exact hPool.userUnmapFramePage hPinned t vp
    case isFalse => exact hPool
  | privateCopy t vp page => exact hPool.userMapPrivateCopy t vp page
  | sealRange t vps => exact hPool.userSealRange t vps
  | pin f => exact hPool.setFr (hPool.good.pin f)
  | unpin f => exact hPool.setFr (hPool.good.unpin f)
  | kalloc => exact hPool.kallocStep
  | forget t => exact hPool.forget t
  | setBounds => exact { hPool with }

/-
  What `paging_init` leaves: the free frames are in the pool
  and not kept for objects, and the zero page is one that was
  taken from them.
-/
structure BootOk (m : Machine) (free : List Nat) : Prop where
  nodup : free.Nodup
  frames : ∀ f ∈ free, m.inPool f ∧ m.arena f = false ∧ f ≠ m.zero
  zero : m.zero ≠ 0 → m.inPool m.zero ∧ m.arena m.zero = false

theorem PoolGood.boot (hBoot : BootOk m free) (mem : Nat → Page) :
    PoolGood m (Pg.boot m free mem) := by
  have hNone : (Pg.boot m free mem).spaces = [] := by
    simp [Pg.boot, Pg.spaces]
  have hEntries : (Pg.boot m free mem).entries = [] := by
    rfl
  have hTables : (Pg.boot m free mem).tables = [] := by
    rfl
  have hLoan : ∀ f, (Pg.boot m free mem).fr.loan f = true ↔ f = m.zero ∧ m.zero ≠ 0 := by
    simp [Pg.boot]
  refine ⟨?_, ?_, Nat.zero_le _, fun _ _ => rfl⟩
  · rw [hEntries, hTables]
    refine
      { nodup := hBoot.nodup
        free := ?_
        loan := ?_
        lent := ?_
        zero := fun hZero => (hLoan _).mpr ⟨rfl, hZero⟩
        count := fun _ _ _ => Nat.zero_le _
        owned := by simp
        clean := by simp
        ok := by simp
        small := ?_
        tables := List.nodup_nil
        table := by simp
        pinned := by simp [Pg.boot]
        unpinned := ?_
        sole := by simp [Sole]
        slots := fun _ => Nat.zero_le _
        blank := by simp [Pg.boot] }
    · intro f hFree
      obtain ⟨hPool, hArena, hZero⟩ := hBoot.frames f hFree
      refine ⟨hPool, ?_, hArena, hZero⟩
      simp [Pg.boot, hZero]
    · intro f
      rw [hLoan]
      constructor
      · intro hIs
        refine ⟨decide_eq_true hIs, ?_⟩
        intro hFree
        exact (hBoot.frames f hFree).2.2 hIs.1
      · intro hEver
        exact of_decide_eq_true hEver.1
    · intro f hIs
      obtain ⟨rfl, hZero⟩ := (hLoan f).mp hIs
      exact hBoot.zero hZero
    · intro f
      change (if f = m.zero ∧ m.zero ≠ 0 then 1 else 0) ≤ 65535
      split <;> omega
    intro f hArena _ _
    change (if f = m.zero ∧ m.zero ≠ 0 then 1 else 0) = 0
    rw [if_neg]
    rintro ⟨rfl, hZero⟩
    rw [(hBoot.zero hZero).2] at hArena
    cases hArena
  · rw [hNone]
    simp

theorem poolGood_of_run {mem : Nat → Page} (hBoot : BootOk m free)
    (hClean : ∀ w ∈ m.windows, m.refcIndex w = none)
    (hRun : Run (Pg.apply m) (PoolOk m) (Pg.boot m free mem) s) : PoolGood m s :=
  hRun.invariant (PoolGood m) (fun _ op hPool hOk => hPool.apply hClean op hOk)
    (PoolGood.boot hBoot mem)

/-
  The count of a frame is at least the number of entries for
  it, a free frame is named by nothing, and the loans are the
  frames that were given out and are not free.
-/
theorem no_frame_in_use_is_free {m : Machine} {free : List Nat}
    {mem : Nat → Page} {s : Pg} (hBoot : BootOk m free)
    (hClean : ∀ w ∈ m.windows, m.refcIndex w = none)
    (hRun : Run (Pg.apply m) (PoolOk m) (Pg.boot m free mem) s) :
    (∀ f, m.inPool f → f ≠ m.zero → naming s.entries f + pinCount s.fr f ≤ s.fr.refs f) ∧
      (∀ f ∈ s.fr.free, naming s.entries f = 0 ∧ f ∉ s.tables) ∧ s.fr.free.Nodup ∧
      ∀ f, s.fr.loan f = true ↔ s.fr.ever f = true ∧ f ∉ s.fr.free := by
  have hPool := poolGood_of_run hBoot hClean hRun
  refine ⟨hPool.good.count, ?_, hPool.good.nodup, hPool.good.loan⟩
  intro f hFree
  exact hPool.good.free_unnamed hFree

/-
  A frame that a task may write, other than an object's, has no
  second entry; no entry leads to a page table, and the page of
  zeros stays as it is.
-/
theorem spaces_isolated {mem : Nat → Page} (hBoot : BootOk m free)
    (hClean : ∀ w ∈ m.windows, m.refcIndex w = none)
    (hRun : Run (Pg.apply m) (PoolOk m) (Pg.boot m free mem) s) :
    Sole m s.entries ∧ (∀ f ∈ s.tables, naming s.entries f = 0) ∧ s.tables.Nodup ∧
      (m.zero ≠ 0 → s.fr.mem m.zero = zeroPage) := by
  have hGood := (poolGood_of_run hBoot hClean hRun).good
  exact ⟨hGood.sole, fun f hTable => (hGood.table f hTable).unnamed, hGood.tables, hGood.blank⟩

/- A pool in which three address spaces find room. -/
def smallMachine : Machine where
  pages := 84
  pages_le := by decide
  arena := fun _ => false
  zero := 0
  windows := []

def smallPool : List Nat := (List.range 84).map fun i => userPhysBase + i * pageSize

def smallBoot : Pg := Pg.boot smallMachine smallPool fun _ => zeroPage

/-
  A task maps a device page and its slot is used again; then
  another task is forked and the slot of the child is used
  again, which finds too few frames.
-/
def mapThenFork (phys : Nat) : List PgOp :=
  [.create 1 0 1 [], .create 2 0 1 [], .mapDevice 2 0x401 phys true, .create 2 0 1 [],
    .clone 3 1 [], .create 3 0 1 []]

theorem smallBoot_ok : BootOk smallMachine smallPool where
  nodup := by decide +kernel
  frames := by decide +kernel
  zero := by decide

theorem no_frame_in_use_is_free_after_fork :
    naming (runAll (Pg.apply smallMachine) smallBoot (mapThenFork 0xFEB00000)).entries
        (userPhysBase + pageSize) +
        pinCount (runAll (Pg.apply smallMachine) smallBoot (mapThenFork 0xFEB00000)).fr
          (userPhysBase + pageSize) ≤
      (runAll (Pg.apply smallMachine) smallBoot (mapThenFork 0xFEB00000)).fr.refs
        (userPhysBase + pageSize) := by
  have hRun : Run (Pg.apply smallMachine) (PoolOk smallMachine)
        smallBoot (runAll (Pg.apply smallMachine) smallBoot (mapThenFork 0xFEB00000)) :=
    run_runAll _ (by decide +kernel)
  exact (no_frame_in_use_is_free smallBoot_ok (by decide) hRun).1 _ (by decide) (by decide)

theorem spaces_isolated_after_fork : Sole smallMachine
    (runAll (Pg.apply smallMachine) smallBoot (mapThenFork 0xFEB00000)).entries :=
  (spaces_isolated smallBoot_ok (by decide) (run_runAll _ (by decide +kernel))).1

/-
  The device page is not in the pool, but its low 32 bits are
  the address of the first page of task 1. That frame ends on
  the free stack while task 1 has it mapped.
-/
theorem frame_in_use_becomes_free :
    ¬ smallMachine.inPool (2 ^ 32 + userPhysBase + pageSize) ∧ userPhysBase + pageSize ∈
        (runAll (Pg.apply smallMachine) smallBoot (mapThenFork
            (2 ^ 32 + userPhysBase + pageSize))).fr.free ∧
      naming (runAll (Pg.apply smallMachine) smallBoot (mapThenFork
            (2 ^ 32 + userPhysBase + pageSize))).entries
        (userPhysBase + pageSize) = 1 := by
  decide +kernel

end Horus.Paging
