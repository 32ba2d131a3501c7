import Horus.Paging.Contents
import Horus.Paging.PoolSafe

/-
  What each task sees of its memory.

  The view of a page is what its entry holds, in memory or in
  swap, and zeros when there is no entry. A step leaves the
  views of all pages that are the task's own as they are,
  except for the address space or the page that it is about.
-/

namespace Horus.Paging

open Function
open Lib

variable {e : Pte} {rc : Int} {b : Bounds} {va vp : Nat}
    {ts loaded : List Nat} {fr' fr : Frames} {isWrite : Bool}
    {sp' sp : Space} {kept : List Space} {m : Machine}

/- The entry of a page of a task, empty when there is none. -/
def Pg.leaf (s : Pg) (u vp : Nat) : Pte :=
  match s.space u with
  | none => Pte.empty
  | some sp => sp.leaf vp

def Pg.view (s : Pg) (u vp : Nat) : Page := s.fr.content (s.leaf u vp)

/- What a step makes of an entry that it does not write over. -/
inductive Move (m : Machine) : Pte → Pte → Prop where
  | out {fr : Frames} {e : Pte} (hOut : swapEvictable m fr e) (n : Nat) : Move m e (e.goneOut n)
  | fault {b : Bounds} {fr fr' : Frames} {e e' : Pte} {va : Nat} {isWrite : Bool} {rc : Int}
      (hOk : e.Ok)
      (hCase : FaultCase m b fr e va isWrite (fr', e', rc)) :
      Move m e e'
  | share {e : Pte} (hShares : e.Shares m) : Move m e e.shared
  | sealing {e : Pte} (hMay : sealable m e = true) : Move m e e.sealedPage

abbrev Moved (m : Machine) : Pte → Pte → Prop := Relation.ReflTransGen (Move m)

/- The page, if it is the task's own, looks as before. -/
def Kept (m : Machine) (s s' : Pg) (u vp : Nat) : Prop :=
  (s.leaf u vp).Private m → Moved m (s.leaf u vp) (s'.leaf u vp) ∧
      (s'.leaf u vp).Private m ∧ s'.view u vp = s.view u vp

section Kept

variable {m : Machine} {s s' s'' : Pg} {t u vp : Nat} {fr : Frames} {sp sp' : Space}

theorem leaf_of_space (hSpace : s.space u = some sp) (vp : Nat) : s.leaf u vp = sp.leaf vp := by
  rw [Pg.leaf, hSpace]

theorem Kept.refl (m : Machine) (s : Pg) (u vp : Nat) : Kept m s s u vp :=
  fun hPrivate => ⟨.refl, hPrivate, rfl⟩

theorem Kept.trans (hKept : Kept m s s' u vp)
    (hKept' : Kept m s' s'' u vp) : Kept m s s'' u vp := by
  intro hPrivate
  obtain ⟨hMoved, hPrivate', hView⟩ := hKept hPrivate
  obtain ⟨hMoved', hPrivate'', hView'⟩ := hKept' hPrivate'
  exact ⟨hMoved.trans hMoved', hPrivate'', hView'.trans hView⟩

/- The entry is the same and holds the same. -/
theorem Kept.of_leaf (hLeaf : s'.leaf u vp = s.leaf u vp)
    (hContent : (s.leaf u vp).Private m → s'.fr.content (s.leaf u vp) =
        s.fr.content (s.leaf u vp)) :
    Kept m s s' u vp := by
  intro hPrivate
  rw [Pg.view, hLeaf]
  exact ⟨.refl, hPrivate, hContent hPrivate⟩

theorem leaf_setSpace_self (sp : Space) (vp : Nat) :
    ((s.setFr fr).setSpace t (some sp)).leaf t vp = sp.leaf vp :=
  leaf_of_space (update_self _ _ _) vp

theorem leaf_setSpace_other (o : Option Space) (hNe : u ≠ t) (vp : Nat) :
    ((s.setFr fr).setSpace t o).leaf u vp = s.leaf u vp := by
  have hSpace : ((s.setFr fr).setSpace t o).space u = s.space u := update_of_ne hNe _ _
  rw [Pg.leaf, hSpace]
  rfl

/- An entry of another task is among the others'. -/
theorem PoolGood.leaf_mem_others (hPool : PoolGood m s) (hNe : u ≠ t)
    (vp : Nat) : s.leaf u vp = Pte.empty ∨ s.leaf u vp ∈ entriesOf (s.others t) := by
  cases hSpace : s.space u with
  | none =>
    left
    rw [Pg.leaf, hSpace]
  | some sp =>
  rw [leaf_of_space hSpace]
  rcases leaf_mem_entries sp vp with hEmpty | hIn
  · exact .inl hEmpty
  right
  refine List.mem_flatMap.mpr ⟨sp, ?_, hIn⟩
  refine List.mem_append_left _ ?_
  refine List.mem_filterMap.mpr ⟨u, ?_, hSpace⟩
  exact (List.mem_erase_of_ne hNe).mpr (List.mem_range.mpr (hPool.task_lt hSpace))

/- The address space of another task is changed. -/
theorem Kept.other {o : Option Space} (hPool : PoolGood m s)
    (hSame : SameFor s.fr fr (entriesOf (s.others t))) (hNe : u ≠ t) :
    Kept m s ((s.setFr fr).setSpace t o) u vp := by
  refine Kept.of_leaf (leaf_setSpace_other o hNe vp) ?_
  intro _
  rcases hPool.leaf_mem_others hNe vp with hEmpty | hIn
  · rw [hEmpty, content_empty, content_empty]
  · exact hSame _ hIn

/- The address space of the task itself. -/
theorem Kept.own (hSpace : s.space t = some sp)
    (hPage : (sp.leaf vp).Private m → Moved m (sp.leaf vp) (sp'.leaf vp) ∧ (sp'.leaf vp).Private m ∧
        fr.content (sp'.leaf vp) = s.fr.content (sp.leaf vp)) :
    Kept m s ((s.setFr fr).setSpace t (some sp')) t vp := by
  intro hPrivate
  rw [Pg.view, Pg.view, leaf_setSpace_self, leaf_of_space hSpace]
  rw [leaf_of_space hSpace] at hPrivate
  exact hPage hPrivate

/- An address space is changed at one page. -/
theorem Kept.set {vp' : Nat} (hPool : PoolGood m s) (hSpace : s.space t = some sp)
    (hSame : SameFor s.fr fr (entriesOf (s.others t)) ∧
      ∀ vp, vp ≠ vp' → fr.content (sp'.leaf vp) = s.fr.content (sp.leaf vp))
    (hLeaf : ∀ vp, sp'.leaf vp = sp.leaf vp) (hNe : ¬ (u = t ∧ vp = vp')) :
    Kept m s ((s.setFr fr).setSpace t (some (sp'.setLeaf vp' e))) u vp := by
  rcases eq_or_ne u t with rfl | hTask
  · have hOther : vp ≠ vp' := fun hEq => hNe ⟨rfl, hEq⟩
    refine Kept.own hSpace fun hPrivate => ?_
    rw [leaf_setLeaf_other _ _ hOther]
    refine ⟨?_, ?_, hSame.2 vp hOther⟩
    · rw [hLeaf]
    · rw [hLeaf]
      exact hPrivate
  · exact Kept.other hPool hSame.1 hTask

/- Tables are added to an address space. -/
theorem Kept.grown (hPool : PoolGood m s) (hSpace : s.space t = some sp)
    (hGrown : Grown s.fr sp fr sp') (u vp : Nat) :
    Kept m s ((s.setFr fr).setSpace t (some sp')) u vp := by
  rcases eq_or_ne u t with rfl | hTask
  · refine Kept.own hSpace fun hPrivate => ?_
    rw [hGrown.leaf]
    exact ⟨.refl, hPrivate, hGrown.content _⟩
  · exact Kept.other hPool (fun e _ => hGrown.content e) hTask

/- Only the pool changes. -/
theorem Kept.setFr
    (hContent : (s.leaf u vp).Private m → fr.content (s.leaf u vp) = s.fr.content (s.leaf u vp)) :
    Kept m s (s.setFr fr) u vp :=
  Kept.of_leaf rfl hContent

end Kept

----
-- Paging
----

section Paging

variable {m : Machine} {s : Pg}

theorem FaultCase.isPrivate {e' : Pte} {rest : List Pte}
    (hGood : Good m fr (e :: rest) ts) (hPrivate : e.Private m)
    (hCase : FaultCase m b fr e va isWrite (fr', e', rc)) : e'.Private m := by
  intro hPresent
  rcases hCase.from_free (hGood.ok e List.mem_cons_self) with ⟨hSame, hAddr⟩ | hFree | ⟨hNe, hZero⟩
  · rw [hAddr]
    exact hPrivate (hSame ▸ hPresent)
  · have hIs := hGood.free _ hFree
    exact ⟨hIs.1, hIs.2.2.1⟩
  · rw [hZero]
    exact hGood.lent _ (hGood.zero hNe)

theorem GoodAt.moved_faultSpace {es : List Pte} {read : Bool} (hGood : GoodAt m fr sp es ts)
    (hFault : Paging.faultSpace m b fr sp va isWrite read = (fr', sp', rc))
    (hPrivate : (sp.leaf vp).Private m) :
    Moved m (sp.leaf vp) (sp'.leaf vp) ∧ (sp'.leaf vp).Private m := by
  rcases faultSpace_cases hFault with ⟨hGrown, _⟩ | ⟨fr₁, sp₁, e, hGrown, hCase, rfl⟩
  · rw [hGrown.leaf]
    exact ⟨.refl, hPrivate⟩
  by_cases hSame : vp = va / pageSize
  · subst hSame
    obtain ⟨rest, hOld, _⟩ := (hGood.grown hGrown).opened (va / pageSize)
    rw [hGrown.leaf] at hOld
    rw [leaf_setLeaf_self]
    have hOk := hOld.ok _ List.mem_cons_self
    exact ⟨.single (.fault hOk hCase), hCase.isPrivate hOld hPrivate⟩
  · rw [leaf_setLeaf_other _ _ hSame, hGrown.leaf]
    exact ⟨.refl, hPrivate⟩

namespace PoolGood

variable (hPool : PoolGood m s)

include hPool

theorem kept_evictPage (t vp' n u vp : Nat) : Kept m s (Paging.evictPage m s t vp' n) u vp := by
  unfold Paging.evictPage
  split
  · exact Kept.refl m s u vp
  case h_2 sp hSpace =>
    generalize hRes : Paging.evictLeaf m (s.bounds t) s.fr sp vp' n = r
    obtain ⟨hOthers, hPages⟩ := (hPool.at hSpace).same_evictLeaf hRes
    rcases eq_or_ne u t with rfl | hTask
    · refine Kept.own hSpace fun hPrivate => ?_
      rw [← and_assoc]
      refine ⟨?_, hPages vp⟩
      unfold Paging.evictLeaf at hRes
      split at hRes
      case isTrue hOut =>
        cases hRes
        rcases eq_or_ne vp vp' with rfl | hSame
        · rw [leaf_setLeaf_self]
          refine ⟨.single (.out hOut.1 n), ?_⟩
          intro hPresent
          cases hPresent
        · rw [leaf_setLeaf_other _ _ hSame]
          exact ⟨.refl, hPrivate⟩
      case isFalse =>
        cases hRes
        exact ⟨.refl, hPrivate⟩
    · exact Kept.other hPool hOthers hTask

theorem kept_evictAll (victims : List (Nat × Nat × Nat)) (u vp : Nat) :
    Kept m s (Paging.evictAll m s victims) u vp := by
  induction victims generalizing s with
  | nil => exact Kept.refl m s u vp
  | cons v _ ih =>
    have hOne := hPool.kept_evictPage v.1 v.2.1 v.2.2 u vp
    exact hOne.trans (ih (hPool.evictPage v.1 v.2.1 v.2.2))

theorem kept_handleDemandPageFault
    (t va : Nat) (isWrite : Bool) (io : FaultIo) (u vp : Nat) : Kept m s
      (Paging.handleDemandPageFault m s t va isWrite io).1 u
      vp := by
  have hEvicted := hPool.evictAll io.evict
  refine (hPool.kept_evictAll io.evict u vp).trans ?_
  unfold Paging.handleDemandPageFault demandFault
  split
  · exact Kept.refl m _ u vp
  case h_2 sp hSpace =>
    generalize hRes : Paging.faultSpace m _ _ sp va isWrite io.read = r
    have hAt := hEvicted.at hSpace
    obtain ⟨hOthers, hPages⟩ := hAt.same_faultSpace hRes
    rcases eq_or_ne u t with rfl | hTask
    · refine Kept.own hSpace fun hPrivate => ?_
      obtain ⟨hMoved, hPrivate'⟩ := hAt.moved_faultSpace hRes hPrivate
      exact ⟨hMoved, hPrivate', hPages vp hPrivate⟩
    · exact Kept.other hEvicted hOthers hTask

theorem kept_sealFaultIn (t : Nat) (vps : List (Nat × FaultIo)) (u vp : Nat) :
    Kept m s (Paging.sealFaultIn m t s vps).1 u vp := by
  induction vps generalizing s with
  | nil => exact Kept.refl m s u vp
  | cons v _ ih =>
  obtain ⟨vp', io⟩ := v
  unfold Paging.sealFaultIn
  split
  · exact Kept.refl m s u vp
  split
  · have hFault := hPool.handleDemandPageFault t (vp' * pageSize) false io
    have hKept := hPool.kept_handleDemandPageFault t (vp' * pageSize) false io u vp
    split
    case h_1 s' rc hRes =>
      rw [hRes] at hFault hKept
      split
      · exact hKept.trans (ih hFault)
      · exact hKept
  · exact ih hPool

end PoolGood

/- What the page of a seal has become. -/
theorem sealLeaves_leaf (sp : Space) (vps : List Nat) (vp : Nat) :
    (sealLeaves sp vps).leaf vp = if vp ∈ vps then (sp.leaf vp).sealedPage
      else sp.leaf vp := by
  induction vps generalizing sp with
  | nil => simp [sealLeaves]
  | cons v vps ih =>
  have hStep : sealLeaves sp (v :: vps) = sealLeaves (sp.setLeaf v (sp.leaf v).sealedPage)
        vps := rfl
  rw [hStep, ih]
  rcases eq_or_ne vp v with rfl | hSame
  · rw [leaf_setLeaf_self, if_pos List.mem_cons_self]
    split <;> rfl
  · rw [leaf_setLeaf_other _ _ hSame]
    simp only [List.mem_cons, hSame, false_or]

theorem PoolGood.kept_userSealRange (hPool : PoolGood m s)
    (t : Nat) (vps : List (Nat × FaultIo)) (u vp : Nat) :
    Kept m s (Paging.userSealRange m s t vps).1 u vp := by
  unfold Paging.userSealRange
  split
  · exact Kept.refl m s u vp
  have hFault := hPool.sealFaultIn t vps
  have hKept := hPool.kept_sealFaultIn t vps u vp
  generalize hRes : Paging.sealFaultIn m t s vps = r at hFault hKept
  obtain ⟨s', ok⟩ := r
  cases ok with
  | false => exact hKept
  | true =>
  dsimp only at hFault hKept ⊢
  split
  · exact hKept
  case h_2 sp hSpace =>
    split
    case isTrue hAll =>
      refine hKept.trans ?_
      have hSame := SameFor.refl s'.fr (entriesOf (s'.others t))
      rcases eq_or_ne u t with rfl | hTask
      · refine Kept.own hSpace ?_
        rw [sealLeaves_leaf]
        split
        case isTrue hIn =>
          have hMay := List.all_eq_true.mp hAll vp hIn
          exact fun hPrivate => ⟨.single (.sealing hMay), hPrivate, rfl⟩
        case isFalse => exact fun hPrivate => ⟨.refl, hPrivate, rfl⟩
      · exact Kept.other hFault hSame hTask
    case isFalse => exact hKept

end Paging

----
-- Stores and Mappings
----

section Mapping

variable {m : Machine} {s : Pg} {t u vp vp' : Nat}

section

variable (hPool : PoolGood m s)

include hPool

/- Another page of a task's own is in another frame. -/
theorem PoolGood.storable_apart
    (hSpace : s.space t = some sp) (hMay : (sp.leaf vp').storable = true)
    (hNe : ¬ (u = t ∧ vp = vp')) (hPrivate : (s.leaf u vp).Private m)
    (hPresent : (s.leaf u vp).present = true) : (s.leaf u vp).addr ≠ (sp.leaf vp').addr := by
  intro hAddr
  obtain ⟨hHere, _, hWrite⟩ := storable_iff.mp hMay
  obtain ⟨hIn, hArena⟩ := hPrivate hPresent
  obtain ⟨rest, hOld, hOpen⟩ := (hPool.at hSpace).opened vp'
  have hRest : s.leaf u vp ∈ rest := by
    have hSome : s.leaf u vp = Pte.empty ∨ s.leaf u vp ∈ rest := by
      rcases eq_or_ne u t with rfl | hTask
      · rw [leaf_of_space hSpace]
        exact leaf_mem_of_open hOpen fun hEq => hNe ⟨rfl, hEq⟩
      · rcases hPool.leaf_mem_others hTask vp with hEmpty | hIn
        · exact .inl hEmpty
        · exact mem_rest_of_others hOpen hIn
    rcases hSome with hEmpty | hMem
    · rw [hEmpty] at hPresent
      cases hPresent
    · exact hMem
  rw [hAddr] at hIn hArena
  have hOne := (hOld.sole _ List.mem_cons_self hHere hWrite hIn hArena).2
  rw [naming_cons_self rest hHere] at hOne
  have hPos := naming_pos_of_mem hRest hPresent
  rw [hAddr] at hPos
  omega

theorem PoolGood.kept_storeByte (off : Nat) (byte : UInt8)
    (hNe : (s.leaf t vp').storable = true → ¬ (u = t ∧ vp = vp')) :
    Kept m s (Paging.storeByte s t vp' off byte) u vp := by
  unfold Paging.storeByte
  split
  · exact Kept.refl m s u vp
  case h_2 sp hSpace =>
    split
    case isFalse => exact Kept.refl m s u vp
    case isTrue hMay =>
      refine Kept.setFr fun hPrivate => ?_
      by_cases hPresent : (s.leaf u vp).present = true
      · rw [leaf_of_space hSpace] at hNe
        have hApart := hPool.storable_apart hSpace hMay (hNe hMay) hPrivate hPresent
        rw [content_present hPresent, content_present hPresent]
        exact update_of_ne hApart _ _
      · simp only [Frames.content, if_neg hPresent]
        rfl

theorem PoolGood.kept_userMapDevicePage (phys : Nat) (writable : Bool)
    (hNe : (s.leaf t vp').sealed = false → ¬ (u = t ∧ vp = vp')) :
    Kept m s (Paging.userMapDevicePage s t vp' phys writable).1 u
      vp := by
  unfold Paging.userMapDevicePage
  split
  · exact Kept.refl m s u vp
  case h_2 sp hSpace =>
    generalize hSlot : userPteSlot s.fr sp vp' = r
    obtain ⟨fr₁, sp₁, ok⟩ := r
    have hGrown₁ := userPteSlot_grown hSlot
    dsimp only
    split
    · exact Kept.grown hPool hSpace hGrown₁ u vp
    case isFalse hMay =>
      generalize hMap : userMapPage fr₁ sp₁ vp' (Pte.userPage phys writable true) = r
      obtain ⟨fr₂, sp₂, done⟩ := r
      rcases userMapPage_cases hMap with ⟨_, hGrown⟩ | ⟨hDone, fr₃, sp₃, hGrown, rfl, rfl⟩
      · exact Kept.grown hPool hSpace (hGrown₁.trans hGrown) u vp
      have hBoth := hGrown₁.trans hGrown
      obtain ⟨rest, hOld, hOpen⟩ := ((hPool.at hSpace).grown hBoth).opened vp'
      rw [hGrown.leaf] at hOld
      obtain ⟨hOthers, hPages⟩ := SameFor.of_rest hOpen (SameFor.overwrite hOld.slots)
      rw [leaf_of_space hSpace, ← hGrown₁.leaf] at hNe
      refine Kept.set hPool hSpace ⟨?_, ?_⟩ hBoth.leaf (hNe ?_)
      · intro x hIn
        rw [hOthers x hIn, hBoth.content]
      · intro vp hOther
        rw [hPages vp hOther, hBoth.content, hBoth.leaf]
      -- had the tables failed, they would fail again
      cases ok with
      | true => simpa using hMay
      | false =>
        rw [userMapPage_stuck hSlot] at hMap
        cases hMap
        cases hDone

theorem Kept.set_grown (hSpace : s.space t = some sp)
    (hGrown : Grown s.fr sp fr sp') (hStore : SameStore fr fr') (hNe : ¬ (u = t ∧ vp = vp')) :
    Kept m s ((s.setFr fr').setSpace t (some (sp'.setLeaf vp' e))) u vp := by
  have hContent : ∀ x, fr'.content x = s.fr.content x := by
    intro x
    rw [hStore.content, hGrown.content]
  refine Kept.set hPool hSpace ⟨?_, ?_⟩ hGrown.leaf hNe
  · exact fun x _ => hContent x
  · intro vp _
    rw [hContent, hGrown.leaf]

theorem PoolGood.kept_userMapFramePage (phys : Nat) (write exec : Bool)
    (hNe : (s.leaf t vp').present = false → ¬ (u = t ∧ vp = vp')) :
    Kept m s (Paging.userMapFramePage m s t vp' phys write exec).1 u
      vp := by
  unfold Paging.userMapFramePage
  split
  · exact Kept.refl m s u vp
  case h_2 sp hSpace =>
    generalize hSlot : userPteSlot s.fr sp vp' = r
    obtain ⟨fr₁, sp₁, ok⟩ := r
    have hGrown := userPteSlot_grown hSlot
    cases ok with
    | false => exact Kept.grown hPool hSpace hGrown u vp
    | true =>
    dsimp only
    split
    · exact Kept.grown hPool hSpace hGrown u vp
    case isFalse hAbsent =>
      rw [leaf_of_space hSpace, ← hGrown.leaf] at hNe
      refine Kept.set_grown hPool hSpace hGrown (pageRefInc_store m fr₁ phys) (hNe ?_)
      simpa using (not_or.mp hAbsent).1

theorem PoolGood.kept_userUnmapFramePage (phys : Nat)
    (hNe : (s.leaf t vp').addr = phys → ¬ (u = t ∧ vp = vp')) :
    Kept m s (Paging.userUnmapFramePage m s t vp' phys).1 u
      vp := by
  unfold Paging.userUnmapFramePage
  split
  · exact Kept.refl m s u vp
  case h_2 sp hSpace =>
    generalize hSlot : userPteSlot s.fr sp vp' = r
    obtain ⟨fr₁, sp₁, ok⟩ := r
    have hGrown := userPteSlot_grown hSlot
    cases ok with
    | false => exact Kept.grown hPool hSpace hGrown u vp
    | true =>
    dsimp only
    split
    · exact Kept.grown hPool hSpace hGrown u vp
    split
    · exact Kept.grown hPool hSpace hGrown u vp
    case isFalse hSame =>
      rw [leaf_of_space hSpace, ← hGrown.leaf] at hNe
      exact Kept.set_grown hPool hSpace hGrown (pageRefDec_store m fr₁ phys)
        (hNe (not_not.mp hSame))

theorem PoolGood.kept_userMapPrivateCopy (page : Page)
    (hNe : (s.leaf t vp').present = false → ¬ (u = t ∧ vp = vp')) :
    Kept m s (Paging.userMapPrivateCopy m s t vp' page).1 u
      vp := by
  unfold Paging.userMapPrivateCopy
  split
  · exact Kept.refl m s u vp
  case h_2 sp hSpace =>
    split
    · exact Kept.refl m s u vp
    case h_2 f fr hAlloc =>
      have hNone : naming (sp.entries ++ entriesOf (s.others t)) f = 0 :=
        (Good.free_unnamed (hPool.at hSpace) (alloc_mem hAlloc)).1
      generalize hSlot : userPteSlot (fr.setPage f page) sp vp' = r
      obtain ⟨fr₁, sp₁, ok⟩ := r
      have hGrown := userPteSlot_grown hSlot
      have hFree := freeUserPhysicalPage_store m fr₁ f
      have hAll : ∀ x, x = Pte.empty ∨ x ∈ sp.entries ++ entriesOf (s.others t) →
            fr₁.content x = s.fr.content x := by
        rintro x (rfl | hIn)
        · rw [content_empty, content_empty]
        · rw [hGrown.content, SameFor.setPage hNone page x hIn]
          exact (alloc_store hAlloc).content x
      have hPage : ∀ vp, fr₁.content (sp.leaf vp) = s.fr.content (sp.leaf vp) := by
        intro vp
        refine hAll _ ?_
        rcases leaf_mem_entries sp vp with hEmpty | hIn
        · exact .inl hEmpty
        · exact .inr (List.mem_append_left _ hIn)
      have hOthers : SameFor s.fr fr₁ (entriesOf (s.others t)) :=
        fun x hIn => hAll x (.inr (List.mem_append_right _ hIn))
      dsimp only
      split
      · have hSame : SameFor s.fr (freeUserPhysicalPage m fr₁ f) (entriesOf (s.others t)) :=
          hOthers.trans hFree.sameFor
        rcases eq_or_ne u t with rfl | hTask
        · refine Kept.own hSpace fun hPrivate => ?_
          rw [hGrown.leaf, hFree.content]
          exact ⟨.refl, hPrivate, hPage vp⟩
        · exact Kept.other hPool hSame hTask
      case isFalse hMay =>
        rw [leaf_of_space hSpace, ← hGrown.leaf] at hNe
        refine Kept.set hPool hSpace ⟨hOthers, ?_⟩ hGrown.leaf (hNe ?_)
        · intro vp _
          rw [hGrown.leaf]
          exact hPage vp
        · simpa using (not_or.mp (not_or.mp hMay).2).1

end

end Mapping

----
-- Creating and Cloning
----

section Create

variable {m : Machine} {s : Pg} {t u vp : Nat} {fr fr' : Frames}

theorem SameFor.reclaimDeferred {sps rest : List Space}
    (hGood : Good m fr (entriesOf (sps ++ rest)) (framesOf (sps ++ rest)))
    (hReclaim : Paging.reclaimDeferred m loaded fr sps = (fr', kept)) :
    SameFor fr fr' (entriesOf rest) := by
  induction sps generalizing fr kept rest with
  | nil =>
    cases hReclaim
    exact SameFor.refl _ _
  | cons sp sps ih =>
  unfold Paging.reclaimDeferred at hReclaim
  split at hReclaim
  · generalize hRest : Paging.reclaimDeferred m loaded fr sps = r at hReclaim
    obtain ⟨fr₁, kept₁⟩ := r
    cases hReclaim
    have hMoved := Good.spaces_perm List.perm_middle.symm hGood
    have hSame : SameFor fr fr' (sp.entries ++ entriesOf rest) := ih hMoved hRest
    exact hSame.right
  · have hAt : GoodAt m fr sp (entriesOf (sps ++ rest)) (framesOf (sps ++ rest)) := hGood
    have hFreed := hAt.same_freeUserAspace
    rw [entriesOf, List.flatMap_append] at hFreed
    exact hFreed.right.trans (ih hAt.freeUserAspace hReclaim)

theorem PoolGood.kept_reclaimDeferred (hPool : PoolGood m s)
    (hReclaim : Paging.reclaimDeferred m loaded s.fr s.deferred = (fr', kept))
    (u vp : Nat) : Kept m s { s with fr := fr', deferred := kept } u vp := by
  have hFront := Good.spaces_perm List.perm_append_comm hPool.good
  have hSame := SameFor.reclaimDeferred hFront hReclaim
  refine Kept.of_leaf rfl fun _ => ?_
  cases hSpace : s.space u with
  | none =>
    have hEmpty : s.leaf u vp = Pte.empty := by
      rw [Pg.leaf, hSpace]
    rw [hEmpty, content_empty, content_empty]
  | some sp =>
  rw [leaf_of_space hSpace]
  rcases leaf_mem_entries sp vp with hEmpty | hIn
  · rw [hEmpty, content_empty, content_empty]
  · refine hSame _ (List.mem_flatMap.mpr ⟨sp, ?_, hIn⟩)
    exact List.mem_filterMap.mpr ⟨u, List.mem_range.mpr (hPool.task_lt hSpace), hSpace⟩

theorem PoolGood.kept_releaseOld (hPool : PoolGood m s) (loaded : List Nat)
    (hNe : u ≠ t) : Kept m s (Paging.releaseOld m loaded s t) u vp := by
  unfold Paging.releaseOld
  split
  · exact Kept.refl m s u vp
  case h_2 sp hSpace =>
    generalize hReclaim : Paging.reclaimDeferred m loaded s.fr s.deferred = r
    obtain ⟨fr, kept⟩ := r
    have hKept := hPool.reclaimDeferred hReclaim
    refine (hPool.kept_reclaimDeferred hReclaim u vp).trans ?_
    dsimp only
    split
    · exact Kept.other hKept (hKept.at hSpace).same_freeUserAspace hNe
    · exact Kept.other hKept (SameFor.refl fr _) hNe

theorem blank_root (fr : Frames) (root : Nat) : Blank fr ⟨root, [], []⟩ := fun _ => content_empty fr

theorem PoolGood.kept_createFresh (hPool : PoolGood m s)
    (hTask : t < maxTasks) (hNone : s.space t = none) (image : List Nat)
    (hNe : u ≠ t) : Kept m s (Paging.createFresh m s t image) u vp := by
  have hOthers := hPool.others_of_none hTask hNone
  unfold Paging.createFresh
  split
  · exact Kept.refl m s u vp
  case h_2 root fr hAlloc =>
    have hRoot := GoodAt.root (hOthers.alloc hAlloc)
    generalize hBuild : Paging.buildSpace m fr ⟨root, [], []⟩ image = r
    obtain ⟨fr₁, sp, ok⟩ := r
    have hBuilt := hRoot.buildSpace hBuild
    have hSame : SameFor s.fr fr₁ (entriesOf (s.others t)) :=
      (alloc_store hAlloc).sameFor.trans (hRoot.same_buildSpace (blank_root fr root) hBuild).1
    cases ok with
    | false =>
      have hFreed := hSame.trans hBuilt.same_freeUserAspace
      refine Kept.setFr fun _ => ?_
      rcases hPool.leaf_mem_others hNe vp with hEmpty | hIn
      · rw [hEmpty, content_empty, content_empty]
      · exact hFreed _ hIn
    | true =>
    dsimp only
    generalize hWin : Paging.ensureWindows fr₁ sp m.windows = r
    refine Kept.other hPool ?_ hNe
    intro x hIn
    rw [ensureWindows_content _ hWin, hSame x hIn]

theorem PoolGood.kept_createUserPagedir (hPool : PoolGood m s)
    (base count : Nat) (loaded : List Nat) (hNe : u ≠ t) :
    Kept m s (Paging.createUserPagedir m s t base count loaded) u vp := by
  unfold Paging.createUserPagedir
  split
  case isTrue hTask =>
    exact (hPool.kept_releaseOld loaded hNe).trans
      ((hPool.releaseOld loaded t).kept_createFresh hTask.2 (releaseOld_none m loaded s t) _ hNe)
  case isFalse => exact Kept.refl m s u vp

/- A task that is created sees zeros. -/
theorem PoolGood.blank_createFresh (hPool : PoolGood m s)
    (hTask : t < maxTasks) (hNone : s.space t = none) (image : List Nat) (vp : Nat) :
    (Paging.createFresh m s t image).view t vp = zeroPage ∨ ∃ w ∈ m.windows, vp = w / pageSize := by
  have hOthers := hPool.others_of_none hTask hNone
  have hNothing : ∀ fr, (s.setFr fr).view t vp = zeroPage := by
    intro fr
    have hEmpty : (s.setFr fr).leaf t vp = Pte.empty := by
      have hStill : (s.setFr fr).space t = none := hNone
      rw [Pg.leaf, hStill]
    rw [Pg.view, hEmpty, content_empty]
  unfold Paging.createFresh
  split
  · exact .inl (hNothing s.fr)
  case h_2 root fr hAlloc =>
    have hRoot := GoodAt.root (hOthers.alloc hAlloc)
    generalize hBuild : Paging.buildSpace m fr ⟨root, [], []⟩ image = r
    obtain ⟨fr₁, sp, ok⟩ := r
    have hBlank := (hRoot.same_buildSpace (blank_root fr root) hBuild).2
    cases ok with
    | false => exact .inl (hNothing _)
    | true =>
    dsimp only
    generalize hWin : Paging.ensureWindows fr₁ sp m.windows = r
    rcases ensureWindows_leaf _ hWin vp with hSame | ⟨w, hIn, hPage, _⟩
    · left
      rw [Pg.view, leaf_setSpace_self, hSame]
      exact (ensureWindows_content _ hWin _).trans (hBlank vp)
    · exact .inr ⟨w, hIn, hPage⟩

end Create

section Clone

variable {m : Machine} {s : Pg} {child parent u vp : Nat} {psp : Space}

theorem private_shared : e.shared.Private m ↔ e.Private m := by
  rw [Pte.Private, Pte.Private, shared_present, shared_addr]

/- A fork shows in the address space of the child only. -/
theorem PoolGood.kept_cloneFresh (hPool : PoolGood m s)
    (hNe : child ≠ parent) (hSpace : s.space parent = some psp) (hOther : u ≠ child) :
    Kept m s (Paging.cloneFresh m s child parent psp).1 u
      vp := by
  unfold Paging.cloneFresh
  split
  · exact Kept.refl m s u vp
  case h_2 root fr hAlloc =>
    generalize hLoop : Paging.forkLoop m fr psp ⟨root, [], []⟩ psp.pages = r
    obtain ⟨fr₁, psp', csp, ok⟩ := r
    have hContent : ∀ e, fr₁.content e = s.fr.content e := by
      intro e
      rw [forkLoop_content (pages_nodup psp) (fun _ _ => rfl) hLoop, (alloc_store hAlloc).content]
    have hParent : ∀ vp, (psp.leaf vp).Private m →
        Moved m (psp.leaf vp) (psp'.leaf vp) ∧ (psp'.leaf vp).Private m ∧
          fr₁.content (psp'.leaf vp) = s.fr.content (psp.leaf vp) := by
      intro vp hPrivate
      rcases forkLoop_parent (pages_nodup psp) hLoop vp with hSame | ⟨hShares, hShared⟩
      · rw [hSame]
        exact ⟨.refl, hPrivate, hContent _⟩
      · rw [hShared, content_shared]
        exact ⟨.single (.share hShares), private_shared.mpr hPrivate, hContent _⟩
    cases ok with
    | false =>
      have hForked := hPool.good_forkLoop hSpace hAlloc hLoop
      have hFreed := hForked.same_freeUserAspace
      rcases eq_or_ne u parent with rfl | hTask
      · refine Kept.own hSpace fun hPrivate => ?_
        obtain ⟨hMoved, hPrivate', hView⟩ := hParent vp hPrivate
        refine ⟨hMoved, hPrivate', ?_⟩
        rcases leaf_mem_entries psp' vp with hEmpty | hIn
        · rw [hEmpty, content_empty] at hView
          rw [hEmpty, content_empty, hView]
        · rw [hFreed _ (List.mem_append_left _ hIn), hView]
      · refine Kept.other hPool ?_ hTask
        intro x hIn
        rw [hFreed x (List.mem_append_right _ hIn), hContent]
    | true =>
      dsimp only
      generalize hWin : Paging.ensureWindows fr₁ csp m.windows = r
      obtain ⟨fr₂, csp'⟩ := r
      have hWindows : ∀ e, fr₂.content e = s.fr.content e := by
        intro e
        rw [ensureWindows_content _ hWin, hContent]
      rcases eq_or_ne u parent with rfl | hTask
      · intro hPrivate
        rw [leaf_of_space hSpace] at hPrivate
        obtain ⟨hMoved, hPrivate', hView⟩ := hParent vp hPrivate
        have hForked : (s.forked fr₂ child u csp' psp').space u = some psp' := forked_parent hNe
        rw [Pg.view, Pg.view, leaf_of_space hForked, leaf_of_space hSpace]
        refine ⟨hMoved, hPrivate', ?_⟩
        exact (ensureWindows_content _ hWin _).trans hView
      · refine Kept.of_leaf ?_ fun _ => hWindows _
        simp [Pg.leaf, Pg.forked, hOther, hTask]

theorem PoolGood.kept_cloneUserAspace (hPool : PoolGood m s)
    (loaded : List Nat) (hOther : u ≠ child) : Kept m s
      (Paging.cloneUserAspace m s child parent loaded).1 u
      vp := by
  unfold Paging.cloneUserAspace
  split
  case isTrue hOk =>
    obtain ⟨hTask, hNe⟩ := hOk
    split
    · exact Kept.refl m s u vp
    case h_2 psp hSpace =>
      refine (hPool.kept_releaseOld loaded hOther).trans ?_
      refine (hPool.releaseOld loaded child).kept_cloneFresh hNe ?_ hOther
      rw [releaseOld_other m loaded s hNe.symm]
      exact hSpace
  case isFalse => exact Kept.refl m s u vp

end Clone

/- The pages that a step is about. -/
def PgOp.Touches (u vp : Nat) : PgOp → Prop
  | .create t _ _ _ => u = t
  | .clone child _ _ => u = child
  | .store t vp' _ _ => u = t ∧ vp = vp'
  | .mapDevice t vp' _ _ => u = t ∧ vp = vp'
  | .mapFrame t vp' _ _ _ => u = t ∧ vp = vp'
  | .unmapFrame t vp' _ => u = t ∧ vp = vp'
  | .privateCopy t vp' _ => u = t ∧ vp = vp'
  | .forget t => u = t
  | _ => False

variable {s : Pg}

theorem PoolGood.kept_unpin (hPool : PoolGood m s) (f u vp : Nat) :
    Kept m s (s.setFr (frameUnpinRefcount s.fr f)) u vp := by
  refine Kept.setFr fun hPrivate => ?_
  unfold frameUnpinRefcount
  split
  case isFalse => rfl
  case isTrue hOld =>
    by_cases hPresent : (s.leaf u vp).present = true
    · rw [content_present hPresent, content_present hPresent]
      have hNe : (s.leaf u vp).addr ≠ f := by
        intro hEq
        have hArena := (hPrivate hPresent).2
        rw [hEq, (hPool.good.pinned f hOld.1).1] at hArena
        cases hArena
      exact update_of_ne hNe _ _
    · simp only [Frames.content, if_neg hPresent]
      rfl

theorem PoolGood.kept_apply {u : Nat}
    (hPool : PoolGood m s) (op : PgOp) (hNot : ¬ op.Touches u vp) :
    Kept m s (s.apply m op) u vp := by
  cases op with
  | create t base count loaded => exact hPool.kept_createUserPagedir base count loaded hNot
  | clone _ _ loaded => exact hPool.kept_cloneUserAspace loaded hNot
  | fault t va isWrite io =>
    change Kept m s (Paging.faultStep m s t va isWrite io) u vp
    unfold Paging.faultStep
    split
    · exact Kept.refl m s u vp
    · split
      · exact hPool.kept_handleDemandPageFault t va isWrite io u vp
      · exact Kept.refl m s u vp
  | evict t vp' n => exact hPool.kept_evictPage t vp' n u vp
  | store _ _ off byte => exact hPool.kept_storeByte off byte fun _ => hNot
  | mapDevice _ _ phys writable => exact hPool.kept_userMapDevicePage phys writable fun _ => hNot
  | mapFrame _ _ phys write exec =>
    unfold Pg.apply
    dsimp only
    split
    · exact hPool.kept_userMapFramePage phys write exec fun _ => hNot
    · exact Kept.refl m s u vp
  | unmapFrame _ _ phys =>
    unfold Pg.apply
    dsimp only
    split
    · exact hPool.kept_userUnmapFramePage phys fun _ => hNot
    · exact Kept.refl m s u vp
  | privateCopy _ _ page => exact hPool.kept_userMapPrivateCopy page fun _ => hNot
  | sealRange t vps => exact hPool.kept_userSealRange t vps u vp
  | pin =>
    refine Kept.setFr fun _ => ?_
    refine SameStore.content ?_ _
    unfold framePinRefcount
    split <;> exact ⟨rfl, rfl⟩
  | unpin f => exact hPool.kept_unpin f u vp
  | kalloc =>
    change Kept m s (Paging.kallocStep s) u vp
    unfold Paging.kallocStep
    split
    · exact Kept.refl m s u vp
    case h_2 f fr hAlloc => exact Kept.setFr fun _ => (alloc_store hAlloc).content _
  | forget t => exact Kept.of_leaf (leaf_setSpace_other none hNot vp) fun _ => rfl
  | setBounds => exact Kept.refl m s u vp

end Horus.Paging
