import Horus.Paging.Account

/-
  No frame is mapped twice in one address space.

  The frames of objects, the zero page and device pages apart,
  an address space has one entry for a frame at most. So the
  references that forks take are bounded by the number of
  address spaces, and a count never comes near its limit.
-/

namespace Horus.Paging

open Lib

def Once (m : Machine) (es : List Pte) : Prop := ∀ f, Counted m f → naming es f ≤ 1

variable {f va : Nat} {rc : Int} {b : Bounds} {isWrite ok nx : Bool}
    {child' child parent' parent : Space} {vps : List Nat}

section Once

variable {m : Machine} {fr fr' : Frames} {sp sp' : Space}
    {es : List Pte} {ts : List Nat} {vp : Nat} {e : Pte}

theorem Once.grown (hOnce : Once m sp.entries)
    (hGrown : Grown fr sp fr' sp') : Once m sp'.entries := by
  rw [Space.entries, hGrown.leaves]
  exact hOnce

/- An entry for a frame that the address space does not have. -/
theorem Once.set (hOnce : Once m sp.entries)
    (hNew : e.present = true → Counted m e.addr → naming sp.entries e.addr = 0) :
    Once m (sp.setLeaf vp e).entries := by
  intro f hCounted
  have hLe := naming_setLeaf_le sp vp e f
  have hOld := hOnce f hCounted
  split at hLe
  case isTrue hNames =>
    obtain ⟨hPresent, rfl⟩ := names_iff.mp hNames
    have hNone := hNew hPresent hCounted
    omega
  case isFalse => omega

theorem Once.reflag (hOnce : Once m sp.entries) (hPresent : e.present = (sp.leaf vp).present)
    (hAddr : e.addr = (sp.leaf vp).addr) : Once m (sp.setLeaf vp e).entries := by
  intro f hCounted
  rw [naming_setLeaf_same hPresent hAddr]
  exact hOnce f hCounted

/- A free frame is not in the address space. -/
theorem GoodAt.free_unnamed (hGood : GoodAt m fr sp es ts)
    (hFree : f ∈ fr.free) : naming sp.entries f = 0 := by
  have hNone := (Good.free_unnamed hGood hFree).1
  rw [naming_append] at hNone
  omega

theorem alloc_mem (hAlloc : allocUserPhysicalPage fr = some (f, fr')) : f ∈ fr.free := by
  obtain ⟨rest, hFree, _⟩ := alloc_some hAlloc
  rw [hFree]
  exact List.mem_cons_self

theorem rustPageRefDec_free (m : Machine) (fr : Frames) (phys : Nat) :
    (rustPageRefDec m fr phys).1.free = fr.free := by
  unfold rustPageRefDec
  split
  · rfl
  · split <;> rfl

/- A fault maps the old frame, a free one or the zero page. -/
theorem FaultCase.from_free {e e' : Pte}
    (hOk : e.Ok) (hCase : FaultCase m b fr e va isWrite (fr', e', rc)) :
    (e'.present = e.present ∧ e'.addr = e.addr) ∨ e'.addr ∈ fr.free ∨
      (m.zero ≠ 0 ∧ e'.addr = m.zero) := by
  cases hCase with
  | refused | unread | uncopied => exact .inl ⟨rfl, rfl⟩
  | backIn _ hAlloc | fresh _ _ hAlloc => exact .inr (.inl (alloc_mem hAlloc))
  | zero _ _ _ _ hZero => exact .inr (.inr ⟨hZero, rfl⟩)
  | copied _ _ _ _ _ hDec _ hAlloc =>
    have hMem := alloc_mem hAlloc
    have hSame := rustPageRefDec_free m fr e.addr
    rw [hDec] at hSame
    rw [hSame] at hMem
    exact .inr (.inl hMem)
  | inPlace hNotIn _ hCow => exact .inl ⟨(hOk.present hNotIn hCow).symm, rfl⟩

theorem Once.faultSpace {read : Bool} (hOnce : Once m sp.entries) (hGood : GoodAt m fr sp es ts)
    (hFault : faultSpace m b fr sp va isWrite read = (fr', sp', rc)) : Once m sp'.entries := by
  rcases faultSpace_cases hFault with ⟨hGrown, _⟩ | ⟨fr₁, sp₁, e, hGrown, hCase, rfl⟩
  · exact hOnce.grown hGrown
  have hOnce₁ := hOnce.grown hGrown
  rcases hCase.from_free (leaf_ok hGood _) with ⟨hPresent, hAddr⟩ | hFree | ⟨_, hZero⟩
  · rw [← hGrown.leaf] at hPresent hAddr
    exact hOnce₁.reflag hPresent hAddr
  · refine hOnce₁.set fun _ _ => ?_
    exact (hGood.grown hGrown).free_unnamed hFree
  · refine hOnce₁.set fun _ hCounted => ?_
    exact absurd hZero hCounted.2.1

theorem Once.evictLeaf {n : Nat} (hOnce : Once m sp.entries)
    (hEvict : evictLeaf m b fr sp vp n = (fr', sp')) : Once m sp'.entries := by
  unfold Paging.evictLeaf at hEvict
  split at hEvict
  · cases hEvict
    refine hOnce.set fun hPresent => ?_
    cases hPresent
  · cases hEvict
    exact hOnce

theorem Once.buildSpace {image : List Nat}
    (hOnce : Once m sp.entries) (hGood : GoodAt m fr sp es ts)
    (hBuild : buildSpace m fr sp image = (fr', sp', ok)) : Once m sp'.entries := by
  refine (buildSpace_induction (P := fun fr sp => GoodAt m fr sp es ts ∧ Once m sp.entries)
    ?_ ⟨hGood, hOnce⟩ hBuild).2
  intro fr sp _ _ _ _ _ hBefore hCase
  refine ⟨hBefore.1.freshCase hCase, ?_⟩
  cases hCase with
  | refused => exact hBefore.2
  | unmapped _ hGrown => exact hBefore.2.grown hGrown
  | mapped hAlloc hGrown =>
    refine (hBefore.2.grown hGrown).set fun _ _ => ?_
    rw [Space.entries, hGrown.leaves]
    exact hBefore.1.free_unnamed (alloc_mem hAlloc)

theorem Once.ensureWindows (ws : List Nat)
    (hClean : ∀ w ∈ ws, m.refcIndex w = none) (hOnce : Once m sp.entries)
    (hEnsure : ensureWindows fr sp ws = (fr', sp')) : Once m sp'.entries :=
  ensureWindows_induction (P := fun _ sp => Once m sp.entries)
    (fun hBefore hGrown => hBefore.grown hGrown)
    (fun w hIn hBefore => hBefore.set fun _ hCounted =>
      absurd hCounted.1 (not_inPool_of_refcIndex (hClean w hIn)))
    hOnce hEnsure

/- The child gets an entry for each page of the parent. -/
theorem forkLoop_naming (hNodup : vps.Nodup)
    (hLoop : forkLoop m fr parent child vps = (fr', parent', child', ok))
    (f : Nat) : naming parent'.entries f = naming parent.entries f ∧
      naming child'.entries f ≤ naming child.entries f + naming (toShare parent vps) f := by
  induction vps generalizing fr parent child with
  | nil =>
    cases hLoop
    exact ⟨rfl, Nat.le_add_right _ _⟩
  | cons vp vps ih =>
  obtain ⟨hNot, hRest⟩ := List.nodup_cons.mp hNodup
  change _ ∧ _ ≤ _ + naming (parent.leaf vp :: toShare parent vps) f
  rw [naming_cons]
  rcases forkLoop_cons hLoop with ⟨_, hCase⟩ | ⟨_, _, _, hCase, hLater⟩
  all_goals
    have hParent := hCase.naming_parent f
    have hChild := hCase.naming_child f
  · exact ⟨hParent, by omega⟩
  · have hIh := ih hRest hLater
    rw [hCase.toShare_rest hNot] at hIh
    omega

theorem Once.forkLoop (hNodup : vps.Nodup) (hOnce : Once m parent.entries)
    (hEmpty : child.entries = [])
    (hLoop : forkLoop m fr parent child vps = (fr', parent', child', ok)) :
    Once m parent'.entries ∧ Once m child'.entries := by
  constructor
  · intro f hCounted
    rw [(forkLoop_naming hNodup hLoop f).1]
    exact hOnce f hCounted
  intro f hCounted
  have hChild := (forkLoop_naming hNodup hLoop f).2
  have hPages := naming_toShare_le parent hNodup f
  have hParent := hOnce f hCounted
  have hNone : naming child.entries f = 0 := by
    rw [hEmpty]
    rfl
  omega

end Once

end Horus.Paging
