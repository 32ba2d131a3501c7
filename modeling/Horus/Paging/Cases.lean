import Horus.Paging.System

/-
  What the operations on address spaces can do.

  Each operation is taken apart once. What is shown about it
  later follows from these cases and not from its definition.
-/

namespace Horus.Paging

open Function
open Lib

variable {vp f g : Nat} {sp sp' : Space} {fr' fr : Frames} {k : Nat × Nat} {ok : Bool}

@[simp] theorem leaf_setLeaf_self (sp : Space) (vp : Nat) (e : Pte) :
    (sp.setLeaf vp e).leaf vp = e := by
  simp [Space.leaf, Space.setLeaf]

theorem leaf_setLeaf_other (sp : Space) {vp' : Nat} (e : Pte)
    (hNe : vp' ≠ vp) : (sp.setLeaf vp e).leaf vp' = sp.leaf vp' := by
  simp [Space.leaf, Space.setLeaf, Table.get_set_other hNe]

theorem alloc_some (hAlloc : allocUserPhysicalPage fr = some (f, fr')) :
    ∃ rest, fr.free = f :: rest ∧ fr' = fr.lend f rest := by
  unfold allocUserPhysicalPage at hAlloc
  split at hAlloc
  · cases hAlloc
  case h_2 g rest hFree =>
    cases hAlloc
    exact ⟨rest, hFree, rfl⟩

----
-- Tables
----

/- Tables were added, each in a frame of its own. -/
inductive Grown (fr : Frames) (sp : Space) : Frames → Space → Prop where
  | refl : Grown fr sp fr sp
  | table {fr₁ fr₂ : Frames} {sp₁ : Space} {k : Nat × Nat} {f : Nat} (hBefore : Grown fr sp fr₁ sp₁)
      (hNew : sp₁.tables.get k = none)
      (hAlloc : allocUserPhysicalPage fr₁ = some (f, fr₂)) :
      Grown fr sp fr₂ (sp₁.addTable k f)

section Growing

variable {fr fr' fr'' : Frames} {sp sp' sp'' : Space}

theorem Grown.trans (hFirst : Grown fr sp fr' sp')
    (hThen : Grown fr' sp' fr'' sp'') : Grown fr sp fr'' sp'' := by
  induction hThen with
  | refl => exact hFirst
  | table _ hNew hAlloc ih => exact ih.table hNew hAlloc

theorem Grown.leaves (hGrown : Grown fr sp fr' sp') : sp'.leaves = sp.leaves := by
  induction hGrown with
  | refl => rfl
  | table _ _ _ ih => exact ih

theorem Grown.leaf (hGrown : Grown fr sp fr' sp') (vp : Nat) : sp'.leaf vp = sp.leaf vp := by
  rw [Space.leaf, Space.leaf, hGrown.leaves]

/- The memory, the swap store and the objects are the same. -/
theorem Grown.same (hGrown : Grown fr sp fr' sp') :
    fr'.mem = fr.mem ∧ fr'.slot = fr.slot ∧ fr'.pinned = fr.pinned := by
  induction hGrown with
  | refl => exact ⟨rfl, rfl, rfl⟩
  | table _ _ hAlloc ih =>
    obtain ⟨rest, _, rfl⟩ := alloc_some hAlloc
    exact ih

theorem Grown.kept (hGrown : Grown fr sp fr' sp')
    (hNot : g ∉ fr.free) : g ∉ fr'.free ∧ fr'.refs g = fr.refs g ∧ fr'.loan g = fr.loan g := by
  induction hGrown with
  | refl => exact ⟨hNot, rfl, rfl⟩
  | table _ _ hAlloc ih =>
    obtain ⟨rest, hFree, rfl⟩ := alloc_some hAlloc
    obtain ⟨hOut, hRefs, hLoan⟩ := ih
    rw [hFree, List.mem_cons, not_or] at hOut
    exact ⟨hOut.2, (update_of_ne hOut.1 ..).trans hRefs, (update_of_ne hOut.1 ..).trans hLoan⟩

theorem userTableNext_grown (hNext : userTableNext fr sp k = some (fr', sp')) :
    Grown fr sp fr' sp' := by
  unfold userTableNext at hNext
  split at hNext
  · cases hNext
    exact Grown.refl
  case h_2 hNew =>
    split at hNext
    · cases hNext
    case h_2 f fr₁ hAlloc =>
      cases hNext
      exact Grown.refl.table hNew hAlloc

theorem userTableNext_has (hNext : userTableNext fr sp k = some (fr', sp')) :
    sp'.tables.get k ≠ none := by
  unfold userTableNext at hNext
  split at hNext
  case h_1 f hGet =>
    cases hNext
    rw [hGet]
    exact Option.some_ne_none f
  case h_2 =>
    split at hNext
    · cases hNext
    case h_2 f fr₁ hAlloc =>
      cases hNext
      rw [Space.addTable, Table.get_set_self]
      exact Option.some_ne_none f

theorem makeTables_grown (ks : List (Nat × Nat)) (hMake : makeTables fr sp ks = (fr', sp', ok)) :
    Grown fr sp fr' sp' := by
  induction ks generalizing fr sp with
  | nil =>
    cases hMake
    exact Grown.refl
  | cons _ _ ih =>
  unfold makeTables at hMake
  split at hMake
  · cases hMake
    exact Grown.refl
  case h_2 fr₁ sp₁ hNext => exact (userTableNext_grown hNext).trans (ih hMake)

theorem userPteSlot_grown (hSlot : userPteSlot fr sp vp = (fr', sp', ok)) :
    Grown fr sp fr' sp' := by
  unfold userPteSlot at hSlot
  split at hSlot
  · exact makeTables_grown _ hSlot
  · cases hSlot
    exact Grown.refl

theorem Grown.table_stays (hGrown : Grown fr sp fr' sp')
    (hHas : sp.tables.get k ≠ none) : sp'.tables.get k ≠ none := by
  induction hGrown with
  | refl => exact hHas
  | @table _ _ sp₁ k' _ _ hNew _ ih =>
  have hNe : k ≠ k' := by
    intro hEq
    subst hEq
    exact ih hNew
  rw [Space.addTable, Table.get_set_other hNe]
  exact ih

/- Tables that could not be made cannot be made again. -/
theorem makeTables_stuck (ks : List (Nat × Nat)) (hMake : makeTables fr sp ks = (fr', sp', false)) :
    makeTables fr' sp' ks = (fr', sp', false) := by
  induction ks generalizing fr sp with
  | nil => cases hMake
  | cons k ks ih =>
  unfold makeTables at hMake
  split at hMake
  case h_1 hNext =>
    cases hMake
    rw [makeTables, hNext]
  case h_2 fr₁ sp₁ hNext =>
    have hHas := (makeTables_grown ks hMake).table_stays (userTableNext_has hNext)
    obtain ⟨f, hGet⟩ := Option.ne_none_iff_exists'.mp hHas
    rw [makeTables, userTableNext, hGet]
    exact ih hMake

variable {e : Pte}

theorem userMapPage_stuck (hSlot : userPteSlot fr sp vp = (fr', sp', false)) :
    userMapPage fr' sp' vp e = (fr', sp', false) := by
  have hAgain : userPteSlot fr' sp' vp = (fr', sp', false) := by
    unfold userPteSlot at hSlot ⊢
    split
    case isTrue hUser =>
      rw [if_pos hUser] at hSlot
      exact makeTables_stuck _ hSlot
    case isFalse => rfl
  rw [userMapPage, hAgain]

/- A mapping is refused, or written over what was there. -/
theorem userMapPage_cases (hMap : userMapPage fr sp vp e = (fr', sp', ok)) :
    (ok = false ∧ Grown fr sp fr' sp') ∨ (ok = true ∧ ∃ fr₁ sp₁, Grown fr sp fr₁ sp₁ ∧
        fr' = dropSwapped fr₁ (sp.leaf vp) ∧ sp' = sp₁.setLeaf vp e) := by
  unfold userMapPage at hMap
  split at hMap
  case h_1 fr₁ sp₁ hSlot =>
    cases hMap
    exact .inl ⟨rfl, userPteSlot_grown hSlot⟩
  case h_2 fr₁ sp₁ hSlot =>
    cases hMap
    have hGrown := userPteSlot_grown hSlot
    rw [hGrown.leaf vp]
    exact .inr ⟨rfl, fr₁, sp₁, hGrown, rfl, rfl⟩

end Growing

section Building

variable {m : Machine} {nx : Bool} {P : Frames → Space → Prop}

/- A frame of zeros is taken and mapped, or given back. -/
inductive FreshCase (m : Machine) (fr : Frames) (sp : Space) (vp : Nat) (nx : Bool) : Frames × Space
    × Bool → Prop where
  | refused : FreshCase m fr sp vp nx (fr, sp, false)
  | unmapped {f : Nat} {fr₁ fr₂ : Frames} {sp₂ : Space}
      (hAlloc : allocUserPhysicalPage fr = some (f, fr₁))
      (hGrown : Grown (fr₁.setPage f zeroPage) sp fr₂ sp₂) :
      FreshCase m fr sp vp nx (freeUserPhysicalPage m fr₂ f, sp₂, false)
  | mapped {f : Nat} {fr₁ fr₂ : Frames} {sp₂ : Space}
      (hAlloc : allocUserPhysicalPage fr = some (f, fr₁))
      (hGrown : Grown (fr₁.setPage f zeroPage) sp fr₂ sp₂) :
      FreshCase m fr sp vp nx (dropSwapped fr₂ (sp.leaf vp),
          sp₂.setLeaf vp (Pte.userPage f true nx), true)

theorem userMapFreshPage_cases (hMap : userMapFreshPage m fr sp vp nx = (fr', sp', ok)) :
    FreshCase m fr sp vp nx (fr', sp', ok) := by
  unfold userMapFreshPage at hMap
  split at hMap
  · cases hMap
    exact .refused
  case h_2 f fr₁ hAlloc =>
    generalize hRes : userMapPage (fr₁.setPage f zeroPage) sp vp
        (Pte.userPage f true nx) = r at hMap
    obtain ⟨fr₂, sp₂, done⟩ := r
    rcases userMapPage_cases hRes with ⟨rfl, hGrown⟩ | ⟨rfl, fr₃, sp₃, hGrown, rfl, rfl⟩
    · cases hMap
      exact .unmapped hAlloc hGrown
    · cases hMap
      exact .mapped hAlloc hGrown

/- What every fresh page keeps, a whole image keeps. -/
theorem premap_induction
    (hStep : ∀ {fr sp vp nx fr' sp' ok}, P fr sp → FreshCase m fr sp vp nx (fr', sp', ok) →
      P fr' sp')
    (vps : List Nat) (hStart : P fr sp) (hMap : premap m nx fr sp vps = (fr', sp', ok)) :
    P fr' sp' := by
  induction vps generalizing fr sp with
  | nil =>
    cases hMap
    exact hStart
  | cons _ _ ih =>
  unfold premap at hMap
  split at hMap
  case h_1 hFresh =>
    cases hMap
    exact hStep hStart (userMapFreshPage_cases hFresh)
  case h_2 hFresh => exact ih (hStep hStart (userMapFreshPage_cases hFresh)) hMap

theorem buildSpace_induction {image : List Nat}
    (hStep : ∀ {fr sp vp nx fr' sp' ok}, P fr sp → FreshCase m fr sp vp nx (fr', sp', ok) →
      P fr' sp')
    (hStart : P fr sp) (hBuild : buildSpace m fr sp image = (fr', sp', ok)) : P fr' sp' := by
  unfold buildSpace at hBuild
  split at hBuild
  case h_1 hImage =>
    cases hBuild
    exact premap_induction hStep _ hStart hImage
  case h_2 hImage => exact premap_induction hStep _ (premap_induction hStep _ hStart hImage) hBuild

/- The tables of each register page, then its entry. -/
theorem ensureWindows_induction {ws : List Nat}
    (hGrow : ∀ {fr sp fr' sp'}, P fr sp → Grown fr sp fr' sp' → P fr' sp')
    (hSet : ∀ {fr sp}, ∀ w ∈ ws, P fr sp → P fr (sp.setLeaf (w / pageSize) (Pte.window w)))
    (hStart : P fr sp) (hEnsure : ensureWindows fr sp ws = (fr', sp')) : P fr' sp' := by
  induction ws generalizing fr sp with
  | nil =>
    cases hEnsure
    exact hStart
  | cons w ws ih =>
  unfold ensureWindows ensureIdentityMmioPage at hEnsure
  generalize hMake : makeTables fr sp (tableKeys (w / pageSize)) = r at hEnsure
  obtain ⟨fr₁, sp₁, ok⟩ := r
  have hTables := hGrow hStart (makeTables_grown _ hMake)
  have hRest := fun {fr sp} w hIn => @hSet fr sp w (List.mem_cons_of_mem _ hIn)
  cases ok with
  | false => exact ih hRest hTables hEnsure
  | true => exact ih hRest (hSet w List.mem_cons_self hTables) hEnsure

end Building

----
-- Faults
----

/- All that a fault does with an entry. -/
inductive FaultCase (m : Machine) (b : Bounds) (fr : Frames) (e : Pte) (va : Nat) (isWrite : Bool) :
    Frames × Pte × Int → Prop where
  | refused {rc : Int} (hRc : rc ≠ 0) : FaultCase m b fr e va isWrite (fr, e, rc)
  | unread {f : Nat} {fr₁ : Frames} (hAlloc : allocUserPhysicalPage fr = some (f, fr₁)) :
      FaultCase m b fr e va isWrite (freeUserPhysicalPage m fr₁ f, e, -7)
  | uncopied {fr₁ : Frames} {refs : Int} (hDec : rustPageRefDec m fr e.addr = (fr₁, refs)) :
      FaultCase m b fr e va isWrite (retakeRef m fr₁ e.addr refs, e, -3)
  | backIn {f : Nat} {fr₁ : Frames} {v : SwapPage} (hIn : e.inSwap = true)
      (hAlloc : allocUserPhysicalPage fr = some (f, fr₁))
      (hSlot : fr.slot e.addr = some v) :
      FaultCase m b fr e va isWrite (swapLetGo (fr₁.setPage f v.page) e.addr, e.backIn f, 0)
  | fresh {f : Nat} {fr₁ : Frames} (hNotIn : e.inSwap = false) (hWhy :
        (isWrite = true ∧ e.cow = true ∧ e.addr = m.zero) ∨
          (e.present = false ∧ (isWrite = false ∨ e.cow = false) ∧ validatePageFault b va = true))
      (hAlloc : allocUserPhysicalPage fr = some (f, fr₁)) :
      FaultCase m b fr e va isWrite (fr₁.setPage f zeroPage,
          Pte.userPage f true (userPageIsNoexec va), 0)
  | zero (hNotIn : e.inSwap = false) (hAbsent : e.present = false) (hRead : isWrite = false)
      (hIn : validatePageFault b va = true)
      (hZero : m.zero ≠ 0) :
      FaultCase m b fr e va isWrite (fr,
          { Pte.userPage m.zero false (userPageIsNoexec va) with cow := true }, 0)
  | copied {f : Nat} {fr₁ fr₂ : Frames} {refs : Int} (hNotIn : e.inSwap = false)
      (hWrite : isWrite = true)
      (hCow : e.cow = true)
      (hNotZero : e.addr ≠ m.zero)
      (hNotSealed : e.sealed = false)
      (hDec : rustPageRefDec m fr e.addr = (fr₁, refs))
      (hShared : 0 < refs)
      (hAlloc : allocUserPhysicalPage fr₁ = some (f, fr₂)) :
      FaultCase m b fr e va isWrite (fr₂.setPage f (fr₂.mem e.addr), e.broken f va, 0)
  | inPlace {fr₁ : Frames} {refs : Int} (hNotIn : e.inSwap = false) (hWrite : isWrite = true)
      (hCow : e.cow = true)
      (hNotZero : e.addr ≠ m.zero)
      (hNotSealed : e.sealed = false)
      (hNotArena : m.arena e.addr = false)
      (hDec : rustPageRefDec m fr e.addr = (fr₁, refs))
      (hLast : refs ≤ 0) :
      FaultCase m b fr e va isWrite (retakeRef m fr₁ e.addr refs, e.broken e.addr va, 0)

section Faulting

variable {m : Machine} {b : Bounds} {fr : Frames} {e : Pte} {va : Nat} {isWrite : Bool}

theorem freshLeaf_cases (hNotIn : e.inSwap = false)
    (hWhy : (isWrite = true ∧ e.cow = true ∧ e.addr = m.zero) ∨
        (e.present = false ∧ (isWrite = false ∨ e.cow = false) ∧ validatePageFault b va = true)) :
    FaultCase m b fr e va isWrite (freshLeaf fr e va) := by
  unfold freshLeaf
  split
  · exact .refused (by decide)
  case h_2 f fr₁ hAlloc => exact .fresh hNotIn hWhy hAlloc

theorem swapFaultIn_cases (hIn : e.inSwap = true) (read : Bool) :
    FaultCase m b fr e va isWrite (swapFaultIn m fr e read) := by
  unfold swapFaultIn
  split
  · exact .refused (by decide)
  case h_2 f fr₁ hAlloc =>
    have hSame : fr₁.slot = fr.slot := by
      obtain ⟨rest, _, rfl⟩ := alloc_some hAlloc
      rfl
    split
    case h_1 v _ hSlot =>
      rw [hSame] at hSlot
      exact .backIn hIn hAlloc hSlot
    case h_2 => exact .unread hAlloc

theorem cowBreakPte_cases (hNotIn : e.inSwap = false)
    (hWrite : isWrite = true) (hCow : e.cow = true) (hNotZero : e.addr ≠ m.zero) :
    FaultCase m b fr e va isWrite (cowBreakPte m fr e va) := by
  unfold cowBreakPte
  split
  · exact .refused (by decide)
  case isFalse hNotSealed =>
    split
    · exact .refused (by decide)
    case isFalse hNotArena =>
      generalize hDec : rustPageRefDec m fr e.addr = r
      obtain ⟨fr₁, refs⟩ := r
      dsimp only
      have hSealed : e.sealed = false := by
        simpa using hNotSealed
      by_cases hMany : 0 < refs
      · have hCopy : cowCopyRequired true true ((if 0 < refs then refs else 0) + 1) = true := by
          simp only [cowCopyRequired, if_pos hMany, Bool.and_self, Bool.true_and, decide_eq_true_eq]
          omega
        rw [if_pos hCopy]
        split
        · exact .uncopied hDec
        case h_2 f fr₂ hAlloc => exact .copied hNotIn hWrite hCow hNotZero hSealed hDec hMany hAlloc
      · have hKeep : ¬ cowCopyRequired true true ((if 0 < refs then refs else 0) + 1) = true := by
          simp [cowCopyRequired, hMany]
        rw [if_neg hKeep]
        exact .inPlace hNotIn hWrite hCow hNotZero hSealed
          (by simpa using hNotArena) hDec (by omega)

theorem faultLeaf_cases (read : Bool) : FaultCase m b fr e va isWrite
      (faultLeaf m b fr e va isWrite read) := by
  unfold faultLeaf
  split
  case isTrue hIn => exact swapFaultIn_cases hIn read
  case isFalse hNot =>
    have hNotIn : e.inSwap = false := by simpa using hNot
    split
    case isTrue hCow =>
      split
      case isTrue hZero => exact freshLeaf_cases hNotIn (.inl ⟨hCow.1, hCow.2, hZero⟩)
      case isFalse hZero => exact cowBreakPte_cases hNotIn hCow.1 hCow.2 hZero
    case isFalse hNotCow =>
      split
      · exact .refused (by decide)
      split
      · exact .refused (by decide)
      case isFalse hAbsent =>
        split
        · exact .refused (by decide)
        case isFalse hValid =>
          have hOut : e.present = false := by
            simpa using hAbsent
          have hIn : validatePageFault b va = true := by
            simpa using hValid
          split
          case isTrue hZero => exact .zero hNotIn hOut (by simpa using hZero.1) hIn hZero.2
          case isFalse =>
            refine freshLeaf_cases hNotIn (.inr ⟨hOut, ?_, hIn⟩)
            cases hIs : isWrite with
            | false => exact .inl rfl
            | true => simpa [hIs] using hNotCow

/- The fault of an address space, seen at its entry. -/
theorem faultSpace_cases {read : Bool} {rc : Int}
    (hFault : faultSpace m b fr sp va isWrite read = (fr', sp', rc)) :
    (Grown fr sp fr' sp' ∧ rc ≠ 0) ∨ ∃ fr₁ sp₁ e, Grown fr sp fr₁ sp₁ ∧
        FaultCase m b fr₁ (sp.leaf (va / pageSize)) va isWrite (fr', e, rc) ∧
        sp' = sp₁.setLeaf (va / pageSize) e := by
  unfold faultSpace at hFault
  split at hFault
  · cases hFault
    exact .inl ⟨Grown.refl, by decide⟩
  split at hFault
  case h_1 fr₁ sp₁ hMake =>
    cases hFault
    exact .inl ⟨makeTables_grown _ hMake, by decide⟩
  case h_2 fr₁ sp₁ hMake =>
    have hGrown := makeTables_grown _ hMake
    generalize hLeaf : faultLeaf m b fr₁ (sp₁.leaf (va / pageSize)) va isWrite read = r at hFault
    obtain ⟨fr₂, e, rc'⟩ := r
    cases hFault
    have hCase : FaultCase m b fr₁ (sp₁.leaf (va / pageSize)) va isWrite (fr', e, rc) := by
      rw [← hLeaf]
      exact faultLeaf_cases read
    rw [hGrown.leaf] at hCase
    exact .inr ⟨fr₁, sp₁, e, hGrown, hCase, rfl⟩

end Faulting

----
-- Fork
----

/- All that a fork does with one page. -/
inductive ForkCase (m : Machine) (fr : Frames) (parent child : Space) (vp : Nat) : Frames × Space ×
    Space × Bool → Prop where
  | skipped (hNotIn : (parent.leaf vp).inSwap = false) (hWhy : (parent.leaf vp).present = false ∨
        (parent.leaf vp).user = false) :
      ForkCase m fr parent child vp (fr, parent, child, true)
  | refused {fr' : Frames} {child' : Space} (hGrown : Grown fr child fr' child') :
      ForkCase m fr parent child vp (fr', parent, child', false)
  | swapped {fr₁ : Frames} {child₁ : Space} (hIn : (parent.leaf vp).inSwap = true)
      (hGrown : Grown fr child fr₁ child₁) :
      ForkCase m fr parent child vp
        (swapShare (dropSwapped fr₁ (child.leaf vp)) (parent.leaf vp).addr,
          parent.setLeaf vp (parent.leaf vp).shared,
          child₁.setLeaf vp (parent.leaf vp).shared, true)
  | present {fr₁ : Frames} {child₁ : Space} (hNotIn : (parent.leaf vp).inSwap = false)
      (hPresent : (parent.leaf vp).present = true)
      (hUser : (parent.leaf vp).user = true)
      (hNotArena : m.arena (parent.leaf vp).addr = false)
      (hNotSealed : (parent.leaf vp).sealed = false)
      (hGrown : Grown fr child fr₁ child₁) :
      ForkCase m fr parent child vp (rustPageRefInc m (dropSwapped fr₁ (child.leaf vp))
            (parent.leaf vp).addr,
          parent.setLeaf vp (parent.leaf vp).shared,
          child₁.setLeaf vp (parent.leaf vp).shared, true)

theorem forkStep_cases (m : Machine) (fr : Frames) (parent child : Space)
    (vp : Nat) : ForkCase m fr parent child vp (forkStep m fr parent child vp) := by
  unfold forkStep
  split
  case isTrue hIn =>
    generalize hMap : userMapPage fr child vp (parent.leaf vp).shared = r
    obtain ⟨fr₁, child₁, done⟩ := r
    rcases userMapPage_cases hMap with ⟨rfl, hGrown⟩ | ⟨rfl, fr₂, child₂, hGrown, rfl, rfl⟩
    · exact .refused hGrown
    · exact .swapped hIn hGrown
  case isFalse hNot =>
    have hNotIn : (parent.leaf vp).inSwap = false := by
      simpa using hNot
    split
    case isTrue hWhy => exact .skipped hNotIn hWhy
    case isFalse hThere =>
      obtain ⟨hAbsent, hKernel⟩ := not_or.mp hThere
      split
      · exact .refused Grown.refl
      case isFalse hMay =>
        obtain ⟨hArena, hSealed⟩ := not_or.mp hMay
        generalize hMap : userMapPage fr child vp (parent.leaf vp).shared = r
        obtain ⟨fr₁, child₁, done⟩ := r
        rcases userMapPage_cases hMap with ⟨rfl, hGrown⟩ | ⟨rfl, fr₂, child₂, hGrown, rfl, rfl⟩
        · exact .refused hGrown
        · exact .present hNotIn (by simpa using hAbsent)
            (by simpa using hKernel) (by simpa using hArena)
            (by simpa using hSealed) hGrown

section Forked

variable {m : Machine} {fr fr' : Frames}
    {parent child parent' child' : Space} {vp vp' : Nat} {ok : Bool}

theorem ForkCase.leaf_other (hCase : ForkCase m fr parent child vp (fr', parent', child', ok))
    (hNe : vp' ≠ vp) : parent'.leaf vp' = parent.leaf vp' ∧ child'.leaf vp' = child.leaf vp' := by
  cases hCase with
  | skipped => exact ⟨rfl, rfl⟩
  | refused hGrown => exact ⟨rfl, hGrown.leaf vp'⟩
  | swapped _ hGrown | present _ _ _ _ _ hGrown =>
    exact ⟨leaf_setLeaf_other _ _ hNe, (leaf_setLeaf_other _ _ hNe).trans (hGrown.leaf vp')⟩

/- A page that parent and child share after a fork. -/
def Pte.Shares (m : Machine) (e : Pte) : Prop :=
  e.inSwap = true ∨ (e.present = true ∧ e.user = true ∧ m.arena e.addr = false ∧ e.sealed = false)

/- A page that only the parent has after a fork. -/
def Pte.Skipped (e : Pte) : Prop := e.inSwap = false ∧ (e.present = false ∨ e.user = false)

theorem ForkCase.parent_here (hCase : ForkCase m fr parent child vp (fr', parent', child', ok)) :
    parent'.leaf vp = parent.leaf vp ∨ ((parent.leaf vp).Shares m ∧
        parent'.leaf vp = (parent.leaf vp).shared) := by
  cases hCase with
  | skipped | refused => exact .inl rfl
  | swapped hIn => exact .inr ⟨.inl hIn, leaf_setLeaf_self _ _ _⟩
  | present _ hPresent hUser hArena hSealed =>
    exact .inr ⟨.inr ⟨hPresent, hUser, hArena, hSealed⟩, leaf_setLeaf_self _ _ _⟩

/- When the page is done: shared, or left as it was. -/
theorem ForkCase.done (hCase : ForkCase m fr parent child vp (fr', parent', child', true)) :
    ((parent.leaf vp).Shares m ∧ parent'.leaf vp = (parent.leaf vp).shared ∧
        child'.leaf vp = (parent.leaf vp).shared) ∨
      ((parent.leaf vp).Skipped ∧ parent'.leaf vp = parent.leaf vp ∧
        child'.leaf vp = child.leaf vp) := by
  cases hCase with
  | skipped hNotIn hWhy => exact .inr ⟨⟨hNotIn, hWhy⟩, rfl, rfl⟩
  | swapped hIn => exact .inl ⟨.inl hIn, leaf_setLeaf_self _ _ _, leaf_setLeaf_self _ _ _⟩
  | present _ hPresent hUser hArena hSealed =>
    exact .inl ⟨.inr ⟨hPresent, hUser, hArena, hSealed⟩,
        leaf_setLeaf_self _ _ _, leaf_setLeaf_self _ _ _⟩

variable {vps : List Nat}

/- The first page of a fork, at which it may be given up. -/
theorem forkLoop_cons {v : Nat}
    (hLoop : forkLoop m fr parent child (v :: vps) = (fr', parent', child', ok)) :
    (ok = false ∧ ForkCase m fr parent child v (fr', parent', child', false)) ∨
      ∃ fr₁ parent₁ child₁, ForkCase m fr parent child v (fr₁, parent₁, child₁, true) ∧
        forkLoop m fr₁ parent₁ child₁ vps = (fr', parent', child', ok) := by
  unfold forkLoop at hLoop
  have hCase := forkStep_cases m fr parent child v
  generalize forkStep m fr parent child v = r at hLoop hCase
  obtain ⟨fr₁, parent₁, child₁, done⟩ := r
  cases done with
  | false =>
    cases hLoop
    exact .inl ⟨rfl, hCase⟩
  | true => exact .inr ⟨fr₁, parent₁, child₁, hCase, hLoop⟩

/- Pages that are not gone through stay. -/
theorem forkLoop_rest (hNot : vp ∉ vps)
    (hLoop : forkLoop m fr parent child vps = (fr', parent', child', ok)) :
    parent'.leaf vp = parent.leaf vp ∧ child'.leaf vp = child.leaf vp := by
  induction vps generalizing fr parent child with
  | nil =>
    cases hLoop
    exact ⟨rfl, rfl⟩
  | cons v _ ih =>
  rw [List.mem_cons, not_or] at hNot
  rcases forkLoop_cons hLoop with ⟨_, hCase⟩ | ⟨_, _, _, hCase, hLater⟩
  · exact hCase.leaf_other hNot.1
  · obtain ⟨hParent, hChild⟩ := hCase.leaf_other hNot.1
    rw [← hParent, ← hChild]
    exact ih hNot.2 hLater

/- However far a fork came, the parent has this of a page. -/
theorem forkLoop_parent (hNodup : vps.Nodup)
    (hLoop : forkLoop m fr parent child vps = (fr', parent', child', ok))
    (vp : Nat) : parent'.leaf vp = parent.leaf vp ∨ ((parent.leaf vp).Shares m ∧
        parent'.leaf vp = (parent.leaf vp).shared) := by
  induction vps generalizing fr parent child with
  | nil =>
    cases hLoop
    exact .inl rfl
  | cons v _ ih =>
  obtain ⟨hNot, hRest⟩ := List.nodup_cons.mp hNodup
  rcases forkLoop_cons hLoop with ⟨_, hCase⟩ | ⟨_, _, _, hCase, hLater⟩
  all_goals by_cases hSame : vp = v
  · subst hSame
    exact hCase.parent_here
  · exact .inl (hCase.leaf_other hSame).1
  · subst hSame
    rw [(forkLoop_rest hNot hLater).1]
    exact hCase.parent_here
  · rw [← (hCase.leaf_other hSame).1]
    exact ih hRest hLater

/- A fork that went through every page. -/
theorem forkLoop_done (hNodup : vps.Nodup)
    (hLoop : forkLoop m fr parent child vps = (fr', parent', child', true)) (hIn : vp ∈ vps) :
    ((parent.leaf vp).Shares m ∧ parent'.leaf vp = (parent.leaf vp).shared ∧
        child'.leaf vp = (parent.leaf vp).shared) ∨
      ((parent.leaf vp).Skipped ∧ parent'.leaf vp = parent.leaf vp ∧
        child'.leaf vp = child.leaf vp) := by
  induction vps generalizing fr parent child with
  | nil => cases hIn
  | cons v vps ih =>
  obtain ⟨hNot, hRest⟩ := List.nodup_cons.mp hNodup
  rcases forkLoop_cons hLoop with ⟨hFailed, _⟩ | ⟨_, _, _, hCase, hLater⟩
  · cases hFailed
  rcases eq_or_ne vp v with rfl | hSame
  · obtain ⟨hParent, hChild⟩ := forkLoop_rest hNot hLater
    rw [hParent, hChild]
    exact hCase.done
  · obtain ⟨hParent, hChild⟩ := hCase.leaf_other hSame
    rw [← hParent, ← hChild]
    exact ih hRest hLater ((List.mem_cons.mp hIn).resolve_left hSame)

end Forked

/- A page is as it was, or a register page of the kernel. -/
theorem ensureWindows_leaf (ws : List Nat)
    (hEnsure : ensureWindows fr sp ws = (fr', sp')) (vp : Nat) :
    sp'.leaf vp = sp.leaf vp ∨ ∃ w ∈ ws, vp = w / pageSize ∧ sp'.leaf vp = Pte.window w := by
  refine ensureWindows_induction (P := fun _ sp' => sp'.leaf vp = sp.leaf vp ∨
      ∃ w ∈ ws, vp = w / pageSize ∧ sp'.leaf vp = Pte.window w) ?_ ?_ (.inl rfl) hEnsure
  · intro _ _ _ _ hBefore hGrown
    rwa [hGrown.leaf]
  · intro _ _ w hIn hBefore
    by_cases hHere : vp = w / pageSize
    · subst hHere
      exact .inr ⟨w, hIn, rfl, leaf_setLeaf_self _ _ _⟩
    · rwa [leaf_setLeaf_other _ _ hHere]

section Both

variable {s : Pg} {fr : Frames} {child parent : Nat} {csp psp : Space}

theorem forked_child : (s.forked fr child parent csp psp).space child = some csp :=
  update_self _ _ _

theorem forked_parent (hNe : child ≠ parent) :
    (s.forked fr child parent csp psp).space parent = some psp :=
  (update_of_ne hNe.symm _ _).trans (update_self _ _ _)

end Both

end Horus.Paging
