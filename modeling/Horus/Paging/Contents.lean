import Horus.Paging.Once

/-
  What the pages hold.

  The content of an entry is that of its frame, or of its slot
  in the swap store. The operations on one address space leave
  the contents of all other entries as they are: they write
  only to frames that no entry names, and let go of a slot only
  for the entry that had it.
-/

namespace Horus.Paging

open Function
open Lib

variable {k : Nat} {b : Bounds} {ok nx : Bool}

def slotPage (fr : Frames) (n : Nat) : Page :=
  match fr.slot n with
  | none => zeroPage
  | some v => v.page

def Frames.content (fr : Frames) (e : Pte) : Page :=
  if e.present then fr.mem e.addr
  else if e.swapped then slotPage fr e.addr
  else zeroPage

/- Neither a page of an object nor one of a device. -/
def Pte.Private (m : Machine) (e : Pte) : Prop :=
  e.present = true → m.inPool e.addr ∧ m.arena e.addr = false

/- The entries hold the same as before. -/
def SameFor (fr fr' : Frames) (es : List Pte) : Prop := ∀ e ∈ es, fr'.content e = fr.content e

section Basic

variable {fr fr' fr'' : Frames} {es es' : List Pte} {e : Pte} {f n : Nat}

theorem content_present (hPresent : e.present = true) : fr.content e = fr.mem e.addr := by
  rw [Frames.content, if_pos hPresent]

theorem content_inSwap (hIn : e.inSwap = true) : fr.content e = slotPage fr e.addr := by
  simp only [Pte.inSwap, Bool.and_eq_true, Bool.not_eq_true'] at hIn
  rw [Frames.content, hIn.1, hIn.2, if_neg Bool.false_ne_true, if_pos rfl]

theorem content_absent (hAbsent : e.present = false)
    (hNotIn : e.inSwap = false) : fr.content e = zeroPage := by
  have hNot : e.swapped = false := by
    simpa [Pte.inSwap, hAbsent] using hNotIn
  rw [Frames.content, hAbsent, hNot, if_neg Bool.false_ne_true, if_neg Bool.false_ne_true]

@[simp] theorem content_empty (fr : Frames) : fr.content Pte.empty = zeroPage :=
  content_absent rfl rfl

/- The memory and the slots are the same, and only they matter. -/
def SameStore (fr fr' : Frames) : Prop := fr'.mem = fr.mem ∧ fr'.slot = fr.slot

theorem SameStore.trans (hStore : SameStore fr fr') (hStore' : SameStore fr' fr'') :
    SameStore fr fr'' :=
  ⟨hStore'.1.trans hStore.1, hStore'.2.trans hStore.2⟩

theorem SameStore.content (hStore : SameStore fr fr') (e : Pte) : fr'.content e = fr.content e := by
  rw [Frames.content, Frames.content, slotPage, slotPage, hStore.1, hStore.2]

theorem SameFor.refl (fr : Frames) (es : List Pte) : SameFor fr fr es := fun _ _ => rfl

theorem SameFor.trans (hSame : SameFor fr fr' es)
    (hSame' : SameFor fr' fr'' es) : SameFor fr fr'' es :=
  fun e hMem => (hSame' e hMem).trans (hSame e hMem)

theorem SameStore.sameFor (hStore : SameStore fr fr') : SameFor fr fr' es :=
  fun e _ => hStore.content e

theorem SameFor.tail (hSame : SameFor fr fr' (e :: es)) : SameFor fr fr' es :=
  fun x hMem => hSame x (List.mem_cons_of_mem _ hMem)

theorem SameFor.right (hSame : SameFor fr fr' (es' ++ es)) : SameFor fr fr' es :=
  fun x hMem => hSame x (List.mem_append_right _ hMem)

theorem content_setPage {page : Page} (hPresent : e.present = true)
    (hAddr : e.addr = f) : (fr.setPage f page).content e = page := by
  rw [content_present hPresent, hAddr]
  exact update_self _ _ _

/- A frame that no entry names is written to. -/
theorem SameFor.setPage (hNone : naming es f = 0) (page : Page) :
    SameFor fr (fr.setPage f page) es := by
  intro e hMem
  by_cases hPresent : e.present = true
  · rw [content_present hPresent, content_present hPresent]
    have hNe : e.addr ≠ f := by
      intro hEq
      have hPos := naming_pos_of_mem hMem hPresent
      rw [hEq] at hPos
      omega
    exact update_of_ne hNe _ _
  · simp only [Frames.content, if_neg hPresent]
    rfl

theorem slotPage_setSlot_other {v : Option SwapPage}
    (hNe : k ≠ n) : slotPage (fr.setSlot n v) k = slotPage fr k := by
  simp [slotPage, Frames.setSlot, update_of_ne hNe]

/- Only the slots change, and none that an entry has. -/
theorem SameFor.slots (hMem : fr'.mem = fr.mem)
    (hSlots : ∀ e ∈ es, e.inSwap = true → slotPage fr' e.addr = slotPage fr e.addr) :
    SameFor fr fr' es := by
  intro e hIn
  by_cases hPresent : e.present = true
  · rw [content_present hPresent, content_present hPresent, hMem]
  by_cases hSwap : e.inSwap = true
  · rw [content_inSwap hSwap, content_inSwap hSwap]
    exact hSlots e hIn hSwap
  · rw [Bool.not_eq_true] at hPresent hSwap
    rw [content_absent hPresent hSwap, content_absent hPresent hSwap]

theorem swapLetGo_mem (fr : Frames) (n : Nat) : (swapLetGo fr n).mem = fr.mem := by
  unfold swapLetGo
  split
  · rfl
  · split <;> rfl

/- A slot that is counted twice keeps its page. -/
theorem slotPage_swapLetGo (hMany : 1 < slotRefs fr n) :
    slotPage (swapLetGo fr n) n = slotPage fr n := by
  unfold swapLetGo
  split
  · rfl
  case h_2 v hSome =>
    have hRefs : slotRefs fr n = v.refs := by
      simp [slotRefs, hSome]
    rw [if_pos (hRefs ▸ hMany)]
    simp [slotPage, Frames.setSlot, hSome]

theorem slotPage_swapLetGo_other (hNe : k ≠ n) : slotPage (swapLetGo fr n) k = slotPage fr k := by
  unfold swapLetGo
  split
  · rfl
  · split
    · exact slotPage_setSlot_other hNe
    · exact slotPage_setSlot_other hNe

theorem SameFor.letGo (hSlots : Slots fr (e :: es))
    (hIn : e.inSwap = true) : SameFor fr (swapLetGo fr e.addr) es := by
  refine SameFor.slots (swapLetGo_mem fr e.addr) ?_
  intro x hMem hSwap
  by_cases hSame : x.addr = e.addr
  · rw [hSame]
    refine slotPage_swapLetGo ?_
    have hLe := hSlots e.addr
    have hPos := swapping_pos_of_mem hMem hSwap
    rw [hSame] at hPos
    rw [swapping_cons, if_pos ⟨hIn, rfl⟩] at hLe
    omega
  · exact slotPage_swapLetGo_other hSame

theorem SameFor.overwrite (hSlots : Slots fr (e :: es)) : SameFor fr (dropSwapped fr e) es := by
  unfold dropSwapped
  split
  case isTrue hIn => exact SameFor.letGo hSlots hIn
  case isFalse => exact SameFor.refl _ _

theorem dropSwapped_mem (fr : Frames) (e : Pte) : (dropSwapped fr e).mem = fr.mem := by
  unfold dropSwapped
  split
  · exact swapLetGo_mem fr e.addr
  · rfl

theorem SameFor.store (hSlots : Slots fr es) (hFree : fr.slot n = none)
    (page : Page) : SameFor fr (swapStore fr n page) es := by
  refine SameFor.slots rfl ?_
  intro x hMem hSwap
  refine slotPage_setSlot_other ?_
  intro hSame
  have hLe := hSlots x.addr
  have hPos := swapping_pos_of_mem hMem hSwap
  have hNone : slotRefs fr n = 0 := by
    simp [slotRefs, hFree]
  rw [hSame] at hLe hPos
  omega

/- Another reference to a slot changes no page. -/
theorem content_swapShare (fr : Frames) (n : Nat) (e : Pte) :
    (swapShare fr n).content e = fr.content e := by
  unfold swapShare
  split
  · rfl
  case h_2 v hSome =>
    have hPage : ∀ k, slotPage (fr.setSlot n (some ⟨v.page, v.refs + 1⟩)) k = slotPage fr k := by
      intro k
      rcases eq_or_ne k n with rfl | hSame
      · simp [slotPage, Frames.setSlot, hSome]
      · exact slotPage_setSlot_other hSame
    simp only [Frames.content, hPage]
    rfl

theorem rustPageRefDec_store (m : Machine) (fr : Frames) (phys : Nat) :
    SameStore fr (rustPageRefDec m fr phys).1 := by
  unfold rustPageRefDec
  split
  · exact ⟨rfl, rfl⟩
  · split <;> exact ⟨rfl, rfl⟩

theorem pageRefInc_store (m : Machine) (fr : Frames) (phys : Nat) :
    SameStore fr (pageRefInc m fr phys) := by
  unfold pageRefInc
  split <;> exact ⟨rfl, rfl⟩

theorem pageRefDec_store (m : Machine) (fr : Frames) (phys : Nat) :
    SameStore fr (pageRefDec m fr phys) := by
  unfold pageRefDec
  split <;> exact ⟨rfl, rfl⟩

theorem freeUserPhysicalPage_store (m : Machine) (fr : Frames) (f : Nat) :
    SameStore fr (freeUserPhysicalPage m fr f) := by
  unfold freeUserPhysicalPage
  split
  · exact ⟨rfl, rfl⟩
  · split <;> exact ⟨rfl, rfl⟩

theorem userLeafRelease_store (m : Machine) (fr : Frames) (phys : Nat) :
    SameStore fr (userLeafRelease m fr phys) := by
  have hDec := rustPageRefDec_store m fr phys
  unfold userLeafRelease
  generalize rustPageRefDec m fr phys = r at hDec
  obtain ⟨fr', refs⟩ := r
  dsimp only at hDec ⊢
  split
  · exact hDec.trans (freeUserPhysicalPage_store m fr' phys)
  · exact hDec

theorem alloc_store (hAlloc : allocUserPhysicalPage fr = some (f, fr')) : SameStore fr fr' := by
  obtain ⟨rest, _, rfl⟩ := alloc_some hAlloc
  exact ⟨rfl, rfl⟩

end Basic

section Faults

variable {m : Machine} {b : Bounds} {fr fr' : Frames} {e e' : Pte}
    {rest : List Pte} {ts : List Nat} {va : Nat} {isWrite : Bool} {rc : Int}

/- The other entries hold the same after a fault. -/
theorem FaultCase.same (hGood : Good m fr (e :: rest) ts)
    (hCase : FaultCase m b fr e va isWrite (fr', e', rc)) : SameFor fr fr' rest := by
  cases hCase with
  | refused | zero => exact SameFor.refl _ _
  | @unread f fr₁ hAlloc =>
    exact ((alloc_store hAlloc).trans (freeUserPhysicalPage_store m fr₁ f)).sameFor
  | uncopied hDec | inPlace _ _ _ _ _ _ hDec =>
    rw [retakeRef_same hGood.small hDec]
    exact SameFor.refl _ _
  | @backIn f fr₁ v hIn hAlloc =>
    have hHand := (hGood.alloc hAlloc).setHand v.page
    have hNone := ((hGood.alloc hAlloc).table f List.mem_cons_self).unnamed
    have hFilled : SameFor fr₁ (fr₁.setPage f v.page) _ := SameFor.setPage hNone v.page
    have hGone := SameFor.letGo hHand.slots hIn
    exact ((alloc_store hAlloc).sameFor.trans hFilled.tail).trans hGone
  | @fresh f fr₁ _ _ hAlloc =>
    have hNone := ((hGood.alloc hAlloc).table f List.mem_cons_self).unnamed
    exact (alloc_store hAlloc).sameFor.trans (SameFor.setPage hNone zeroPage).tail
  | @copied f fr₁ fr₂ refs hNotIn _ hCow _ _ hDec _ hAlloc =>
    have hPresent := (hGood.ok e List.mem_cons_self).present hNotIn hCow
    have hGone := hGood.dec hPresent
    have hDecStore := rustPageRefDec_store m fr e.addr
    rw [hDec] at hGone hDecStore
    have hNone := ((hGone.alloc hAlloc).table f List.mem_cons_self).unnamed
    exact (hDecStore.trans (alloc_store hAlloc)).sameFor.trans (SameFor.setPage hNone _)

/- And the page that faulted. -/
theorem FaultCase.content (hGood : Good m fr (e :: rest) ts) (hPrivate : e.Private m)
    (hCase : FaultCase m b fr e va isWrite (fr', e', rc)) : fr'.content e' = fr.content e := by
  have hOk := hGood.ok e List.mem_cons_self
  cases hCase with
  | refused => rfl
  | @unread f fr₁ hAlloc =>
    exact ((alloc_store hAlloc).trans (freeUserPhysicalPage_store m fr₁ f)).content e
  | uncopied hDec => rw [retakeRef_same hGood.small hDec]
  | backIn hIn _ hSlot =>
    rw [content_inSwap hIn, content_present rfl, slotPage, hSlot, swapLetGo_mem]
    exact update_self _ _ _
  | @fresh f fr₁ hNotIn hWhy =>
    have hNew : (fr₁.setPage f zeroPage).content (Pte.userPage f true (userPageIsNoexec va)) =
          zeroPage :=
      content_setPage rfl rfl
    rw [hNew]
    rcases hWhy with ⟨_, hCow, hZero⟩ | ⟨hAbsent, _, _⟩
    · have hPresent := hOk.present hNotIn hCow
      have hBase := (hPrivate hPresent).1.1
      have hNe : m.zero ≠ 0 := by
        simp only [userPhysBase] at hBase
        omega
      rw [content_present hPresent, hZero, hGood.blank hNe]
    · rw [content_absent hAbsent hNotIn]
  | zero hNotIn hAbsent _ _ hZero =>
    rw [content_absent hAbsent hNotIn]
    exact hGood.blank hZero
  | @copied f fr₁ fr₂ refs hNotIn _ hCow _ _ hDec _ hAlloc =>
    have hDecStore := rustPageRefDec_store m fr e.addr
    rw [hDec] at hDecStore
    have hNew : (fr₂.setPage f (fr₂.mem e.addr)).content (e.broken f va) = fr₂.mem e.addr :=
      content_setPage rfl rfl
    rw [hNew, content_present (hOk.present hNotIn hCow), (alloc_store hAlloc).1, hDecStore.1]
  | inPlace hNotIn _ hCow _ _ _ hDec =>
    rw [retakeRef_same hGood.small hDec, content_present (hOk.present hNotIn hCow)]
    rfl

end Faults

----
-- One Address Space
----

variable {rest : List Pte}

section Spaces

variable {m : Machine} {fr fr' : Frames} {sp sp' : Space} {es : List Pte} {ts : List Nat} {vp : Nat}

section

variable (hOpen : ∀ e, (e :: rest).Perm ((sp.setLeaf vp e).entries ++ es))

include hOpen

/- Another entry stays when one is taken out. -/
theorem leaf_mem_of_open
    {vp' : Nat} (hNe : vp' ≠ vp) : sp.leaf vp' = Pte.empty ∨ sp.leaf vp' ∈ rest := by
  have hOther := leaf_setLeaf_other sp Pte.empty hNe
  cases hGet : (sp.setLeaf vp Pte.empty).leaves.get vp' with
  | none =>
    left
    rw [← hOther, Space.leaf, hGet]
    rfl
  | some e =>
  have hLeaf : sp.leaf vp' = e := by
    rw [← hOther, Space.leaf, hGet]
    rfl
  have hIn : e ∈ (sp.setLeaf vp Pte.empty).entries ++ es :=
    List.mem_append_left _ (Table.mem_values_of_get hGet)
  rw [hLeaf]
  rcases List.mem_cons.mp ((hOpen Pte.empty).mem_iff.mpr hIn) with hEmpty | hRest
  · exact .inl hEmpty
  · exact .inr hRest

theorem mem_rest_of_others {x : Pte} (hIn : x ∈ es) : x = Pte.empty ∨ x ∈ rest := by
  have hAll : x ∈ (sp.setLeaf vp Pte.empty).entries ++ es := List.mem_append_right _ hIn
  exact List.mem_cons.mp ((hOpen Pte.empty).mem_iff.mpr hAll)

/-
  What is the same for the rest is the same for the others and
  for the other pages.
-/
theorem SameFor.of_rest (hSame : SameFor fr fr' rest) : SameFor fr fr' es ∧ ∀ vp', vp' ≠ vp →
        fr'.content (sp.leaf vp') = fr.content (sp.leaf vp') := by
  constructor
  · intro x hIn
    rcases mem_rest_of_others hOpen hIn with rfl | hRest
    · rw [content_empty, content_empty]
    · exact hSame x hRest
  · intro vp' hNe
    rcases leaf_mem_of_open hOpen hNe with hEmpty | hRest
    · rw [hEmpty, content_empty, content_empty]
    · exact hSame _ hRest

end

theorem Grown.content (hGrown : Grown fr sp fr' sp') (e : Pte) : fr'.content e = fr.content e :=
  SameStore.content ⟨hGrown.same.1, hGrown.same.2.1⟩ e

theorem GoodAt.same_faultSpace {va : Nat} {isWrite read : Bool} {rc : Int}
    (hGood : GoodAt m fr sp es ts)
    (hFault : Paging.faultSpace m b fr sp va isWrite read = (fr', sp', rc)) :
    SameFor fr fr' es ∧ ∀ vp, (sp.leaf vp).Private m →
        fr'.content (sp'.leaf vp) = fr.content (sp.leaf vp) := by
  rcases faultSpace_cases hFault with ⟨hGrown, _⟩ | ⟨fr₁, sp₁, e, hGrown, hCase, rfl⟩
  · refine ⟨fun x _ => hGrown.content x, fun vp _ => ?_⟩
    rw [hGrown.leaf, hGrown.content]
  have hGood₁ := hGood.grown hGrown
  obtain ⟨rest, hOld, hOpen⟩ := hGood₁.opened (va / pageSize)
  rw [hGrown.leaf] at hOld
  obtain ⟨hOthers, hPages⟩ := SameFor.of_rest hOpen (hCase.same hOld)
  constructor
  · intro x hIn
    rw [hOthers x hIn, hGrown.content]
  intro vp hPrivate
  by_cases hSame : vp = va / pageSize
  · subst hSame
    rw [leaf_setLeaf_self, hCase.content hOld hPrivate, hGrown.content]
  · rw [leaf_setLeaf_other _ _ hSame, hPages vp hSame, hGrown.content, hGrown.leaf]

theorem GoodAt.same_evictLeaf {n : Nat} (hGood : GoodAt m fr sp es ts)
    (hEvict : Paging.evictLeaf m b fr sp vp n = (fr', sp')) :
    SameFor fr fr' es ∧ ∀ vp', fr'.content (sp'.leaf vp') = fr.content (sp.leaf vp') := by
  unfold Paging.evictLeaf at hEvict
  split at hEvict
  case isFalse =>
    cases hEvict
    exact ⟨SameFor.refl _ _, fun _ => rfl⟩
  case isTrue hOut =>
    cases hEvict
    have hFree : fr.slot n = none := by
      simpa using hOut.2.2
    obtain ⟨rest, hOld, hOpen⟩ := hGood.opened vp
    have hStore := userLeafRelease_store m (swapStore fr n (fr.mem (sp.leaf vp).addr))
      (sp.leaf vp).addr
    have hStored : SameFor fr (swapStore fr n (fr.mem (sp.leaf vp).addr)) rest :=
      SameFor.store hOld.slots.tail hFree _
    obtain ⟨hOthers, hPages⟩ := SameFor.of_rest hOpen (hStored.trans hStore.sameFor)
    refine ⟨hOthers, ?_⟩
    intro vp'
    rcases eq_or_ne vp' vp with rfl | hSame
    · rw [leaf_setLeaf_self, content_inSwap rfl, content_present hOut.1.1, slotPage, hStore.2]
      simp [swapStore, Frames.setSlot, Pte.goneOut]
    · rw [leaf_setLeaf_other _ _ hSame]
      exact hPages vp' hSame

/- An address space whose pages all hold zeros. -/
def Blank (fr : Frames) (sp : Space) : Prop := ∀ vp, fr.content (sp.leaf vp) = zeroPage

theorem leaf_mem_entries (sp : Space) (vp : Nat) :
    sp.leaf vp = Pte.empty ∨ sp.leaf vp ∈ sp.entries := by
  cases hGet : sp.leaves.get vp with
  | none =>
    left
    rw [Space.leaf, hGet]
    rfl
  | some =>
    right
    rw [Space.leaf, hGet]
    exact Table.mem_values_of_get hGet

/- A page of the pool is mapped and holds zeros. -/
theorem GoodAt.same_freshCase (hGood : GoodAt m fr sp es ts)
    (hCase : FreshCase m fr sp vp nx (fr', sp', ok)) :
    SameFor fr fr' es ∧ (Blank fr sp → Blank fr' sp') := by
  have hFilled : ∀ {f fr₁}, allocUserPhysicalPage fr = some (f, fr₁) →
      ∀ x, x = Pte.empty ∨ x ∈ sp.entries ++ es →
        (fr₁.setPage f zeroPage).content x = fr.content x := by
    rintro f fr₁ hAlloc x (rfl | hIn)
    · rw [content_empty, content_empty]
    · rw [SameFor.setPage (Good.free_unnamed hGood (alloc_mem hAlloc)).1 zeroPage x hIn]
      exact (alloc_store hAlloc).content x
  have hPage : ∀ vp', sp.leaf vp' = Pte.empty ∨ sp.leaf vp' ∈ sp.entries ++ es := fun vp' =>
    (leaf_mem_entries sp vp').imp_right (List.mem_append_left _)
  cases hCase with
  | refused => exact ⟨SameFor.refl _ _, id⟩
  | @unmapped f _ fr₂ _ hAlloc hGrown =>
    have hAll : ∀ x, x = Pte.empty ∨ x ∈ sp.entries ++ es →
        (freeUserPhysicalPage m fr₂ f).content x = fr.content x := by
      intro x hIn
      rw [(freeUserPhysicalPage_store m fr₂ f).content, hGrown.content, hFilled hAlloc x hIn]
    refine ⟨fun x hIn => hAll x (.inr (List.mem_append_right _ hIn)), fun hBlank vp' => ?_⟩
    rw [hGrown.leaf, hAll _ (hPage vp')]
    exact hBlank vp'
  | mapped hAlloc hGrown =>
    obtain ⟨rest, hOld, hOpen⟩ := (((hGood.alloc hAlloc).setHand zeroPage).grown hGrown).opened vp
    rw [hGrown.leaf] at hOld
    obtain ⟨hOthers, hPages⟩ := SameFor.of_rest hOpen (SameFor.overwrite hOld.slots)
    constructor
    · intro x hIn
      rw [hOthers x hIn, hGrown.content]
      exact hFilled hAlloc x (.inr (List.mem_append_right _ hIn))
    intro hBlank vp'
    rcases eq_or_ne vp' vp with rfl | hSame
    · rw [leaf_setLeaf_self, content_present rfl, dropSwapped_mem, hGrown.same.1]
      exact update_self _ _ _
    · rw [leaf_setLeaf_other _ _ hSame, hPages vp' hSame, hGrown.content, hGrown.leaf,
        hFilled hAlloc _ (hPage vp')]
      exact hBlank vp'

theorem GoodAt.same_buildSpace {image : List Nat}
    (hGood : GoodAt m fr sp es ts) (hBlank : Blank fr sp)
    (hBuild : Paging.buildSpace m fr sp image = (fr', sp', ok)) :
    SameFor fr fr' es ∧ Blank fr' sp' := by
  refine (buildSpace_induction
    (P := fun fr' sp' => GoodAt m fr' sp' es ts ∧ SameFor fr fr' es ∧ Blank fr' sp')
    ?_ ⟨hGood, SameFor.refl _ _, hBlank⟩ hBuild).2
  rintro _ _ _ _ _ _ _ ⟨hGood₁, hSame, hBlank₁⟩ hCase
  obtain ⟨hStep, hZero⟩ := hGood₁.same_freshCase hCase
  exact ⟨hGood₁.freshCase hCase, hSame.trans hStep, hZero hBlank₁⟩

/- The register pages of the kernel hold nothing of a task. -/
theorem ensureWindows_content (ws : List Nat)
    (hEnsure : ensureWindows fr sp ws = (fr', sp')) (e : Pte) : fr'.content e = fr.content e :=
  ensureWindows_induction (P := fun fr' _ => fr'.content e = fr.content e)
    (fun hBefore hGrown => (hGrown.content e).trans hBefore) (fun _ _ hBefore => hBefore)
    rfl hEnsure

theorem content_shared (fr : Frames) (e : Pte) : fr.content e.shared = fr.content e := by
  rw [shared_eq]
  rfl

/- A fork into an empty address space changes no page. -/
theorem forkLoop_content {parent child parent' child' : Space} {vps : List Nat}
    (hNodup : vps.Nodup) (hEmpty : ∀ vp ∈ vps, child.leaf vp = Pte.empty)
    (hLoop : forkLoop m fr parent child vps = (fr', parent', child', ok))
    (e : Pte) : fr'.content e = fr.content e := by
  induction vps generalizing fr parent child with
  | nil =>
    cases hLoop
    rfl
  | cons vp _ ih =>
  obtain ⟨hNot, hRest⟩ := List.nodup_cons.mp hNodup
  obtain ⟨hHere, hLater⟩ := List.forall_mem_cons.mp hEmpty
  have hDrop : ∀ fr : Frames, dropSwapped fr (child.leaf vp) = fr := by
    intro fr
    rw [hHere]
    exact dropSwapped_of_not_in rfl
  have hOne : ∀ {fr₁ parent₁ child₁ done},
      ForkCase m fr parent child vp (fr₁, parent₁, child₁, done) →
        fr₁.content e = fr.content e := by
    intro fr₁ parent₁ child₁ done hCase
    cases hCase with
    | skipped => rfl
    | refused hGrown => exact hGrown.content e
    | swapped _ hGrown => rw [content_swapShare, hDrop, hGrown.content]
    | @present fr₂ _ _ _ _ _ _ hGrown =>
      rw [hDrop, ← hGrown.content, rustPageRefInc]
      split <;> rfl
  rcases forkLoop_cons hLoop with ⟨_, hCase⟩ | ⟨_, _, _, hCase, hAfter⟩
  · exact hOne hCase
  rw [ih hRest ?_ hAfter, hOne hCase]
  intro vp' hIn
  rw [(hCase.leaf_other fun hEq => hNot (hEq ▸ hIn)).2]
  exact hLater vp' hIn

/- The entries that stay hold the same after a teardown. -/
theorem SameFor.releaseAll (hs : List Held)
    (hGood : Good m fr (heldPages hs ++ es) (heldTables hs ++ ts)) :
    SameFor fr (hs.foldl (releaseHeld m) fr) es := by
  induction hs generalizing fr with
  | nil => exact SameFor.refl _ _
  | cons h hs ih =>
  rw [List.foldl_cons]
  cases h with
  | page e =>
    have hFirst : Good m fr (e :: (heldPages hs ++ es)) (heldTables hs ++ ts) := hGood
    unfold releaseHeld
    dsimp only
    split
    case isTrue hIn =>
      have hGone := SameFor.letGo hFirst.slots hIn
      exact hGone.right.trans (ih (hFirst.leaveSwap hIn))
    · split
      case isTrue hPresent =>
        exact (userLeafRelease_store m fr e.addr).sameFor.trans (ih (hFirst.release hPresent))
      · exact ih hFirst.dropEntry
  | table f =>
    have hFirst : Good m fr (heldPages hs ++ es) (f :: (heldTables hs ++ ts)) := hGood
    exact (freeUserPhysicalPage_store m fr f).sameFor.trans (ih hFirst.freeTable)

theorem GoodAt.same_freeUserAspace (hGood : GoodAt m fr sp es ts) :
    SameFor fr (Paging.freeUserAspace m fr sp) es :=
  (SameFor.releaseAll _ hGood.heldGood).trans (freeUserPhysicalPage_store m _ sp.pml4).sameFor

end Spaces

end Horus.Paging
