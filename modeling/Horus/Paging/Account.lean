import Horus.Paging.Counts

/-
  The counts through the operations on address spaces.

  One address space is worked on while the entries and tables
  of all the others stay as they are; each operation keeps the
  counts right for both together.
-/

namespace Horus.Paging

open Lib

def Space.entries (sp : Space) : List Pte := sp.leaves.values

/- The frames of the tables, the root first. -/
def Space.frames (sp : Space) : List Nat := sp.pml4 :: sp.tables.values

/- `es` and `ts` are what the other address spaces have. -/
def GoodAt (m : Machine) (fr : Frames) (sp : Space) (es : List Pte) (ts : List Nat) : Prop :=
  Good m fr (sp.entries ++ es) (sp.frames ++ ts)

variable {rest : List Pte} {e e' : Pte} {f va : Nat} {rc : Int} {b : Bounds}
    {isWrite ok nx : Bool} {child parent child' parent' : Space} {vps : List Nat}

section Account

variable {m : Machine} {fr fr' : Frames} {sp sp' : Space} {es : List Pte} {ts : List Nat} {vp : Nat}

/- An entry taken out of its address space. -/
theorem exists_open (sp : Space) (vp : Nat) :
    ∃ rest : List Pte, ((sp.leaf vp :: rest).Perm sp.entries ∨
        (rest.Perm sp.entries ∧ sp.leaf vp = Pte.empty)) ∧
        ∀ e, (e :: rest).Perm (sp.setLeaf vp e).entries := by
  cases hGet : sp.leaves.get vp with
  | some old =>
    obtain ⟨rest, hOld, hNew⟩ := Table.values_replace hGet
    have hLeaf : sp.leaf vp = old := by
      simp [Space.leaf, hGet]
    refine ⟨rest, .inl ?_, fun e => (hNew e).symm⟩
    rw [hLeaf]
    exact hOld.symm
  | none =>
    have hLeaf : sp.leaf vp = Pte.empty := by
      simp [Space.leaf, hGet]
    exact ⟨sp.entries, .inr ⟨List.Perm.refl _, hLeaf⟩, fun e => (Table.values_new hGet e).symm⟩

/- Taken out, the entry counts as before. -/
theorem naming_open
    (hOpen : (sp.leaf vp :: rest).Perm sp.entries ∨ (rest.Perm sp.entries ∧ sp.leaf vp = Pte.empty))
    (f : Nat) : naming (sp.leaf vp :: rest) f = naming sp.entries f := by
  rcases hOpen with hHad | ⟨hNot, hEmpty⟩
  · exact naming_perm hHad f
  · rw [hEmpty, naming_cons_other rest, naming_perm hNot f]
    intro hPresent
    cases hPresent

theorem ok_empty : Pte.empty.Ok := nofun

/- The entry at a page can be counted on its own. -/
theorem Good.open_leaf
    (hOpen : (sp.leaf vp :: rest).Perm sp.entries ∨ (rest.Perm sp.entries ∧ sp.leaf vp = Pte.empty))
    (hGood : Good m fr (sp.entries ++ es) ts) : Good m fr (sp.leaf vp :: (rest ++ es)) ts := by
  rcases hOpen with hHad | ⟨hNot, hEmpty⟩
  · exact hGood.perm (hHad.symm.append_right es) (List.Perm.refl _)
  rw [hEmpty]
  refine Good.addOutside (hGood.perm (hNot.symm.append_right es) (List.Perm.refl _)) ok_empty rfl ?_
  intro hPresent
  cases hPresent

theorem GoodAt.opened (hGood : GoodAt m fr sp es ts) (vp : Nat) :
    ∃ rest : List Pte, Good m fr (sp.leaf vp :: rest) (sp.frames ++ ts) ∧ ∀ e,
          (e :: rest).Perm ((sp.setLeaf vp e).entries ++ es) := by
  obtain ⟨rest, hOld, hNew⟩ := exists_open sp vp
  refine ⟨rest ++ es, Good.open_leaf hOld hGood, ?_⟩
  intro e
  exact (hNew e).append_right es

/- A change of one entry and of the pool that keeps counts. -/
def Keeps (m : Machine) (fr : Frames) (e : Pte) (fr' : Frames) (e' : Pte) : Prop :=
  ∀ rest ts, Good m fr (e :: rest) ts → Good m fr' (e' :: rest) ts

theorem Keeps.refl (e : Pte) : Keeps m fr e fr e := fun _ _ hGood => hGood

theorem GoodAt.set (hGood : GoodAt m fr sp es ts) (hKeeps : Keeps m fr (sp.leaf vp) fr' e) :
    GoodAt m fr' (sp.setLeaf vp e) es ts := by
  obtain ⟨rest, hOld, hNew⟩ := hGood.opened vp
  exact (hKeeps rest _ hOld).perm (hNew e) (List.Perm.refl _)

theorem GoodAt.alloc (hGood : GoodAt m fr sp es ts)
    (hAlloc : allocUserPhysicalPage fr = some (f, fr')) : GoodAt m fr' sp es (f :: ts) :=
  (Good.alloc hGood hAlloc).perm (List.Perm.refl _) List.perm_middle.symm

theorem GoodAt.freeHand (hGood : GoodAt m fr sp es (f :: ts)) :
    GoodAt m (freeUserPhysicalPage m fr f) sp es ts :=
  Good.freeTable (Good.perm hGood (List.Perm.refl _) List.perm_middle)

theorem GoodAt.addTable {k : Nat × Nat}
    (hGood : GoodAt m fr sp es (f :: ts)) (hNew : sp.tables.get k = none) :
    GoodAt m fr (sp.addTable k f) es ts := by
  refine Good.perm hGood (List.Perm.refl _) ?_
  have hValues := Table.values_new hNew f
  calc sp.frames ++ f :: ts
      List.Perm _ (f :: (sp.frames ++ ts)) := List.perm_middle
      _ = f :: sp.pml4 :: (sp.tables.values ++ ts) := rfl
      List.Perm _ (sp.pml4 :: f :: (sp.tables.values ++ ts)) := List.Perm.swap _ _ _
      List.Perm _ (sp.pml4 :: ((sp.tables.set k f).values ++ ts)) :=
        (hValues.symm.append_right ts).cons _

theorem GoodAt.grown (hGood : GoodAt m fr sp es ts)
    (hGrown : Grown fr sp fr' sp') : GoodAt m fr' sp' es ts := by
  induction hGrown with
  | refl => exact hGood
  | table _ hNew hAlloc ih => exact (ih.alloc hAlloc).addTable hNew

----
-- Faults
----

/- A reference that is dropped and taken again. -/
theorem retakeRef_same (hSmall : ∀ f, fr.refs f ≤ 65535) {phys : Nat} {refs : Int}
    (hDec : rustPageRefDec m fr phys = (fr', refs)) : retakeRef m fr' phys refs = fr := by
  unfold rustPageRefDec at hDec
  split at hDec
  · cases hDec
    rfl
  case h_2 f hIndex =>
    split at hDec
    · cases hDec
      rfl
    case isFalse hPos =>
      cases hDec
      have hUp : fr.refs f - 1 + 1 = fr.refs f := by omega
      have hBack : min (fr.refs f - 1 + 1) 65535 = fr.refs f := by
        rw [hUp]
        exact Nat.min_eq_left (hSmall f)
      simp [retakeRef, rustPageRefInc, hIndex, Frames.setRefs, hBack]

theorem FaultCase.keeps (hOk : e.Ok) (hCase : FaultCase m b fr e va isWrite (fr', e', rc)) :
    Keeps m fr e fr' e' := by
  cases hCase with intro rest ts hGood
  | refused => exact hGood
  | unread hAlloc => exact (hGood.alloc hAlloc).freeTable
  | uncopied hDec =>
    rw [retakeRef_same hGood.small hDec]
    exact hGood
  | @backIn f fr₁ v hIn hAlloc _ =>
    have hHand := (hGood.alloc hAlloc).setHand v.page
    refine (hHand.leaveSwap hIn).fill ?_ rfl rfl
    intro _
    exact .inl rfl
  | fresh _ _ hAlloc =>
    have hHand := hGood.dropEntry.alloc hAlloc
    refine (hHand.setHand zeroPage).fill ?_ rfl rfl
    intro hCow
    cases hCow
  | zero _ _ _ _ hZero =>
    refine hGood.dropEntry.addZero ?_ hZero rfl rfl rfl
    intro _
    exact .inl rfl
  | copied hNotIn _ hCow _ _ hDec _ hAlloc =>
    have hGone := hGood.dec (hOk.present hNotIn hCow)
    rw [hDec] at hGone
    have hHand := hGone.alloc hAlloc
    refine (hHand.setHand _).fill ?_ rfl rfl
    intro hIs
    cases hIs
  | inPlace hNotIn _ hCow hNotZero _ _ hDec hLast =>
    have hPresent := hOk.present hNotIn hCow
    rw [retakeRef_same hGood.small hDec]
    refine hGood.reflag ?_ hPresent.symm rfl ?_ ?_
    · nofun
    · rw [hNotIn]
      rfl
    · intro _
      refine .inr fun hPool => ⟨hNotZero, ?_⟩
      exact hGood.naming_last hPresent hNotZero hPool hDec hLast

theorem leaf_ok (hGood : GoodAt m fr sp es ts) (vp : Nat) : (sp.leaf vp).Ok := by
  obtain ⟨rest, hOld, _⟩ := hGood.opened vp
  exact hOld.ok _ List.mem_cons_self

theorem GoodAt.faultSpace {read : Bool} (hGood : GoodAt m fr sp es ts)
    (hFault : faultSpace m b fr sp va isWrite read = (fr', sp', rc)) : GoodAt m fr' sp' es ts := by
  rcases faultSpace_cases hFault with ⟨hGrown, _⟩ | ⟨fr₁, sp₁, e, hGrown, hCase, rfl⟩
  · exact hGood.grown hGrown
  · refine (hGood.grown hGrown).set ?_
    rw [hGrown.leaf]
    exact hCase.keeps (leaf_ok hGood _)

theorem GoodAt.evictLeaf {n : Nat} (hGood : GoodAt m fr sp es ts)
    (hEvict : evictLeaf m b fr sp vp n = (fr', sp')) : GoodAt m fr' sp' es ts := by
  unfold Paging.evictLeaf at hEvict
  split at hEvict
  case isFalse =>
    cases hEvict
    exact hGood
  case isTrue hOut =>
    cases hEvict
    refine hGood.set ?_
    intro rest ts hOld
    have hFree : fr.slot n = none := by
      simpa using hOut.2.2
    have hOk : ((sp.leaf vp).goneOut n).Ok := fun _ => .inr rfl
    have hBoth := hOld.storeSlot hFree (fr.mem (sp.leaf vp).addr) hOk rfl rfl
    exact (hBoth.perm (List.Perm.swap _ _ _) (List.Perm.refl _)).release hOut.1.1

----
-- Mapping
----

/- The frame in hand is mapped at the page. -/
theorem GoodAt.fillHand (hGood : GoodAt m fr sp es (f :: ts)) (vp : Nat) (hOk : e.Ok)
    (hPresent : e.present = true) (hAddr : e.addr = f) :
    GoodAt m (dropSwapped fr (sp.leaf vp)) (sp.setLeaf vp e) es ts := by
  obtain ⟨rest, hOld, hNew⟩ := hGood.opened vp
  have hHand := hOld.overwrite.perm (List.Perm.refl _) List.perm_middle
  exact (hHand.fill hOk hPresent hAddr).perm (hNew e) (List.Perm.refl _)

theorem dropSwapped_of_not_in (hNotIn : e.inSwap = false) : dropSwapped fr e = fr := by
  rw [dropSwapped, hNotIn, if_neg Bool.false_ne_true]

theorem GoodAt.setHand (hGood : GoodAt m fr sp es (f :: ts))
    (page : Page) : GoodAt m (fr.setPage f page) sp es (f :: ts) := by
  have hFront := Good.perm hGood (List.Perm.refl _) List.perm_middle
  exact (hFront.setHand page).perm (List.Perm.refl _) List.perm_middle.symm

theorem GoodAt.freshCase (hGood : GoodAt m fr sp es ts)
    (hCase : FreshCase m fr sp vp nx (fr', sp', ok)) : GoodAt m fr' sp' es ts := by
  cases hCase with
  | refused => exact hGood
  | unmapped hAlloc hGrown => exact (((hGood.alloc hAlloc).setHand zeroPage).grown hGrown).freeHand
  | mapped hAlloc hGrown =>
    rw [← hGrown.leaf]
    refine (((hGood.alloc hAlloc).setHand zeroPage).grown hGrown).fillHand _ ?_ rfl rfl
    intro hCow
    cases hCow

theorem GoodAt.buildSpace {image : List Nat} (hGood : GoodAt m fr sp es ts)
    (hBuild : buildSpace m fr sp image = (fr', sp', ok)) : GoodAt m fr' sp' es ts :=
  buildSpace_induction (P := fun fr sp => GoodAt m fr sp es ts)
    (fun hBefore hCase => hBefore.freshCase hCase) hGood hBuild

theorem GoodAt.ensureWindows (ws : List Nat)
    (hClean : ∀ w ∈ ws, m.refcIndex w = none) (hGood : GoodAt m fr sp es ts)
    (hEnsure : ensureWindows fr sp ws = (fr', sp')) : GoodAt m fr' sp' es ts := by
  refine ensureWindows_induction (P := fun fr sp => GoodAt m fr sp es ts)
    (fun hBefore hGrown => hBefore.grown hGrown) ?_ hGood hEnsure
  intro _ _ w hIn hBefore
  refine hBefore.set fun rest ts hOld => hOld.dropEntry.addOutside ?_ rfl ?_
  · nofun
  · intro _
    exact ⟨not_inPool_of_refcIndex (hClean w hIn), hClean w hIn⟩

----
-- Fork
----

/- Sharing changes the two flags of writing only. -/
theorem shared_eq (e : Pte) :
    e.shared = { e with write := e.shared.write, cow := e.shared.cow } := by
  unfold Pte.shared
  split
  · split <;> rfl
  · rfl

theorem shared_present (e : Pte) : e.shared.present = e.present := by
  rw [shared_eq]

theorem shared_addr (e : Pte) : e.shared.addr = e.addr := by
  rw [shared_eq]

theorem shared_ok (hOk : e.Ok) (hHeld : e.inSwap = true ∨ e.present = true) : e.shared.Ok := by
  unfold Pte.shared
  split
  case isTrue hIn =>
    split
    · intro _
      simp only [Pte.inSwap, Bool.and_eq_true] at hIn
      exact .inr hIn.2
    · exact hOk
  case isFalse hNot =>
    intro _
    rcases hHeld with hIn | hPresent
    · exact absurd hIn hNot
    · exact .inl hPresent

theorem shared_inSwap (e : Pte) : e.shared.inSwap = e.inSwap := by
  rw [shared_eq]
  rfl

theorem shared_write (hNotIn : e.inSwap = false) : e.shared.write = false := by
  rw [Pte.shared, hNotIn, if_neg Bool.false_ne_true]

theorem shared_write_le (hWrite : e.shared.write = true) : e.write = true := by
  unfold Pte.shared at hWrite
  split at hWrite
  · split at hWrite
    · cases hWrite
    · exact hWrite
  · cases hWrite

theorem Good.reshare (hGood : Good m fr (e :: es) ts)
    (hOk : e.shared.Ok) : Good m fr (e.shared :: es) ts :=
  hGood.reflag hOk (shared_present e) (shared_addr e) (shared_inSwap e) fun hWrite =>
      .inl (shared_write_le hWrite)

/- Entries of the child first, then those of the parent. -/
theorem fork_perm {rc rp : List Pte} (hChild : (e :: rc).Perm (child.setLeaf vp e).entries)
    (hParent : (e' :: rp).Perm (parent.setLeaf vp e').entries) :
    (e :: e' :: (rc ++ (rp ++ es))).Perm ((child.setLeaf vp e).entries ++
        ((parent.setLeaf vp e').entries ++ es)) := by
  have hMove : (e :: e' :: (rc ++ (rp ++ es))).Perm (e :: (rc ++ (e' :: (rp ++ es)))) :=
    List.perm_middle.symm.cons e
  refine hMove.trans ?_
  exact hChild.append (hParent.append_right es)

/- The entries at one page of parent and child. -/
theorem exists_open_fork (hGood : GoodAt m fr child (parent.entries ++ es) ts) (vp : Nat) :
    ∃ rc rp : List Pte, Good m (dropSwapped fr (child.leaf vp))
          (parent.leaf vp :: (rc ++ (rp ++ es)))
          (child.frames ++ ts) ∧
        (∀ f, naming (parent.leaf vp :: (rc ++ (rp ++ es))) f ≤
            naming (child.entries ++ (parent.entries ++ es)) f) ∧
        ∀ e e', (e :: e' :: (rc ++ (rp ++ es))).Perm ((child.setLeaf vp e).entries ++
              ((parent.setLeaf vp e').entries ++ es)) := by
  obtain ⟨rc, hOldC, hNewC⟩ := exists_open child vp
  obtain ⟨rp, hOldP, hNewP⟩ := exists_open parent vp
  refine ⟨rc, rp, ?_, ?_, ?_⟩
  · have hRest := (Good.open_leaf hOldC hGood).overwrite
    have hFront := hRest.perm List.perm_append_comm (List.Perm.refl _)
    rw [List.append_assoc] at hFront
    have hOpen := Good.open_leaf hOldP hFront
    refine hOpen.perm (List.Perm.cons _ ?_) (List.Perm.refl _)
    calc rp ++ (es ++ rc)
        _ = (rp ++ es) ++ rc := (List.append_assoc _ _ _).symm
        List.Perm _ (rc ++ (rp ++ es)) := List.perm_append_comm
  · intro f
    have hC := naming_open hOldC f
    have hP := naming_open hOldP f
    have hLe := naming_le_cons (child.leaf vp) rc f
    rw [naming_cons] at hP
    simp only [naming_cons, naming_append]
    omega
  · intro e e'
    exact fork_perm (hNewC e) (hNewP e')

theorem ForkCase.good (hGood : GoodAt m fr child (parent.entries ++ es) (parent.frames ++ ts))
    (hFew : Counted m (parent.leaf vp).addr → naming (child.entries ++ (parent.entries ++ es))
        (parent.leaf vp).addr < 65535)
    (hCase : ForkCase m fr parent child vp (fr', parent', child', ok)) :
    GoodAt m fr' child' (parent'.entries ++ es) (parent'.frames ++ ts) := by
  cases hCase with
  | skipped => exact hGood
  | refused hGrown => exact hGood.grown hGrown
  | swapped hIn hGrown =>
    obtain ⟨rc, rp, hOpen, _, hClose⟩ := exists_open_fork (hGood.grown hGrown) vp
    have hOk := hOpen.ok _ List.mem_cons_self
    have hOk' := shared_ok hOk (.inl hIn)
    have hFlag := hOpen.reshare hOk'
    have hIn' := (shared_inSwap _).trans hIn
    have hBoth := hFlag.shareSlot List.mem_cons_self hIn' hOk' hIn' rfl
    rw [shared_addr, hGrown.leaf] at hBoth
    exact hBoth.perm (hClose _ _) (List.Perm.refl _)
  | present hNotIn hPresent _ hNotArena _ hGrown =>
    obtain ⟨rc, rp, hOpen, hLe, hClose⟩ := exists_open_fork (hGood.grown hGrown) vp
    have hOk := hOpen.ok _ List.mem_cons_self
    have hOk' := shared_ok hOk (.inr hPresent)
    have hFlag := hOpen.reshare hOk'
    have hRead := shared_write hNotIn
    have hLess : Counted m (parent.leaf vp).shared.addr → naming
              ((parent.leaf vp).shared :: (rc ++ (rp ++ es)))
              (parent.leaf vp).shared.addr < 65535 := by
      intro hCounted
      rw [shared_addr] at hCounted
      have hBelow := hFew hCounted
      have hBound := hLe (parent.leaf vp).addr
      rw [show Space.entries _ = child.entries from congrArg Table.values hGrown.leaves] at hBound
      rw [naming_cons, Pte.names, shared_present, shared_addr]
      rw [naming_cons, Pte.names] at hBound
      omega
    have hPresent' := (shared_present _).trans hPresent
    have hBoth := hFlag.share List.mem_cons_self hPresent' (by rw [shared_addr]; exact hNotArena)
        hRead hLess hOk' hPresent' hRead rfl
    rw [shared_addr, hGrown.leaf] at hBoth
    exact hBoth.perm (hClose _ _) (List.Perm.refl _)

/- The pages a fork still has to go through. -/
def toShare (parent : Space) (vps : List Nat) : List Pte := vps.map parent.leaf

/- One page put in adds at most its own entry. -/
theorem naming_setLeaf_le (sp : Space) (vp : Nat) (e : Pte) (f : Nat) :
    naming (sp.setLeaf vp e).entries f ≤ naming sp.entries f + if e.names f then 1 else 0 := by
  obtain ⟨rest, hOld, hNew⟩ := exists_open sp vp
  have hBefore := naming_open hOld f
  have hLe := naming_le_cons (sp.leaf vp) rest f
  rw [← naming_perm (hNew e), naming_cons]
  omega

theorem naming_setLeaf_same (hPresent : e.present = (sp.leaf vp).present)
    (hAddr : e.addr = (sp.leaf vp).addr) (f : Nat) :
    naming (sp.setLeaf vp e).entries f = naming sp.entries f := by
  obtain ⟨rest, hOld, hNew⟩ := exists_open sp vp
  have hBefore := naming_open hOld f
  rw [← naming_perm (hNew e), ← hBefore, naming_cons,
    naming_cons, Pte.names, Pte.names, hPresent, hAddr]

theorem toShare_congr (hSame : ∀ vp ∈ vps, parent'.leaf vp = parent.leaf vp) :
    toShare parent' vps = toShare parent vps :=
  List.map_congr_left hSame

/- Each page has an entry of its own. -/
theorem naming_toShare_le (sp : Space) (hNodup : vps.Nodup)
    (f : Nat) : naming (toShare sp vps) f ≤ naming sp.entries f := by
  induction vps generalizing sp with
  | nil => exact Nat.zero_le _
  | cons vp vps ih =>
  obtain ⟨hNot, hRest⟩ := List.nodup_cons.mp hNodup
  obtain ⟨rest, hOld, hNew⟩ := exists_open sp vp
  have hBefore := naming_open hOld f
  have hAfter := ih (sp.setLeaf vp Pte.empty) hRest
  have hSame : toShare (sp.setLeaf vp Pte.empty) vps = toShare sp vps := by
    refine toShare_congr ?_
    intro vp' hIn
    refine leaf_setLeaf_other sp _ ?_
    intro hEq
    exact hNot (hEq ▸ hIn)
  rw [hSame, ← naming_perm (hNew Pte.empty), naming_cons_other rest] at hAfter
  · rw [← hBefore, naming_cons]
    change naming (sp.leaf vp :: toShare sp vps) f ≤ _
    rw [naming_cons]
    omega
  · nofun

theorem shared_names (e : Pte) (f : Nat) : e.shared.names f = e.names f := by
  rw [Pte.names, Pte.names, shared_present, shared_addr]

namespace ForkCase

variable (hCase : ForkCase m fr parent child vp (fr', parent', child', ok))

include hCase

theorem naming_parent (f : Nat) : naming parent'.entries f = naming parent.entries f := by
  cases hCase with
  | skipped | refused => rfl
  | swapped | present => exact naming_setLeaf_same (shared_present _) (shared_addr _) f

/- What a page of a fork adds to the entries of the child. -/
theorem naming_child (f : Nat) : naming child'.entries f ≤ naming child.entries f +
        if (parent.leaf vp).names f then 1 else 0 := by
  have hPut : ∀ {child₁ : Space}, child₁.leaves = child.leaves →
        naming (child₁.setLeaf vp (parent.leaf vp).shared).entries f ≤ naming child.entries f +
            if (parent.leaf vp).names f then 1 else 0 := by
    intro child₁ hLeaves
    have hAdd := naming_setLeaf_le child₁ vp (parent.leaf vp).shared f
    rw [shared_names, show child₁.entries = child.entries from
      congrArg Table.values hLeaves] at hAdd
    exact hAdd
  cases hCase with
  | skipped => exact Nat.le_add_right _ _
  | refused hGrown =>
    rw [show child'.entries = child.entries from congrArg Table.values hGrown.leaves]
    exact Nat.le_add_right _ _
  | swapped _ hGrown | present _ _ _ _ _ hGrown => exact hPut hGrown.leaves

theorem toShare_rest (hNot : vp ∉ vps) : toShare parent' vps = toShare parent vps := by
  refine toShare_congr ?_
  intro vp' hIn
  refine (hCase.leaf_other ?_).1
  intro hEq
  exact hNot (hEq ▸ hIn)

end ForkCase

theorem GoodAt.forkLoop (hNodup : vps.Nodup)
    (hGood : GoodAt m fr child (parent.entries ++ es) (parent.frames ++ ts))
    (hFew : ∀ f, Counted m f → naming (child.entries ++ (parent.entries ++ es)) f +
        naming (toShare parent vps) f < 65535)
    (hLoop : forkLoop m fr parent child vps = (fr', parent', child', ok)) :
    GoodAt m fr' child' (parent'.entries ++ es) (parent'.frames ++ ts) := by
  induction vps generalizing fr parent child with
  | nil =>
    cases hLoop
    exact hGood
  | cons vp vps ih =>
  obtain ⟨hNot, hRest⟩ := List.nodup_cons.mp hNodup
  have hHere : Counted m (parent.leaf vp).addr → naming (child.entries ++ (parent.entries ++ es))
        (parent.leaf vp).addr < 65535 := by
    intro hCounted
    have hBound := hFew _ hCounted
    omega
  rcases forkLoop_cons hLoop with ⟨_, hCase⟩ | ⟨_, _, _, hCase, hLater⟩
  · exact ForkCase.good hGood hHere hCase
  refine ih hRest (ForkCase.good hGood hHere hCase) ?_ hLater
  intro f hCounted
  have hBound := hFew f hCounted
  have hAdd := hCase.naming_child f
  have hParent := hCase.naming_parent f
  rw [hCase.toShare_rest hNot]
  change _ + naming (parent.leaf vp :: toShare parent vps) f < 65535 at hBound
  rw [naming_cons] at hBound
  simp only [naming_append] at hBound ⊢
  omega

/- The entries and the tables among what is let go of. -/
def heldPages (hs : List Held) : List Pte :=
  hs.filterMap fun
    | .page e => some e
    | .table _ => none

def heldTables (hs : List Held) : List Nat :=
  hs.filterMap fun
    | .page _ => none
    | .table f => some f

theorem Good.releaseAll (hs : List Held)
    (hGood : Good m fr (heldPages hs ++ es) (heldTables hs ++ ts)) :
    Good m (hs.foldl (releaseHeld m) fr) es ts := by
  induction hs generalizing fr with
  | nil => exact hGood
  | cons h hs ih =>
  apply ih
  cases h with
  | page e =>
    have hFirst : Good m fr (e :: (heldPages hs ++ es)) (heldTables hs ++ ts) := hGood
    unfold releaseHeld
    dsimp only
    split
    case isTrue hIn => exact hFirst.leaveSwap hIn
    · split
      case isTrue hPresent => exact hFirst.release hPresent
      · exact hFirst.dropEntry
  | table f =>
    have hFirst : Good m fr (heldPages hs ++ es) (f :: (heldTables hs ++ ts)) := hGood
    exact hFirst.freeTable

theorem teardown_perm (sp : Space) :
    sp.teardown.Perm (sp.leaves.map (fun p => Held.page p.2) ++
        sp.tables.map (fun p => Held.table p.2)) := by
  have hSort := List.perm_insertionSort (fun a b : Nat × Nat × Held =>
      a.1 < b.1 ∨ (a.1 = b.1 ∧ a.2.1 ≤ b.2.1)) sp.held
  have hMap := hSort.map fun a => a.2.2
  have hHeld : sp.held.map (fun a => a.2.2) = sp.leaves.map (fun p => Held.page p.2) ++
          sp.tables.map (fun p => Held.table p.2) := by
    simp [Space.held, List.map_append, List.map_map, Function.comp_def]
  rw [hHeld] at hMap
  exact hMap

theorem heldPages_teardown (sp : Space) : (heldPages sp.teardown).Perm sp.entries := by
  have hPerm := (teardown_perm sp).filterMap fun
    | .page e => some e
    | .table _ => none
  refine hPerm.trans ?_
  simp [Space.entries, Table.values, List.filterMap_append, List.filterMap_map]

theorem heldTables_teardown (sp : Space) : (heldTables sp.teardown).Perm sp.tables.values := by
  have hPerm := (teardown_perm sp).filterMap fun
    | .page _ => none
    | .table f => some f
  refine hPerm.trans ?_
  simp [Table.values, List.filterMap_append, List.filterMap_map]

/- All that a teardown goes through, the root last. -/
theorem GoodAt.heldGood (hGood : GoodAt m fr sp es ts) :
    Good m fr (heldPages sp.teardown ++ es) (heldTables sp.teardown ++ (sp.pml4 :: ts)) := by
  refine Good.perm hGood ((heldPages_teardown sp).symm.append_right es) ?_
  calc sp.frames ++ ts
      _ = sp.pml4 :: (sp.tables.values ++ ts) := rfl
      List.Perm _ (sp.tables.values ++ (sp.pml4 :: ts)) := List.perm_middle.symm
      List.Perm _ (heldTables sp.teardown ++ (sp.pml4 :: ts)) :=
        (heldTables_teardown sp).symm.append_right _

theorem GoodAt.freeUserAspace (hGood : GoodAt m fr sp es ts) :
    Good m (freeUserAspace m fr sp) es ts :=
  (Good.releaseAll _ hGood.heldGood).freeTable

end Account

end Horus.Paging
