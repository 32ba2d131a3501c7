import Horus.Paging.Snapshot

/-
  Sealed pages.

  A page that was sealed keeps its entry for as long as its
  address space lasts: a fault finds nothing to do there, an
  eviction and a fork pass it by, and a mapping over it is
  refused. Nothing else writes to the frame behind it. A seal
  that fails has at most moved pages between memory and swap.

  Main declarations:
    * `Pte.Held`, `PgOp.Replaces`
    * `Pte.protection`
    * `Pte.Held.moved`, `PoolGood.held_kept`
    * `userSealRange_held`, `userSealRange_failed`
    * `sealed_stays_sealed`
-/

namespace Horus.Paging

open Lib

/- A sealed page of the task's own. -/
structure Pte.Held (m : Machine) (e : Pte) : Prop where
  present : e.present = true
  user : e.user = true
  write : e.write = false
  cow : e.cow = false
  isSealed : e.sealed = true
  own : e.Private m

/- The address space of the task goes. -/
def PgOp.Replaces (t : Nat) : PgOp → Prop
  | .create t' _ _ _ => t' = t
  | .clone child _ _ => child = t
  | .forget t' => t' = t
  | _ => False

instance (t : Nat) (op : PgOp) : Decidable (op.Replaces t) := by
  rcases op <;> first | exact instDecidableFalse | exact Nat.decEq _ t

variable {rc : Int} {b : Bounds} {va : Nat} {fr' fr : Frames} {isWrite : Bool}

section Held

variable {m : Machine} {s : Pg} {e : Pte} {t vp : Nat}

theorem Pte.Held.not_inSwap (hHeld : e.Held m) : e.inSwap = false := by
  simp [Pte.inSwap, hHeld.present]

theorem Pte.Held.sealedPage (hHeld : e.Held m) : e.sealedPage = e := by
  have hWrite := hHeld.write
  have hCow := hHeld.cow
  have hSealed := hHeld.isSealed
  cases e
  subst hWrite hCow hSealed
  rfl

theorem Pte.Held.not_shares (hHeld : e.Held m) : ¬ e.Shares m := by
  rintro (hIn | ⟨_, _, _, hNotSealed⟩)
  · rw [hHeld.not_inSwap] at hIn
    cases hIn
  · rw [hHeld.isSealed] at hNotSealed
    cases hNotSealed

variable {e' : Pte}

theorem Pte.Held.fault (hHeld : e.Held m)
    (hCase : FaultCase m b fr e va isWrite (fr', e', rc)) : e' = e := by
  have hCow : e.cow ≠ true := by simp [hHeld.cow]
  have hPresent : e.present ≠ false := by
    simp [hHeld.present]
  have hIn : e.inSwap ≠ true := by simp [hHeld.not_inSwap]
  cases hCase with
  | refused | unread | uncopied => rfl
  | backIn hSwap => exact absurd hSwap hIn
  | fresh _ hWhy =>
    rcases hWhy with ⟨_, hIsCow, _⟩ | ⟨hAbsent, _⟩
    · exact absurd hIsCow hCow
    · exact absurd hAbsent hPresent
  | zero _ hAbsent => exact absurd hAbsent hPresent
  | copied _ _ hIsCow | inPlace _ _ hIsCow => exact absurd hIsCow hCow

/- What is left where it is, is left as it is. -/
theorem Pte.Held.moved (hHeld : e.Held m) (hMoved : Moved m e e') : e' = e := by
  induction hMoved with
  | refl => rfl
  | tail _ hMove ih =>
  subst ih
  cases hMove with
  | out hOut =>
    have hNotSealed := hOut.2.2.2.1
    rw [hHeld.isSealed] at hNotSealed
    cases hNotSealed
  | fault _ hCase => exact hHeld.fault hCase
  | share hShares => exact absurd hShares hHeld.not_shares
  | sealing => exact hHeld.sealedPage

----
-- Steps
----

/- A step that is about the page is refused. -/
theorem PoolGood.held_kept (hPool : PoolGood m s)
    (hHeld : (s.leaf t vp).Held m) (op : PgOp) (hNot : ¬ op.Replaces t) :
    Kept m s (s.apply m op) t vp := by
  cases op with
  | store _ _ off byte =>
    refine hPool.kept_storeByte off byte ?_
    rintro hMay ⟨rfl, rfl⟩
    have hWrite := (storable_iff.mp hMay).2.2
    rw [hHeld.write] at hWrite
    cases hWrite
  | mapDevice _ _ phys writable =>
    refine hPool.kept_userMapDevicePage phys writable ?_
    rintro hMay ⟨rfl, rfl⟩
    rw [hHeld.isSealed] at hMay
    cases hMay
  | mapFrame _ _ phys write exec =>
    unfold Pg.apply
    dsimp only
    split
    · refine hPool.kept_userMapFramePage phys write exec ?_
      rintro hAbsent ⟨rfl, rfl⟩
      rw [hHeld.present] at hAbsent
      cases hAbsent
    · exact Kept.refl m s t vp
  | unmapFrame _ _ phys =>
    unfold Pg.apply
    dsimp only
    split
    case isTrue hPinned =>
      refine hPool.kept_userUnmapFramePage phys ?_
      rintro hSame ⟨rfl, rfl⟩
      have hNotArena := (hHeld.own hHeld.present).2
      rw [hSame, (hPool.good.pinned phys hPinned).1] at hNotArena
      cases hNotArena
    case isFalse => exact Kept.refl m s t vp
  | privateCopy _ _ page =>
    refine hPool.kept_userMapPrivateCopy page ?_
    rintro hAbsent ⟨rfl, rfl⟩
    rw [hHeld.present] at hAbsent
    cases hAbsent
  | create | clone | forget => exact hPool.kept_apply _ (Ne.symm hNot)
  | fault | evict | sealRange | pin | unpin | kalloc | setBounds => exact hPool.kept_apply _ id

end Held

----
-- A Seal
----

/- What a program can observe of the protection of a page. -/
structure Protection where
  mapped : Bool
  user : Bool
  write : Bool
  cow : Bool
  nx : Bool
  isSealed : Bool
deriving DecidableEq, Repr

def Pte.protection (e : Pte) : Protection where
  mapped := e.mapped
  user := e.user
  write := e.write
  cow := e.cow
  nx := e.nx
  isSealed := e.present && e.sealed

variable {vps : List (Nat × FaultIo)}

section Seal

variable {m : Machine} {s : Pg} {t u vp : Nat}

/- An address space is changed, but not at the page. -/
theorem leaf_setSpace_same {sp sp' : Space} {t' : Nat} (hSpace : s.space t' = some sp)
    (hLeaf : t = t' → sp'.leaf vp = sp.leaf vp) :
    ((s.setFr fr).setSpace t' (some sp')).leaf t vp = s.leaf t vp := by
  rcases eq_or_ne t t' with rfl | hTask
  · rw [leaf_setSpace_self, leaf_of_space hSpace, hLeaf rfl]
  · exact leaf_setSpace_other _ hTask vp

theorem evictPage_leaf (m : Machine) (s : Pg) (t vp n : Nat) (u vp' : Nat) :
    (evictPage m s t vp n).leaf u vp' = s.leaf u vp' ∨
      ((s.leaf u vp').present = true ∧ (s.leaf u vp').sealed = false ∧
        (evictPage m s t vp n).leaf u vp' = (s.leaf u vp').goneOut n) := by
  unfold evictPage
  split
  · exact .inl rfl
  case h_2 sp hSpace =>
    generalize hRes : evictLeaf m (s.bounds t) s.fr sp vp n = r
    unfold evictLeaf at hRes
    split at hRes
    case isFalse =>
      cases hRes
      exact .inl (leaf_setSpace_same hSpace fun _ => rfl)
    case isTrue hOut =>
      cases hRes
      by_cases hPage : u = t ∧ vp' = vp
      · obtain ⟨rfl, rfl⟩ := hPage
        rw [leaf_setSpace_self, leaf_setLeaf_self, leaf_of_space hSpace]
        exact .inr ⟨hOut.1.1, hOut.1.2.2.2.1, rfl⟩
      · refine .inl (leaf_setSpace_same hSpace ?_)
        intro hTask
        exact leaf_setLeaf_other _ _ fun hEq => hPage ⟨hTask, hEq⟩

theorem evictPage_protection (m : Machine) (s : Pg) (t vp n : Nat) (u vp' : Nat) :
    ((evictPage m s t vp n).leaf u vp').protection = (s.leaf u vp').protection := by
  rcases evictPage_leaf m s t vp n u vp' with hSame | ⟨hPresent, hNotSealed, hGone⟩
  · rw [hSame]
  · rw [hGone]
    simp [Pte.protection, Pte.goneOut, Pte.mapped, hPresent, hNotSealed]

theorem evictAll_protection (m : Machine) (s : Pg) (victims : List (Nat × Nat × Nat)) (u vp : Nat) :
    ((evictAll m s victims).leaf u vp).protection = (s.leaf u vp).protection := by
  induction victims generalizing s with
  | nil => rfl
  | cons v _ ih => exact (ih _).trans (evictPage_protection m s v.1 v.2.1 v.2.2 u vp)

theorem evictAll_inSwap (m : Machine) (victims : List (Nat × Nat × Nat))
    (hIn : (s.leaf u vp).inSwap = true) : (evictAll m s victims).leaf u vp = s.leaf u vp := by
  induction victims generalizing s with
  | nil => rfl
  | cons v _ ih =>
  have hStep : (evictPage m s v.1 v.2.1 v.2.2).leaf u vp = s.leaf u vp := by
    rcases evictPage_leaf m s v.1 v.2.1 v.2.2 u vp with hSame | ⟨hPresent, _⟩
    · exact hSame
    · simp [Pte.inSwap, hPresent] at hIn
  refine (ih ?_).trans hStep
  rw [hStep]
  exact hIn

theorem FaultCase.protection {e e' : Pte} (hIn : e.inSwap = true)
    (hCase : FaultCase m b fr e va isWrite (fr', e', rc)) : e'.protection = e.protection := by
  have hNot : e.inSwap ≠ false := by simp [hIn]
  cases hCase with
  | refused | unread | uncopied => rfl
  | backIn =>
    simp only [Pte.inSwap, Bool.and_eq_true, Bool.not_eq_true'] at hIn
    simp [Pte.protection, Pte.backIn, Pte.mapped, hIn.1, hIn.2]
  | fresh hNotIn | zero hNotIn | copied hNotIn | inPlace hNotIn => exact absurd hNotIn hNot

/- A page is read back from swap. -/
theorem handleDemandPageFault_protection (hIn : (s.leaf t vp).inSwap = true)
    (io : FaultIo) (u vp' : Nat) :
    ((handleDemandPageFault m s t (vp * pageSize) false
      io).1.leaf u vp').protection = (s.leaf u vp').protection := by
  rw [← evictAll_protection m s io.evict u vp']
  have hSwap := evictAll_inSwap m io.evict hIn
  rw [← hSwap] at hIn
  unfold handleDemandPageFault demandFault
  generalize evictAll m s io.evict = s' at hIn ⊢
  split
  · rfl
  case h_2 sp hSpace =>
    rw [leaf_of_space hSpace] at hIn
    generalize hRes : faultSpace m (s'.bounds t) s'.fr sp (vp * pageSize) false io.read = r
    obtain ⟨fr, sp', rc⟩ := r
    have hPos : 0 < pageSize := by decide
    have hDiv : vp * pageSize / pageSize = vp := Nat.mul_div_cancel vp hPos
    rcases faultSpace_cases hRes with ⟨hGrown, _⟩ | ⟨fr₁, sp₁, e, hGrown, hCase, rfl⟩
    · rw [leaf_setSpace_same hSpace fun _ => hGrown.leaf vp']
    rw [hDiv] at hCase ⊢
    by_cases hPage : u = t ∧ vp' = vp
    · obtain ⟨rfl, rfl⟩ := hPage
      rw [leaf_setSpace_self, leaf_setLeaf_self, leaf_of_space hSpace]
      exact hCase.protection hIn
    · rw [leaf_setSpace_same hSpace]
      intro hTask
      rw [leaf_setLeaf_other _ _ fun hEq => hPage ⟨hTask, hEq⟩]
      exact hGrown.leaf vp'

theorem sealFaultIn_protection (m : Machine) (t : Nat) (s : Pg)
    (vps : List (Nat × FaultIo)) (u vp : Nat) : ((sealFaultIn m t s vps).1.leaf u vp).protection =
      (s.leaf u vp).protection := by
  induction vps generalizing s with
  | nil => rfl
  | cons v _ ih =>
  obtain ⟨vp', io⟩ := v
  unfold sealFaultIn
  split
  · rfl
  case h_2 sp hSpace =>
    split
    case isFalse => exact ih s
    case isTrue hIn =>
      rw [← leaf_of_space hSpace] at hIn
      have hStep := handleDemandPageFault_protection (m := m) hIn io u vp
      generalize handleDemandPageFault m s t (vp' * pageSize) false io = r at hStep ⊢
      obtain ⟨s', rc⟩ := r
      dsimp only at hStep ⊢
      split
      · exact (ih s').trans hStep
      · exact hStep

/- A seal that is refused has changed no protection. -/
theorem userSealRange_failed (hFailed : (userSealRange m s t vps).2 ≠ 0) (u vp : Nat) :
    ((userSealRange m s t vps).1.leaf u vp).protection = (s.leaf u vp).protection := by
  have hFault := sealFaultIn_protection m t s vps u vp
  unfold userSealRange at hFailed ⊢
  split
  · rfl
  case isFalse hRange =>
    rw [if_neg hRange] at hFailed
    generalize sealFaultIn m t s vps = r at hFault hFailed ⊢
    obtain ⟨s', ok⟩ := r
    cases ok with
    | false => exact hFault
    | true =>
    dsimp only at hFailed ⊢
    split
    · exact hFault
    case h_2 sp hSpace =>
      rw [hSpace] at hFailed
      dsimp only at hFailed
      split
      case isTrue hAll =>
        rw [if_pos hAll] at hFailed
        exact absurd rfl hFailed
      case isFalse => exact hFault

/- A seal that is done holds every page of the range. -/
theorem userSealRange_held (hPool : PoolGood m s) (hOwn : ∀ v ∈ vps, (s.leaf t v.1).Private m)
    (hDone : (userSealRange m s t vps).2 = 0) {v : Nat × FaultIo}
    (hIn : v ∈ vps) : ((userSealRange m s t vps).1.leaf t v.1).Held m := by
  have hKept := hPool.kept_sealFaultIn t vps t v.1
  have hPrivate := (hKept (hOwn v hIn)).2.1
  unfold userSealRange at hDone ⊢
  split
  case isTrue hRange =>
    rw [if_pos hRange] at hDone
    cases hDone
  case isFalse hRange =>
    rw [if_neg hRange] at hDone
    generalize sealFaultIn m t s vps = r at hPrivate hDone ⊢
    obtain ⟨s', ok⟩ := r
    cases ok with
    | false => cases hDone
    | true =>
    dsimp only at hPrivate hDone ⊢
    split
    case h_1 hSpace =>
      rw [hSpace] at hDone
      cases hDone
    case h_2 sp hSpace =>
      rw [hSpace] at hDone
      rw [leaf_of_space hSpace] at hPrivate
      dsimp only at hDone
      split
      case isFalse hNot =>
        rw [if_neg hNot] at hDone
        cases hDone
      case isTrue hAll =>
        have hMem : v.1 ∈ vps.map Prod.fst := List.mem_map_of_mem hIn
        have hPage := List.all_eq_true.mp hAll v.1 hMem
        simp only [sealable, Bool.and_eq_true] at hPage
        change (((s'.setFr s'.fr).setSpace t _).leaf t v.1).Held m
        rw [leaf_setSpace_self, sealLeaves_leaf, if_pos hMem]
        exact ⟨hPage.1.1, hPage.1.2, rfl, rfl, rfl, hPrivate⟩

end Seal

----
-- Runs
----

/-
  In every run from boot, the pages of a range that was sealed
  stay mapped, without write permission and with the same
  bytes, until their address space goes. A seal that is refused
  changes no page's mapping or protection.
-/
theorem sealed_stays_sealed {m : Machine} {free : List Nat}
    {mem : Nat → Page} {s : Pg} (hBoot : BootOk m free)
    (hClean : ∀ w ∈ m.windows, m.refcIndex w = none)
    (hRun : Run (Pg.apply m) (PoolOk m) (Pg.boot m free mem) s)
    (t : Nat) (vps : List (Nat × FaultIo)) :
    ((userSealRange m s t vps).2 = 0 → (∀ v ∈ vps, (s.leaf t v.1).Private m) →
      ∀ s', Run (Pg.apply m) (fun s op => PoolOk m s op ∧ ¬ op.Replaces t)
          (userSealRange m s t vps).1 s' →
        ∀ v ∈ vps, (s'.leaf t v.1).Held m ∧ s'.view t v.1 =
              (userSealRange m s t vps).1.view t v.1) ∧
      ((userSealRange m s t vps).2 ≠ 0 → ∀ u vp, ((userSealRange m s t vps).1.leaf u
              vp).protection = (s.leaf u vp).protection ∧
            ((s.leaf u vp).Private m → (userSealRange m s t vps).1.view u vp = s.view u vp)) := by
  have hPool := poolGood_of_run hBoot hClean hRun
  constructor
  · intro hDone hOwn s' hAfter v hIn
    have hHeld := userSealRange_held hPool hOwn hDone hIn
    have hStays := hAfter.invariant
        (fun s' => PoolGood m s' ∧ (s'.leaf t v.1).Held m ∧ s'.view t v.1 =
            (userSealRange m s t vps).1.view t v.1)
        (fun s₁ op hBefore hOk => by
          obtain ⟨hPool₁, hHeld₁, hView₁⟩ := hBefore
          obtain ⟨hMoved, _, hView⟩ := hPool₁.held_kept hHeld₁ op hOk.2 hHeld₁.own
          refine ⟨hPool₁.apply hClean op hOk.1, ?_, ?_⟩
          · rw [hHeld₁.moved hMoved]
            exact hHeld₁
          · rw [hView, hView₁])
        ⟨hPool.apply hClean (.sealRange t vps) trivial, hHeld, rfl⟩
    exact hStays.2
  · intro hFailed u vp
    refine ⟨userSealRange_failed hFailed u vp, ?_⟩
    intro hPrivate
    exact (hPool.kept_userSealRange t vps u vp hPrivate).2.2

/- A task whose image is its first page. -/
def imageTask : List PgOp :=
  [.create 1 0 1 [], .setBounds 1 ⟨0x400000, 0x401000, 0, 0⟩, .store 1 0x400 0 7]

/- It is forked, so that the page waits to be copied. -/
def forkedImage : Pg := runAll (Pg.apply smallMachine) smallBoot (imageTask ++ [.clone 2 1 []])

/- The page is sealed and the task tries to get around it. -/
def pryAtSeal : Pg :=
  runAll (Pg.apply smallMachine) (userSealRange smallMachine forkedImage 1 [(0x400, ⟨[], true⟩)]).1
    [.fault 1 0x400000 true ⟨[], true⟩, .store 1 0x400 0 8,
      .mapDevice 1 0x400 0xb8000 true, .evict 1 0x400 0,
      .fault 2 0x400000 true ⟨[], true⟩, .store 2 0x400 0 9,
      .clone 3 1 []]

theorem sealed_stays_sealed_pryAtSeal :
    (pryAtSeal.leaf 1 0x400).Held smallMachine ∧ pryAtSeal.view 1 0x400 =
        (userSealRange smallMachine forkedImage 1 [(0x400, ⟨[], true⟩)]).1.view 1 0x400 := by
  have hRun : Run (Pg.apply smallMachine) (PoolOk smallMachine) smallBoot forkedImage :=
    run_runAll _ (by decide +kernel)
  have hOwn : ∀ v ∈ [(0x400, (⟨[], true⟩ : FaultIo))],
      (forkedImage.leaf 1 v.1).Private smallMachine := by
    unfold Pte.Private
    decide +kernel
  exact (sealed_stays_sealed smallBoot_ok (by decide) hRun 1
    [(0x400, ⟨[], true⟩)]).1 (by decide +kernel) hOwn pryAtSeal
    (run_runAll _ (by decide +kernel)) _ List.mem_cons_self

/-
  A page of a device is mapped into the image and sealed, and
  then mapped a second time and written there.
-/
def sealedDevice : Pg :=
  runAll (Pg.apply smallMachine) smallBoot (imageTask ++ [.mapDevice 1 0x400 0xb8000 true])

def writtenDevice : Pg :=
  runAll (Pg.apply smallMachine) (userSealRange smallMachine sealedDevice 1 [(0x400, ⟨[], true⟩)]).1
    [.mapDevice 1 0x500 0xb8000 true, .store 1 0x500 0 9]

/-
  The frame of the page was let go for a register page of the
  kernel with the same low 32 bits, and is given out again.
-/
def sealedFreed : Pg :=
  runAll (Pg.apply highWindow) (Pg.boot highWindow smallPool fun _ => zeroPage)
    (imageTask ++ [.clone 2 1 [], .clone 2 1 [], .clone 2 1 []])

def writtenFreed : Pg :=
  (userSealRange highWindow sealedFreed 1 [(0x400, ⟨[], true⟩)]).1.apply highWindow
      (.fault 1 0x7df000 true ⟨[], true⟩)

theorem sealed_bytes_change :
    ((userSealRange smallMachine sealedDevice 1 [(0x400, ⟨[], true⟩)]).2 = 0 ∧
      (userSealRange smallMachine sealedDevice 1 [(0x400, ⟨[], true⟩)]).1.view 1 0x400 0 = 0 ∧
      writtenDevice.view 1 0x400 0 = 9) ∧
      ((userSealRange highWindow sealedFreed 1 [(0x400, ⟨[], true⟩)]).2 = 0 ∧
        (userSealRange highWindow sealedFreed 1 [(0x400, ⟨[], true⟩)]).1.view 1 0x400 0 = 7 ∧
        writtenFreed.view 1 0x400 0 = 0) := by
  decide +kernel

end Horus.Paging
