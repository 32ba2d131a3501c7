import Horus.Paging.PoolSafe

/-
  Protection after a fork.

  What has become of a page is followed from the parent's entry
  before the fork, through the fork and through the faults and
  evictions of any task after it. Nothing becomes writable that
  was not, and no page mapped without execution loses this, as
  long as the copy-on-write mark is only put on pages that were
  writable and that a break gives the protection they had.

  Main declarations:
    * `LazilyWritable`, `ForkKeeps`
    * `Follows`, `Follows.fault`
    * `Tracks`, `Tracks.clone`
    * `fork_keeps_protection`
-/

namespace Horus.Paging

open Function
open Lib

variable {fr' fr : Frames} {sp psp' csp : Space} {t : Nat}

----
-- Protection
----

/- A page the task may execute. -/
def Pte.fetchable (e : Pte) : Bool := e.present && e.user && !e.nx

/- There, or in swap. -/
def Pte.mapped (e : Pte) : Bool := e.present || e.swapped

/- Writable now, after a copy, or when it is back from swap. -/
def Pte.mayWrite (e : Pte) : Bool := e.storable || e.cow || (e.inSwap && e.write)

/- Some address of the page may be paged in. -/
def Pageable (b : Bounds) (vp : Nat) : Prop :=
  ∃ va, va / pageSize = vp ∧ validatePageFault b va = true

def LazilyWritable (b : Bounds) (vp : Nat) (e : Pte) : Prop :=
  e.mayWrite = true ∨ (e.mapped = false ∧ Pageable b vp)

/-
  The condition on the parent: a page that will be shared is
  writable or waits to be copied already; one that will wait
  to be copied has the protection that a break gives it; and
  no register page of the kernel lies where the task pages.
-/
structure ForkKeeps (m : Machine) (b : Bounds) (sp : Space) : Prop where
  write : ∀ vp, (sp.leaf vp).Shares m → (sp.leaf vp).present = true →
      (sp.leaf vp).write = true ∨ (sp.leaf vp).cow = true
  exec : ∀ vp, (sp.leaf vp).mapped = true → (sp.leaf vp).nx = true →
      ((sp.leaf vp).cow = true ∨ (sp.leaf vp).shared.cow = true ∧ (sp.leaf vp).Shares m) →
      userPageIsNoexec (vp * pageSize) = true
  apart : ∀ vp, (sp.leaf vp).present = true → (sp.leaf vp).user = false → ¬ Pageable b vp

/- What has become of the parent's entry. -/
structure Follows (b : Bounds) (vp : Nat) (old e : Pte) : Prop where
  write : e.mayWrite = true → LazilyWritable b vp old
  absent : e.mapped = false → old.mapped = false ∨ ¬ Pageable b vp
  exec : old.mapped = true → old.nx = true → e.mapped = true ∨ e.cow = true → e.nx = true ∧
        (e.cow = true → userPageIsNoexec (vp * pageSize) = true)

section Pages

variable {m : Machine} {b : Bounds} {vp : Nat} {old e e' : Pte}

theorem noexec_page (va : Nat) :
    userPageIsNoexec (va / pageSize * pageSize) = userPageIsNoexec va := by
  have hLe : va / pageSize * pageSize ≤ va := Nat.div_mul_le_self _ _
  have hLt : va < va / pageSize * pageSize + 4096 := by
    unfold pageSize
    omega
  have hPage : va / pageSize * pageSize % 4096 = 0 := Nat.mul_mod_left _ _
  rw [Bool.eq_iff_iff]
  simp only [userPageIsNoexec, Bool.or_eq_true, Bool.and_eq_true, decide_eq_true_eq]
  omega

theorem mapped_of_inSwap (hIn : e.inSwap = true) : e.mapped = true := by
  simp only [Pte.inSwap, Bool.and_eq_true] at hIn
  simp [Pte.mapped, hIn.2]

/- The flags are the same and the page is in memory or not. -/
theorem Follows.moved (hFollows : Follows b vp old e)
    (hMapped : e.mapped = true) (hMapped' : e'.mapped = true)
    (hWrite : e'.mayWrite = true → e.mayWrite = true)
    (hCow : e'.cow = e.cow) (hNx : e'.nx = e.nx) : Follows b vp old e' where
  write := fun hMay => hFollows.write (hWrite hMay)
  absent := by
    intro hNot
    rw [hMapped'] at hNot
    cases hNot
  exec := by
    intro hOld hOldNx _
    rw [hCow, hNx]
    exact hFollows.exec hOld hOldNx (.inl hMapped)

/- A page that was not there comes to be. -/
theorem Follows.paged (hFollows : Follows b vp old e)
    (hAbsent : e.mapped = false) (hPageable : Pageable b vp)
    (hMapped' : e'.mapped = true) : Follows b vp old e' := by
  have hOld : old.mapped = false := by
    rcases hFollows.absent hAbsent with hOld | hNot
    · exact hOld
    · exact absurd hPageable hNot
  refine ⟨fun _ => .inr ⟨hOld, hPageable⟩, ?_, ?_⟩
  · intro hNot
    rw [hMapped'] at hNot
    cases hNot
  · intro hIs
    rw [hOld] at hIs
    cases hIs

/- A page that waited to be copied is written to. -/
theorem Follows.broken (hFollows : Follows b vp old e) (hCow : e.cow = true)
    (hMapped' : e'.mapped = true) (hCow' : e'.cow = false)
    (hNx : e'.nx = userPageIsNoexec (vp * pageSize)) : Follows b vp old e' where
  write := by
    intro _
    refine hFollows.write ?_
    simp [Pte.mayWrite, hCow]
  absent := by
    intro hNot
    rw [hMapped'] at hNot
    cases hNot
  exec := by
    intro hOld hOldNx _
    have hExec := hFollows.exec hOld hOldNx (.inr hCow)
    refine ⟨hNx.trans (hExec.2 hCow), ?_⟩
    intro hIs
    rw [hCow'] at hIs
    cases hIs

theorem Follows.fault {va : Nat} {isWrite : Bool} {rc : Int}
    (hFollows : Follows b (va / pageSize) old e)
    (hCase : FaultCase m b fr e va isWrite (fr', e', rc)) : Follows b (va / pageSize) old e' := by
  cases hCase with
  | refused | unread | uncopied => exact hFollows
  | backIn hIn =>
    refine hFollows.moved (mapped_of_inSwap hIn) rfl ?_ rfl rfl
    intro hMay
    simp only [Pte.mayWrite, Pte.storable, Pte.backIn, Pte.inSwap] at hMay
    simp only [Pte.mayWrite, hIn]
    revert hMay
    cases e.write <;> cases e.cow <;> simp
  | fresh hNotIn hWhy =>
    rcases hWhy with ⟨_, hCow, _⟩ | ⟨hAbsent, _, hIn⟩
    · exact hFollows.broken hCow rfl rfl (noexec_page va).symm
    · refine hFollows.paged ?_ ⟨va, rfl, hIn⟩ rfl
      simpa [Pte.mapped, Pte.inSwap, hAbsent] using hNotIn
  | zero hNotIn hAbsent _ hIn =>
    refine hFollows.paged ?_ ⟨va, rfl, hIn⟩ rfl
    simpa [Pte.mapped, Pte.inSwap, hAbsent] using hNotIn
  | copied _ _ hCow | inPlace _ _ hCow => exact hFollows.broken hCow rfl rfl (noexec_page va).symm

theorem Follows.evicted (hFollows : Follows b vp old e) (hOut : swapEvictable m fr e) (n : Nat) :
    Follows b vp old (e.goneOut n) := by
  obtain ⟨hPresent, hUser, hCow, _⟩ := hOut
  refine hFollows.moved ?_ rfl ?_ rfl rfl
  · simp [Pte.mapped, hPresent]
  · simp [Pte.mayWrite, Pte.storable, Pte.goneOut, Pte.inSwap, hPresent, hUser, hCow]

end Pages

----
-- Steps
----

/- The pages of the task all come from the parent's. -/
def Tracks (b : Bounds) (old : Space) (s : Pg) (u : Nat) : Prop :=
  ∀ sp, s.space u = some sp → s.bounds u = b ∧ ∀ vp, Follows b vp (old.leaf vp) (sp.leaf vp)

section Steps

variable {m : Machine} {b : Bounds} {old : Space} {s : Pg} {u : Nat}

/- The address space of one task is changed at one page. -/
theorem Tracks.set {sp' : Space} (hTracks : Tracks b old s u) (hSpace : s.space t = some sp)
    (hPages : t = u → ∀ vp, Follows b vp (old.leaf vp) (sp.leaf vp) →
        Follows b vp (old.leaf vp) (sp'.leaf vp)) :
    Tracks b old ((s.setFr fr).setSpace t (some sp')) u := by
  intro sp₁ hSp
  change update s.space t (some sp') u = some sp₁ at hSp
  rcases eq_or_ne u t with rfl | hSame
  · rw [update_self] at hSp
    cases hSp
    obtain ⟨hBounds, hAll⟩ := hTracks sp hSpace
    exact ⟨hBounds, fun vp => hPages rfl vp (hAll vp)⟩
  · rw [update_of_ne hSame] at hSp
    exact hTracks sp₁ hSp

theorem Tracks.evictPage (hTracks : Tracks b old s u) (t vp n : Nat) :
    Tracks b old (evictPage m s t vp n) u := by
  unfold Paging.evictPage
  split
  · exact hTracks
  case h_2 sp hSpace =>
    generalize hRes : evictLeaf m (s.bounds t) s.fr sp vp n = r
    refine hTracks.set hSpace fun _ vp' hFollows => ?_
    unfold evictLeaf at hRes
    split at hRes
    case isTrue hOut =>
      cases hRes
      rcases eq_or_ne vp' vp with rfl | hSame
      · rw [leaf_setLeaf_self]
        exact hFollows.evicted hOut.1 n
      · rw [leaf_setLeaf_other _ _ hSame]
        exact hFollows
    case isFalse =>
      cases hRes
      exact hFollows

theorem Tracks.evictAll (hTracks : Tracks b old s u) (victims : List (Nat × Nat × Nat)) :
    Tracks b old (evictAll m s victims) u := by
  induction victims generalizing s with
  | nil => exact hTracks
  | cons v _ ih => exact ih (hTracks.evictPage v.1 v.2.1 v.2.2)

theorem Tracks.demandFault (hTracks : Tracks b old s u) (t va : Nat) (isWrite read : Bool) :
    Tracks b old (demandFault m s t va isWrite read).1 u := by
  unfold Paging.demandFault
  split
  · exact hTracks
  case h_2 sp hSpace =>
    generalize hRes : faultSpace m (s.bounds t) s.fr sp va isWrite read = r
    obtain ⟨fr, sp', rc⟩ := r
    refine hTracks.set hSpace fun hWho vp hFollows => ?_
    subst hWho
    rcases faultSpace_cases hRes with ⟨hGrown, _⟩ | ⟨fr₁, sp₁, e, hGrown, hCase, rfl⟩
    · rw [hGrown.leaf]
      exact hFollows
    by_cases hSame : vp = va / pageSize
    · subst hSame
      rw [leaf_setLeaf_self]
      rw [(hTracks sp hSpace).1] at hCase
      exact hFollows.fault hCase
    · rw [leaf_setLeaf_other _ _ hSame, hGrown.leaf]
      exact hFollows

/- Faults, evictions and stores of any task. -/
def PgOp.isPaging : PgOp → Prop
  | .fault _ _ _ _ => True
  | .evict _ _ _ => True
  | .store _ _ _ _ => True
  | _ => False

theorem Tracks.apply (op : PgOp) (hTracks : Tracks b old s u)
    (hPaging : op.isPaging) : Tracks b old (s.apply m op) u := by
  cases op with
  | fault t va isWrite io =>
    change Tracks b old (faultStep m s t va isWrite io) u
    unfold faultStep
    split
    · exact hTracks
    · split
      · exact (hTracks.evictAll io.evict).demandFault t va isWrite io.read
      · exact hTracks
  | evict t vp n => exact hTracks.evictPage t vp n
  | store t vp off byte =>
    change Tracks b old (storeByte s t vp off byte) u
    unfold storeByte
    split
    · exact hTracks
    · split
      · exact hTracks
      · exact hTracks
  | _ => cases hPaging

end Steps

----
-- Fork
----

section Fork

variable {m : Machine} {b : Bounds} {psp : Space} {vp : Nat}

theorem ForkKeeps.self (hKeeps : ForkKeeps m b psp) (vp : Nat) :
    Follows b vp (psp.leaf vp) (psp.leaf vp) where
  write := .inl
  absent := .inl
  exec := fun hMapped hNx _ => ⟨hNx, fun hCow => hKeeps.exec vp hMapped hNx (.inl hCow)⟩

theorem shared_mapped (e : Pte) : e.shared.mapped = e.mapped := by
  rw [shared_eq]
  rfl

theorem shares_mapped {e : Pte} (hShares : e.Shares m) : e.mapped = true := by
  rcases hShares with hIn | ⟨hPresent, _⟩
  · exact mapped_of_inSwap hIn
  · simp [Pte.mapped, hPresent]

theorem ForkKeeps.shared_mayWrite (hKeeps : ForkKeeps m b psp) (hShares : (psp.leaf vp).Shares m)
    (hMay : (psp.leaf vp).shared.mayWrite = true) : (psp.leaf vp).mayWrite = true := by
  rcases hShares with hIn | hHere
  · unfold Pte.shared at hMay
    rw [if_pos hIn] at hMay
    split at hMay
    case isTrue hWrite => simp [Pte.mayWrite, hIn, hWrite]
    case isFalse => exact hMay
  · have hWrite := hKeeps.write vp (.inr hHere) hHere.1
    obtain ⟨hPresent, hUser, _⟩ := hHere
    rcases hWrite with hIs | hCow
    · simp [Pte.mayWrite, Pte.storable, hPresent, hUser, hIs]
    · simp [Pte.mayWrite, hCow]

theorem ForkKeeps.shared (hKeeps : ForkKeeps m b psp) (hShares : (psp.leaf vp).Shares m) :
    Follows b vp (psp.leaf vp) (psp.leaf vp).shared where
  write := fun hMay => .inl (hKeeps.shared_mayWrite hShares hMay)
  absent := by
    intro hNot
    rw [shared_mapped, shares_mapped hShares] at hNot
    cases hNot
  exec := by
    intro hMapped hNx _
    rw [shared_eq]
    exact ⟨hNx, fun hCow => hKeeps.exec vp hMapped hNx (.inr ⟨hCow, hShares⟩)⟩

/- What a fork leaves out is absent or the kernel's. -/
theorem ForkKeeps.skipped (hKeeps : ForkKeeps m b psp) (hSkipped : (psp.leaf vp).Skipped) :
    Follows b vp (psp.leaf vp) Pte.empty where
  write := nofun
  absent := by
    intro _
    obtain ⟨hNotIn, hWhy⟩ := hSkipped
    cases hPresent : (psp.leaf vp).present with
    | false =>
      refine .inl ?_
      simpa [Pte.mapped, Pte.inSwap, hPresent] using hNotIn
    | true =>
      rcases hWhy with hAbsent | hKernel
      · rw [hPresent] at hAbsent
        cases hAbsent
      · exact .inr (hKeeps.apart vp hPresent hKernel)
  exec := by
    intro _ _ hIs
    rcases hIs with hMapped | hCow
    · cases hMapped
    · cases hCow

theorem Follows.window (b : Bounds) (vp : Nat) (old : Pte) (w : Nat) :
    Follows b vp old (Pte.window w) where
  write := nofun
  absent := nofun
  exec := by
    intro _ _ _
    refine ⟨rfl, ?_⟩
    intro hCow
    cases hCow

/- A page that is in no entry is not there. -/
theorem leaf_of_not_mem_pages (hNot : vp ∉ sp.pages) : sp.leaf vp = Pte.empty := by
  have hKeys : vp ∉ sp.leaves.map Prod.fst := by
    intro hIn
    refine hNot ?_
    unfold Space.pages
    rw [(List.perm_insertionSort _ _).mem_iff, List.mem_dedup]
    exact hIn
  rw [Space.leaf, Table.get_eq_none hKeys]
  rfl

theorem ForkKeeps.parent {child : Space} {ok : Bool} (hKeeps : ForkKeeps m b psp)
    (hLoop : forkLoop m fr psp child psp.pages = (fr', psp', csp, ok))
    (vp : Nat) : Follows b vp (psp.leaf vp) (psp'.leaf vp) := by
  rcases forkLoop_parent (pages_nodup psp) hLoop vp with hSame | ⟨hShares, hShared⟩
  · rw [hSame]
    exact hKeeps.self vp
  · rw [hShared]
    exact hKeeps.shared hShares

theorem ForkKeeps.child {root : Nat} (hKeeps : ForkKeeps m b psp)
    (hLoop : forkLoop m fr psp ⟨root, [], []⟩ psp.pages = (fr', psp', csp, true))
    (vp : Nat) : Follows b vp (psp.leaf vp) (csp.leaf vp) := by
  by_cases hIn : vp ∈ psp.pages
  · rcases forkLoop_done (pages_nodup psp) hLoop hIn with
      ⟨hShares, _, hChild⟩ | ⟨hSkipped, _, hChild⟩
    · rw [hChild]
      exact hKeeps.shared hShares
    · rw [hChild]
      exact hKeeps.skipped hSkipped
  · have hOld := leaf_of_not_mem_pages hIn
    have hNew := (forkLoop_rest hIn hLoop).2
    rw [hNew]
    refine hKeeps.skipped ?_
    rw [hOld]
    exact ⟨rfl, .inl rfl⟩

/- After a fork, however it went, the parent; and the child. -/
theorem Tracks.cloneFresh {s : Pg} {child parent : Nat}
    (hNe : child ≠ parent) (hSpace : s.space parent = some psp) (hNone : s.space child = none)
    (hKeeps : ForkKeeps m (s.bounds parent) psp) : Tracks (s.bounds parent) psp
        (cloneFresh m s child parent psp).1 parent ∧
      Tracks (s.bounds parent) psp (cloneFresh m s child parent psp).1 child := by
  have hSelf : Tracks (s.bounds parent) psp s parent := by
    intro sp hSp
    rw [hSpace] at hSp
    cases hSp
    exact ⟨rfl, hKeeps.self⟩
  have hNothing : Tracks (s.bounds parent) psp s child := by
    intro sp hSp
    rw [hNone] at hSp
    cases hSp
  unfold Paging.cloneFresh
  split
  · exact ⟨hSelf, hNothing⟩
  case h_2 root fr hAlloc =>
    generalize hLoop : Paging.forkLoop m fr psp ⟨root, [], []⟩ psp.pages = r
    obtain ⟨fr₁, psp', csp, ok⟩ := r
    have hParent := hKeeps.parent hLoop
    cases ok with
    | false =>
      exact ⟨hSelf.set hSpace fun _ vp _ => hParent vp,
        hNothing.set hSpace fun hEq => absurd hEq hNe.symm⟩
    | true =>
    dsimp only
    generalize hWin : Paging.ensureWindows fr₁ csp m.windows = r
    constructor
    · intro sp hSp
      rw [forked_parent hNe] at hSp
      cases hSp
      exact ⟨update_of_ne hNe.symm _ _, hParent⟩
    intro sp hSp
    rw [forked_child] at hSp
    cases hSp
    refine ⟨update_self _ _ _, fun vp => ?_⟩
    rcases ensureWindows_leaf _ hWin vp with hSame | ⟨w, _, _, hWindow⟩
    · rw [hSame]
      exact hKeeps.child hLoop vp
    · rw [hWindow]
      exact Follows.window _ _ _ w

end Fork

theorem releaseOld_bounds (m : Machine) (loaded : List Nat) (s : Pg) (t : Nat) :
    (releaseOld m loaded s t).bounds = s.bounds := by
  unfold releaseOld
  split
  · rfl
  dsimp only
  split <;> rfl

theorem Tracks.clone {m : Machine} {s : Pg} {child parent u : Nat}
    {loaded : List Nat} {psp : Space} (hSpace : s.space parent = some psp)
    (hKeeps : ForkKeeps m (s.bounds parent) psp)
    (hWho : u = parent ∨ (u = child ∧ (cloneUserAspace m s child parent loaded).2 = 0)) :
    Tracks (s.bounds parent) psp (cloneUserAspace m s child parent loaded).1 u := by
  unfold cloneUserAspace at hWho ⊢
  by_cases hOk : isTask child ∧ child ≠ parent
  · rw [if_pos hOk, hSpace] at hWho ⊢
    have hNe := hOk.2
    have hBoth := Tracks.cloneFresh (m := m) (s := releaseOld m loaded s child) hNe
      ((releaseOld_other m loaded s hNe.symm).trans hSpace)
      (releaseOld_none m loaded s child)
      (by rw [releaseOld_bounds]; exact hKeeps)
    rw [releaseOld_bounds] at hBoth
    rcases hWho with rfl | ⟨rfl, _⟩
    · exact hBoth.1
    · exact hBoth.2
  · rw [if_neg hOk] at hWho ⊢
    rcases hWho with rfl | ⟨_, hZero⟩
    · intro sp hSp
      rw [hSpace] at hSp
      cases hSp
      exact ⟨rfl, hKeeps.self⟩
    · cases hZero

/-
  After a fork, and whatever faults and evictions follow, a
  page of parent or child is writable only if the parent could
  have written it, and is not executable if the parent had it
  mapped without execution.
-/
theorem fork_keeps_protection {m : Machine} {s s' : Pg} {child parent u : Nat}
    {loaded : List Nat} {psp sp : Space} (hSpace : s.space parent = some psp)
    (hKeeps : ForkKeeps m (s.bounds parent) psp)
    (hRun : Run (Pg.apply m) (fun _ op => op.isPaging)
        (cloneUserAspace m s child parent loaded).1 s')
    (hWho : u = parent ∨ (u = child ∧ (cloneUserAspace m s child parent loaded).2 = 0))
    (hSp : s'.space u = some sp) (vp : Nat) :
    ((sp.leaf vp).storable = true → LazilyWritable (s.bounds parent) vp (psp.leaf vp)) ∧
      ((psp.leaf vp).mapped = true → (psp.leaf vp).nx = true → (sp.leaf vp).fetchable = false) := by
  have hTracks := hRun.invariant (fun s => Tracks (s := s) _ psp u)
      (fun _ op hTracks hPaging => hTracks.apply op hPaging)
      (Tracks.clone hSpace hKeeps hWho)
  have hFollows := (hTracks sp hSp).2 vp
  constructor
  · intro hStorable
    refine hFollows.write ?_
    simp [Pte.mayWrite, hStorable]
  intro hMapped hNx
  cases hFetch : (sp.leaf vp).fetchable with
  | false => rfl
  | true =>
  simp only [Pte.fetchable, Bool.and_eq_true, Bool.not_eq_true'] at hFetch
  obtain ⟨⟨hPresent, _⟩, hExec⟩ := hFetch
  have hIs : (sp.leaf vp).mapped = true := by
    simp [Pte.mapped, hPresent]
  rw [(hFollows.exec hMapped hNx (.inl hIs)).1] at hExec
  cases hExec

/- The condition, looked up page by page. -/
def forkKeepsCheck (sp : Space) : Bool :=
  sp.pages.all fun vp =>
    (sp.leaf vp).present && (sp.leaf vp).user && !(sp.leaf vp).swapped &&
      ((sp.leaf vp).write || (sp.leaf vp).cow) &&
      (!(sp.leaf vp).nx || userPageIsNoexec (vp * pageSize))

theorem ForkKeeps.of_check {m : Machine} (b : Bounds)
    (hCheck : forkKeepsCheck sp = true) : ForkKeeps m b sp := by
  have hPage : ∀ vp, sp.leaf vp = Pte.empty ∨
      (((sp.leaf vp).present = true ∧ (sp.leaf vp).user = true) ∧
        ((sp.leaf vp).write = true ∨ (sp.leaf vp).cow = true) ∧
        ((sp.leaf vp).nx = false ∨ userPageIsNoexec (vp * pageSize) = true)) := by
    intro vp
    by_cases hIn : vp ∈ sp.pages
    · have hAll := List.all_eq_true.mp hCheck vp hIn
      simp only [Bool.and_eq_true, Bool.or_eq_true, Bool.not_eq_true'] at hAll
      obtain ⟨⟨⟨hHere, _⟩, hWrite⟩, hNx⟩ := hAll
      exact .inr ⟨hHere, hWrite, hNx⟩
    · exact .inl (leaf_of_not_mem_pages hIn)
  refine ⟨?_, ?_, ?_⟩
  · intro vp _ hPresent
    rcases hPage vp with hEmpty | ⟨_, hWrite, _⟩
    · rw [hEmpty] at hPresent
      cases hPresent
    · exact hWrite
  · intro vp hMapped hNx _
    rcases hPage vp with hEmpty | ⟨_, _, hNot | hNoexec⟩
    · rw [hEmpty] at hMapped
      cases hMapped
    · rw [hNx] at hNot
      cases hNot
    · exact hNoexec
  · intro vp hPresent hKernel
    rcases hPage vp with hEmpty | ⟨hHere, _⟩
    · rw [hEmpty] at hPresent
      cases hPresent
    · rw [hHere.2] at hKernel
      cases hKernel

/- The address space of a task that has one. -/
def Pg.spaceOf (s : Pg) (t : Nat) : Space := (s.space t).getD ⟨0, [], []⟩

theorem space_of_isSome {s : Pg} (hSome : (s.space t).isSome = true) :
    s.space t = some (s.spaceOf t) := by
  unfold Pg.spaceOf
  cases hSpace : s.space t with
  | none =>
    rw [hSpace] at hSome
    cases hSome
  | some => rfl

/- Task 1 with its image page and its stack. -/
def oneTask : Pg := smallBoot.apply smallMachine (.create 1 0 1 [])

/- The child of task 1 writes to the image page. -/
def childWrites : Pg :=
  (cloneUserAspace smallMachine oneTask 2 1 []).1.apply
    smallMachine (.fault 2 0x400000 true ⟨[], true⟩)

theorem fork_keeps_protection_plainFork : ((childWrites.spaceOf 2).leaf 0x400).storable = true ∧
      LazilyWritable (oneTask.bounds 1) 0x400 ((oneTask.spaceOf 1).leaf 0x400) := by
  have hWrites : ((childWrites.spaceOf 2).leaf 0x400).storable = true := by
    decide +kernel
  have hRun : Run (Pg.apply smallMachine) (fun _ op => op.isPaging)
        (cloneUserAspace smallMachine oneTask 2 1 []).1
        childWrites :=
    Run.single (PgOp.fault 2 0x400000 true ⟨[], true⟩) trivial
  have hParent : oneTask.space 1 = some (oneTask.spaceOf 1) := space_of_isSome (by decide +kernel)
  have hChild : childWrites.space 2 = some (childWrites.spaceOf 2) :=
    space_of_isSome (by decide +kernel)
  have hKeeps : ForkKeeps smallMachine (oneTask.bounds 1) (oneTask.spaceOf 1) :=
    ForkKeeps.of_check _ (by decide +kernel)
  exact ⟨hWrites, (fork_keeps_protection hParent hKeeps hRun
      (.inr ⟨rfl, by decide +kernel⟩) hChild 0x400).1 hWrites⟩

/-
  Task 1 with a device page that it may only read, and a page
  of data without execution, both outside the windows in which
  a break keeps pages from being executed.
-/
def deviceTask : Pg :=
  runAll (Pg.apply smallMachine) smallBoot [.create 1 0 1 [], .mapDevice 1 0x500 0xFEB00000 false,
      .privateCopy 1 0x501 zeroPage]

/- The child writes to both, by way of `copy_to_user`. -/
def deviceChild : Pg :=
  runAll (Pg.apply smallMachine) (cloneUserAspace smallMachine deviceTask 2 1 []).1
    [.fault 2 0x500000 true ⟨[], true⟩, .fault 2 0x501000 true ⟨[], true⟩]

/- The child writes the device, and executes the data. -/
theorem fork_loses_protection : (cloneUserAspace smallMachine deviceTask 2 1 []).2 = 0 ∧
      ((deviceTask.spaceOf 1).leaf 0x500).mayWrite = false ∧
      ((deviceTask.spaceOf 1).leaf 0x500).mapped = true ∧
      ((deviceChild.spaceOf 2).leaf 0x500).storable = true ∧
      ((deviceChild.spaceOf 2).leaf 0x500).addr = 0xFEB00000 ∧
      ((deviceTask.spaceOf 1).leaf 0x501).nx = true ∧
      ((deviceTask.spaceOf 1).leaf 0x501).mapped = true ∧
      ((deviceChild.spaceOf 2).leaf 0x501).fetchable =
        true := by
  decide +kernel

end Horus.Paging
