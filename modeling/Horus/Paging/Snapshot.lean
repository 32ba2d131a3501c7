import Horus.Paging.Views
import Horus.Paging.Protect

/-
  Fork is a snapshot and paging is invisible.

  The log records what was written, which task was forked from
  which, and whose memory was cleared. What a task is to read
  at an address is said by the log alone: the byte it last wrote
  there, or what its parent was to read when it was forked, or
  zero. In every run that has only pages of this kind, with
  faults, evictions and the reuse of task slots at any point,
  a read returns exactly this.

  Main declarations:
    * `MemEvent`, `expected`, `Traced`
    * `Plain`, `AllPlain`, `Snapshot`
    * `fork_is_snapshot`
-/

namespace Horus.Paging

open Function
open Lib

variable {ok nx : Bool} {vp u child parent : Nat} {psp : Space}

/-
  `cleared` is a task slot that gets a new address space, or
  loses the one it had.
-/
inductive MemEvent where
  | wrote (t vp off : Nat) (byte : UInt8)
  | forked (child parent : Nat)
  | cleared (t : Nat)
deriving DecidableEq, Repr

/- The byte a task is to read, by the log, newest first. -/
def expected : List MemEvent → Nat → Nat → Nat → UInt8
  | [], _, _, _ => 0
  | .wrote t' vp' off' byte :: log, t, vp, off =>
    if t' = t ∧ vp' = vp ∧ off' = off then byte else expected log t vp off
  | .forked child parent :: log, t, vp, off =>
    if t = child then expected log parent vp off else expected log t vp off
  | .cleared t' :: log, t, vp, off => if t = t' then 0 else expected log t vp off

/- What a step adds to the log. -/
def memEvents (m : Machine) (s : Pg) : PgOp → List MemEvent
  | .store t vp off byte => if (s.leaf t vp).storable then [.wrote t vp off byte] else []
  | .clone child parent loaded =>
    if (cloneUserAspace m s child parent loaded).2 = 0 then [.forked child parent]
    else if (cloneUserAspace m s child parent loaded).2 = -1 then []
    else [.cleared child]
  | .create t _ _ _ => if isTask t then [.cleared t] else []
  | .forget t => [.cleared t]
  | _ => []

/- The system with its log. -/
structure Traced where
  pg : Pg
  log : List MemEvent

def Traced.apply (m : Machine) (st : Traced) (op : PgOp) : Traced where
  pg := st.pg.apply m op
  log := memEvents m st.pg op ++ st.log

/- Every step but those that map objects and devices. -/
def PgOp.anonymous : PgOp → Prop
  | .mapDevice _ _ _ _ => False
  | .mapFrame _ _ _ _ _ => False
  | .unmapFrame _ _ _ => False
  | .privateCopy _ _ _ => False
  | _ => True

instance (op : PgOp) : Decidable op.anonymous := by
  rcases op <;> first | exact instDecidableFalse | exact instDecidableTrue

/- A read by the task, when the hardware allows it. -/
def readByte (s : Pg) (t vp off : Nat) : Option UInt8 :=
  if (s.leaf t vp).present && (s.leaf t vp).user then some (s.fr.mem (s.leaf t vp).addr off)
  else none

/- No register page of the kernel lies at the page. -/
def Ordinary (m : Machine) (vp : Nat) : Prop := ∀ w ∈ m.windows, vp ≠ w / pageSize

----
-- Pages of the Task's Own
----

def Plain (m : Machine) (e : Pte) : Prop := (e.mapped = true → e.user = true) ∧ e.Private m

section Plain

variable {m : Machine} {fr fr' : Frames} {sp sp' : Space}
    {es : List Pte} {ts : List Nat} {e e' : Pte}

theorem plain_empty (m : Machine) : Plain m Pte.empty := by
  constructor
  · nofun
  · nofun

theorem shared_user (e : Pte) : e.shared.user = e.user := by
  rw [shared_eq]

theorem plain_shared : Plain m e.shared ↔ Plain m e := by
  rw [Plain, Plain, private_shared, shared_user, shared_mapped]

theorem Move.user (hMove : Move m e e') (hUser : e.mapped = true → e.user = true) :
    e'.mapped = true → e'.user = true := by
  cases hMove with
  | out hOut => exact fun _ => hOut.2.1
  | share =>
    intro hMapped
    rw [shared_user]
    rw [shared_mapped] at hMapped
    exact hUser hMapped
  | sealing => exact hUser
  | fault hOk hCase =>
  have hHere : e.inSwap = false → e.cow = true → e.user = true := by
    intro hNotIn hCow
    refine hUser ?_
    simp [Pte.mapped, hOk.present hNotIn hCow]
  cases hCase with
  | refused | unread | uncopied => exact hUser
  | backIn hIn => exact fun _ => hUser (mapped_of_inSwap hIn)
  | fresh | zero => exact fun _ => rfl
  | copied hNotIn _ hCow | inPlace hNotIn _ hCow => exact fun _ => hHere hNotIn hCow

theorem Moved.user (hMoved : Moved m e e') (hUser : e.mapped = true → e.user = true) :
    e'.mapped = true → e'.user = true := by
  induction hMoved with
  | refl => exact hUser
  | tail _ hMove ih => exact hMove.user ih

theorem GoodAt.plain_buildSpace {image : List Nat}
    (hGood : GoodAt m fr sp es ts) (hPlain : ∀ vp, Plain m (sp.leaf vp))
    (hBuild : Paging.buildSpace m fr sp image = (fr', sp', ok)) : ∀ vp, Plain m (sp'.leaf vp) := by
  refine (buildSpace_induction (P := fun fr sp => GoodAt m fr sp es ts ∧ ∀ vp, Plain m (sp.leaf vp))
    ?_ ⟨hGood, hPlain⟩ hBuild).2
  rintro _ _ vp _ _ _ _ ⟨hGood₁, hPlain₁⟩ hCase
  refine ⟨hGood₁.freshCase hCase, fun vp' => ?_⟩
  cases hCase with
  | refused => exact hPlain₁ vp'
  | unmapped _ hGrown =>
    rw [hGrown.leaf]
    exact hPlain₁ vp'
  | mapped hAlloc hGrown =>
    rcases eq_or_ne vp' vp with rfl | hSame
    · rw [leaf_setLeaf_self]
      have hFree := Good.free hGood₁ _ (alloc_mem hAlloc)
      exact ⟨fun _ => rfl, fun _ => ⟨hFree.1, hFree.2.2.1⟩⟩
    · rw [leaf_setLeaf_other _ _ hSame, hGrown.leaf]
      exact hPlain₁ vp'

end Plain

----
-- The Invariant
----

/- Every ordinary page is plain. -/
def AllPlain (m : Machine) (s : Pg) : Prop := ∀ u vp, Ordinary m vp → Plain m (s.leaf u vp)

section AllPlain

variable {m : Machine} {s : Pg} {t : Nat}

theorem AllPlain.at {sp : Space} (hAll : AllPlain m s)
    (hSpace : s.space t = some sp) (hOrdinary : Ordinary m vp) : Plain m (sp.leaf vp) := by
  have hPlain := hAll t vp hOrdinary
  rw [leaf_of_space hSpace] at hPlain
  exact hPlain

theorem plain_none (hNone : s.space t = none) : Plain m (s.leaf t vp) := by
  rw [Pg.leaf, hNone]
  exact plain_empty m

theorem AllPlain.untouched (hAll : AllPlain m s)
    (hPool : PoolGood m s) (hOrdinary : Ordinary m vp) (op : PgOp)
    (hNot : ¬ op.Touches u vp) : Plain m ((s.apply m op).leaf u vp) := by
  have hPlain := hAll u vp hOrdinary
  obtain ⟨hMoved, hPrivate, _⟩ := hPool.kept_apply op hNot hPlain.2
  exact ⟨hMoved.user hPlain.1, hPrivate⟩

theorem PoolGood.plain_createFresh (hPool : PoolGood m s)
    (hTask : t < maxTasks) (hNone : s.space t = none) (image : List Nat)
    (hOrdinary : Ordinary m vp) : Plain m ((Paging.createFresh m s t image).leaf t vp) := by
  have hOthers := hPool.others_of_none hTask hNone
  unfold Paging.createFresh
  split
  · exact plain_none hNone
  case h_2 root fr hAlloc =>
    have hRoot := GoodAt.root (hOthers.alloc hAlloc)
    generalize hBuild : Paging.buildSpace m fr ⟨root, [], []⟩ image = r
    obtain ⟨fr₁, sp, ok⟩ := r
    have hPlain := hRoot.plain_buildSpace (fun _ => plain_empty m) hBuild
    cases ok with
    | false => exact plain_none hNone
    | true =>
    dsimp only
    generalize hWin : ensureWindows fr₁ sp m.windows = r
    rw [leaf_setSpace_self]
    rcases ensureWindows_leaf _ hWin vp with hSame | ⟨w, hIn, hPage, _⟩
    · rw [hSame]
      exact hPlain vp
    · exact absurd hPage (hOrdinary w hIn)

/- What the child of a fork has at an ordinary page. -/
theorem child_leaf {fr fr' fr'' : Frames} {root : Nat} {psp' csp csp' : Space}
    (hLoop : forkLoop m fr psp ⟨root, [], []⟩ psp.pages = (fr', psp', csp, true))
    (hWin : ensureWindows fr' csp m.windows = (fr'', csp'))
    (hOrdinary : Ordinary m vp) (hPlain : Plain m (psp.leaf vp)) :
    csp'.leaf vp = (psp.leaf vp).shared ∨ ((psp.leaf vp).mapped = false ∧
        csp'.leaf vp = Pte.empty) := by
  have hSame : csp'.leaf vp = csp.leaf vp := by
    rcases ensureWindows_leaf _ hWin vp with hSame | ⟨w, hIn, hPage, _⟩
    · exact hSame
    · exact absurd hPage (hOrdinary w hIn)
  rw [hSame]
  by_cases hIn : vp ∈ psp.pages
  · rcases forkLoop_done (pages_nodup psp) hLoop hIn with
      ⟨_, _, hChild⟩ | ⟨⟨hNotIn, hWhy⟩, _, hChild⟩
    · exact .inl hChild
    right
    refine ⟨?_, hChild⟩
    cases hMapped : (psp.leaf vp).mapped with
    | false => rfl
    | true =>
    have hUser := hPlain.1 hMapped
    rcases hWhy with hAbsent | hKernel
    · simp [Pte.mapped, Pte.inSwap, hAbsent] at hMapped hNotIn
      rw [hNotIn] at hMapped
      cases hMapped
    · rw [hUser] at hKernel
      cases hKernel
  · right
    rw [leaf_of_not_mem_pages hIn, (forkLoop_rest hIn hLoop).2]
    exact ⟨rfl, rfl⟩

theorem plain_cloneFresh (hNone : s.space child = none) (hNe : child ≠ parent)
    (hOrdinary : Ordinary m vp) (hPlain : Plain m (psp.leaf vp)) : Plain m
      ((cloneFresh m s child parent psp).1.leaf child vp) := by
  unfold cloneFresh
  split
  · exact plain_none hNone
  case h_2 root fr hAlloc =>
    generalize hLoop : forkLoop m fr psp ⟨root, [], []⟩ psp.pages = r
    obtain ⟨fr₁, psp', csp, ok⟩ := r
    cases ok with
    | false =>
      refine plain_none ?_
      exact (update_of_ne hNe _ _).trans hNone
    | true =>
    dsimp only
    generalize hWin : ensureWindows fr₁ csp m.windows = r
    rw [leaf_of_space forked_child]
    rcases child_leaf hLoop hWin hOrdinary hPlain with hShared | ⟨_, hEmpty⟩
    · rw [hShared]
      exact plain_shared.mpr hPlain
    · rw [hEmpty]
      exact plain_empty m

theorem AllPlain.apply (hAll : AllPlain m s) (hPool : PoolGood m s)
    (op : PgOp) (hAnon : op.anonymous) : AllPlain m (s.apply m op) := by
  intro u vp hOrdinary
  by_cases hTouch : op.Touches u vp
  case neg => exact hAll.untouched hPool hOrdinary op hTouch
  cases op with
  | create t base count loaded =>
    obtain rfl : u = t := hTouch
    change Plain m ((createUserPagedir m s u base count loaded).leaf u vp)
    unfold createUserPagedir
    split
    case isTrue hTask =>
      exact (hPool.releaseOld loaded u).plain_createFresh
        hTask.2 (releaseOld_none m loaded s u) _ hOrdinary
    case isFalse => exact hAll u vp hOrdinary
  | clone child parent loaded =>
    obtain rfl : u = child := hTouch
    change Plain m ((cloneUserAspace m s u parent loaded).1.leaf u vp)
    unfold cloneUserAspace
    split
    case isTrue hOk =>
      split
      · exact hAll u vp hOrdinary
      case h_2 psp hSpace =>
        exact plain_cloneFresh (releaseOld_none m loaded s u)
          hOk.2 hOrdinary (hAll.at hSpace hOrdinary)
    case isFalse => exact hAll u vp hOrdinary
  | store t vp' off byte =>
    change Plain m ((storeByte s t vp' off byte).leaf u vp)
    unfold storeByte
    split
    · exact hAll u vp hOrdinary
    · split
      · exact hAll u vp hOrdinary
      · exact hAll u vp hOrdinary
  | forget t =>
    obtain rfl : u = t := hTouch
    exact plain_none (update_self _ _ _)
  | mapDevice | mapFrame | unmapFrame | privateCopy => cases hAnon
  | _ => cases hTouch

end AllPlain

section Shows

variable {m : Machine} {s : Pg} {t vp : Nat}

theorem view_none (hNone : s.space t = none) : s.view t vp = zeroPage := by
  rw [Pg.view, Pg.leaf, hNone]
  exact content_empty _

theorem view_storeByte (off : Nat) (byte : UInt8) :
    (storeByte s t vp off byte).view t vp = if (s.leaf t vp).storable then
        update (s.view t vp) off byte
      else s.view t vp := by
  unfold storeByte
  split
  case h_1 hNone =>
    have hNot : (s.leaf t vp).storable = false := by
      rw [Pg.leaf, hNone]
      rfl
    rw [hNot, if_neg Bool.false_ne_true]
  case h_2 sp hSpace =>
    rw [leaf_of_space hSpace]
    by_cases hMay : (sp.leaf vp).storable = true
    · rw [if_pos hMay, if_pos hMay]
      have hHere := (storable_iff.mp hMay).1
      have hLeaf : ∀ fr, (s.setFr fr).leaf t vp = sp.leaf vp :=
        fun fr => leaf_of_space (s := s.setFr fr) hSpace vp
      rw [Pg.view, Pg.view, hLeaf, leaf_of_space hSpace]
      rw [content_present hHere, content_present hHere]
      exact update_self _ _ _
    · rw [if_neg hMay, if_neg hMay]

theorem view_createUserPagedir (hPool : PoolGood m s) (hTask : isTask t)
    (base count : Nat) (loaded : List Nat) (hOrdinary : Ordinary m vp) :
    (createUserPagedir m s t base count loaded).view t vp =
      zeroPage := by
  rw [createUserPagedir, if_pos hTask]
  rcases (hPool.releaseOld loaded t).blank_createFresh hTask.2
      (releaseOld_none m loaded s t) (imagePages base count) vp
    with hBlank | ⟨w, hIn, hPage⟩
  · exact hBlank
  · exact absurd hPage (hOrdinary w hIn)

/- What the child of a fork sees. -/
theorem view_cloneFresh (hNone : s.space child = none) (hNe : child ≠ parent)
    (hSpace : s.space parent = some psp) (hOrdinary : Ordinary m vp)
    (hPlain : Plain m (psp.leaf vp)) :
    ((cloneFresh m s child parent psp).2 = 0 ∧ (cloneFresh m s child parent psp).1.view child vp =
          s.view parent vp) ∨
      ((cloneFresh m s child parent psp).2 ≠ 0 ∧ (cloneFresh m s child parent psp).2 ≠ -1 ∧
        (cloneFresh m s child parent psp).1.view child vp = zeroPage) := by
  unfold cloneFresh
  split
  · refine .inr ⟨?_, ?_, view_none hNone⟩
    · change (-2 : Int) ≠ 0
      decide
    · change (-2 : Int) ≠ -1
      decide
  case h_2 root fr hAlloc =>
    generalize hLoop : Paging.forkLoop m fr psp ⟨root, [], []⟩ psp.pages = r
    obtain ⟨fr₁, psp', csp, ok⟩ := r
    cases ok with
    | false =>
      refine .inr ⟨?_, ?_, view_none ?_⟩
      · change (-3 : Int) ≠ 0
        decide
      · change (-3 : Int) ≠ -1
        decide
      · exact (update_of_ne hNe _ _).trans hNone
    | true =>
    dsimp only
    generalize hWin : Paging.ensureWindows fr₁ csp m.windows = r
    obtain ⟨fr₂, csp'⟩ := r
    refine .inl ⟨rfl, ?_⟩
    have hContent : ∀ e, fr₂.content e = s.fr.content e := by
      intro e
      rw [ensureWindows_content _ hWin, forkLoop_content (pages_nodup psp) (fun _ _ => rfl)
          hLoop, (alloc_store hAlloc).content]
    rw [Pg.view, Pg.view, leaf_of_space forked_child, leaf_of_space hSpace]
    refine (hContent _).trans ?_
    rcases child_leaf hLoop hWin hOrdinary hPlain with hShared | ⟨hAbsent, hEmpty⟩
    · rw [hShared, content_shared]
    · simp only [Pte.mapped, Bool.or_eq_false_iff] at hAbsent
      rw [hEmpty, content_empty, content_absent hAbsent.1]
      simp [Pte.inSwap, hAbsent.2]

end Shows

----
-- The Snapshot
----

structure Snapshot (m : Machine) (st : Traced) : Prop where
  pool : PoolGood m st.pg
  plain : AllPlain m st.pg
  view : ∀ u vp off, Ordinary m vp → st.pg.view u vp off = expected st.log u vp off

section Steps

variable {m : Machine} {st : Traced}

/- A page that the step is not about. -/
theorem Snapshot.untouched (hSnap : Snapshot m st) (op : PgOp)
    (hOrdinary : Ordinary m vp) (hNot : ¬ op.Touches u vp) (off : Nat) :
    (st.pg.apply m op).view u vp off = expected st.log u vp off := by
  have hPrivate := (hSnap.plain u vp hOrdinary).2
  rw [(hSnap.pool.kept_apply op hNot hPrivate).2.2]
  exact hSnap.view u vp off hOrdinary

theorem Snapshot.clone_view (hSnap : Snapshot m st) (child parent : Nat) (loaded : List Nat)
    (hOrdinary : Ordinary m vp) (off : Nat) :
    (st.apply m (.clone child parent loaded)).pg.view u vp off =
      expected (st.apply m (.clone child parent loaded)).log u vp off := by
  have hOther : u ≠ child → (st.pg.apply m (.clone child parent loaded)).view u vp
          off = expected st.log u vp off :=
    fun hNe => hSnap.untouched (.clone child parent loaded) hOrdinary hNe off
  change (cloneUserAspace m st.pg child parent loaded).1.view u vp off = expected (memEvents m st.pg
      (.clone child parent loaded) ++ st.log) u vp off
  change u ≠ child → (cloneUserAspace m st.pg child parent loaded).1.view u vp off = _ at hOther
  dsimp only [memEvents]
  by_cases hOk : isTask child ∧ child ≠ parent
  · cases hSpace : st.pg.space parent with
    | none =>
      have hSame : cloneUserAspace m st.pg child parent loaded = (st.pg, -1) := by
        rw [cloneUserAspace, if_pos hOk, hSpace]
      rw [hSame]
      exact hSnap.view u vp off hOrdinary
    | some psp =>
      have hNe := hOk.2
      have hFresh : cloneUserAspace m st.pg child parent loaded =
            cloneFresh m (releaseOld m loaded st.pg child) child parent psp := by
        rw [cloneUserAspace, if_pos hOk, hSpace]
      have hParent := (releaseOld_other m loaded st.pg hNe.symm).trans hSpace
      have hChild := view_cloneFresh (releaseOld_none m loaded st.pg child) hNe hParent
        hOrdinary (hSnap.plain.at hSpace hOrdinary)
      rw [← hFresh] at hChild
      rcases hChild with ⟨hZero, hView⟩ | ⟨hNot, hNot', hView⟩
      · rw [if_pos hZero]
        rcases eq_or_ne u child with rfl | hIs
        · have hKept : Kept m st.pg (releaseOld m loaded st.pg u) parent vp :=
            hSnap.pool.kept_releaseOld loaded hNe.symm
          rw [hView, (hKept (hSnap.plain parent vp hOrdinary).2).2.2]
          simp only [List.singleton_append, expected, if_pos trivial]
          exact hSnap.view parent vp off hOrdinary
        · rw [hOther hIs]
          simp only [List.singleton_append, expected, if_neg hIs]
      · rw [if_neg hNot, if_neg hNot']
        rcases eq_or_ne u child with rfl | hIs
        · rw [hView]
          simp [expected, zeroPage]
        · rw [hOther hIs]
          simp only [List.singleton_append, expected, if_neg hIs]
  · have hSame : cloneUserAspace m st.pg child parent loaded = (st.pg, -1) := by
      rw [cloneUserAspace, if_neg hOk]
    rw [hSame]
    exact hSnap.view u vp off hOrdinary

theorem Snapshot.step_view (hSnap : Snapshot m st) (op : PgOp)
    (hAnon : op.anonymous) (hOrdinary : Ordinary m vp)
    (off : Nat) : (st.apply m op).pg.view u vp off = expected (st.apply m op).log u vp off := by
  cases op with
  | create t base count loaded =>
    change (createUserPagedir m st.pg t base count
      loaded).view u vp off = expected ((if isTask t then [.cleared t] else []) ++ st.log) u vp off
    by_cases hTask : isTask t
    · rw [if_pos hTask]
      rcases eq_or_ne u t with rfl | hIs
      · rw [view_createUserPagedir hSnap.pool hTask base count loaded hOrdinary]
        simp [expected, zeroPage]
      · refine (hSnap.untouched (.create t base count loaded) hOrdinary hIs off).trans ?_
        simp only [List.singleton_append, expected, if_neg hIs]
    · rw [if_neg hTask, createUserPagedir, if_neg hTask]
      exact hSnap.view u vp off hOrdinary
  | clone child parent loaded => exact hSnap.clone_view child parent loaded hOrdinary off
  | store t vp' off' byte =>
    change (storeByte st.pg t vp' off' byte).view u vp off =
      expected ((if (st.pg.leaf t vp').storable then
        [.wrote t vp' off' byte] else []) ++ st.log) u vp off
    by_cases hIs : u = t ∧ vp = vp'
    · obtain ⟨rfl, rfl⟩ := hIs
      rw [view_storeByte]
      split
      · rcases eq_or_ne off' off with rfl | hOff
        · simp [expected]
        rw [update_of_ne (Ne.symm hOff)]
        simp only [List.singleton_append, expected, hOff, and_false, if_false]
        exact hSnap.view u vp off hOrdinary
      · exact hSnap.view u vp off hOrdinary
    · refine (hSnap.untouched (.store t vp' off' byte) hOrdinary hIs off).trans ?_
      split
      · have hNot : ¬ (t = u ∧ vp' = vp ∧ off' = off) := by
          rintro ⟨rfl, rfl, _⟩
          exact hIs ⟨rfl, rfl⟩
        simp only [List.singleton_append, expected, if_neg hNot]
      · rfl
  | forget t =>
    change (st.pg.setSpace t none).view u vp off = expected ([.cleared t] ++ st.log) u vp off
    rcases eq_or_ne u t with rfl | hIs
    · rw [view_none (update_self _ _ _)]
      simp [expected, zeroPage]
    · refine (hSnap.untouched (.forget t) hOrdinary hIs off).trans ?_
      simp only [List.singleton_append, expected, if_neg hIs]
  | fault | evict | sealRange | pin | unpin | kalloc | setBounds =>
    exact hSnap.untouched _ hOrdinary id off
  | mapDevice | mapFrame | unmapFrame | privateCopy => cases hAnon

theorem poolOk_of_anonymous (s : Pg) {op : PgOp} (hAnon : op.anonymous) : PoolOk m s op := by
  cases op with
  | mapDevice | mapFrame => cases hAnon
  | _ => trivial

theorem Snapshot.apply (hClean : ∀ w ∈ m.windows, m.refcIndex w = none)
    (hSnap : Snapshot m st) (op : PgOp) (hAnon : op.anonymous) : Snapshot m (st.apply m op) where
  pool := hSnap.pool.apply hClean op (poolOk_of_anonymous st.pg hAnon)
  plain := hSnap.plain.apply hSnap.pool op hAnon
  view := fun _ _ off hOrdinary => hSnap.step_view op hAnon hOrdinary off

end Steps

theorem Snapshot.boot {m : Machine} {free : List Nat} (hBoot : BootOk m free) (mem : Nat → Page) :
    Snapshot m ⟨Pg.boot m free mem, []⟩ where
  pool := PoolGood.boot hBoot mem
  plain := fun _ _ _ => plain_empty m
  view := fun _ _ _ _ => congrFun (view_none rfl) _

/-
  Each read of a task returns the byte that the task last wrote
  there, or the one its parent held there when it was forked,
  or zero.
-/
theorem fork_is_snapshot {m : Machine} {free : List Nat} {mem : Nat → Page}
    {st : Traced} (hBoot : BootOk m free) (hClean : ∀ w ∈ m.windows, m.refcIndex w = none)
    (hRun : Run (Traced.apply m) (fun _ op => op.anonymous) ⟨Pg.boot m free mem, []⟩ st)
    {u vp off : Nat} {byte : UInt8} (hOrdinary : Ordinary m vp)
    (hRead : readByte st.pg u vp off = some byte) : byte = expected st.log u vp off := by
  have hSnap := hRun.invariant (Snapshot m) (fun _ op hSnap hAnon => hSnap.apply hClean op hAnon)
      (Snapshot.boot hBoot mem)
  rw [← hSnap.view u vp off hOrdinary]
  unfold readByte at hRead
  split at hRead
  case isTrue hMay =>
    cases hRead
    rw [Bool.and_eq_true] at hMay
    rw [Pg.view, content_present hMay.1]
  case isFalse => cases hRead

/- A task writes, forks, and both write to the page. -/
def writeForkWrite : List PgOp :=
  [.create 1 0 1 [], .store 1 0x400 0 7, .clone 2 1 [],
    .fault 2 0x400000 true ⟨[], true⟩, .store 2 0x400 0 8]

theorem fork_is_snapshot_writeForkWrite :
    readByte (runAll (Traced.apply smallMachine)
      ⟨smallBoot, []⟩ writeForkWrite).pg 1 0x400 0 = some 7 ∧
      (7 : UInt8) = expected (runAll (Traced.apply smallMachine)
        ⟨smallBoot, []⟩ writeForkWrite).log 1 0x400 0 := by
  have hRead : readByte (runAll (Traced.apply smallMachine)
        ⟨smallBoot, []⟩ writeForkWrite).pg 1 0x400 0 = some 7 := by
    decide +kernel
  have hRun : Run (Traced.apply smallMachine) (fun _ op => op.anonymous) ⟨smallBoot, []⟩
        (runAll (Traced.apply smallMachine) ⟨smallBoot, []⟩ writeForkWrite) :=
    run_runAll _ (by decide +kernel)
  have hOrdinary : Ordinary smallMachine 0x400 := nofun
  exact ⟨hRead, fork_is_snapshot smallBoot_ok (by decide) hRun hOrdinary hRead⟩

/-
  A machine whose one register page of the kernel lies above
  4 GiB, with the low 32 bits of a frame of the pool.
-/
def highWindow : Machine := { smallMachine with windows := [2 ^ 32 + userPhysBase + pageSize] }

/-
  Task 1 writes and forks three times into the same slot, then
  it writes to a page of its stack.
-/
def forkThrice : List PgOp :=
  [.create 1 0 1 [], .store 1 0x400 0 7, .clone 2 1 [], .clone 2 1 [], .clone 2 1 [],
    .fault 1 0x7df000 true ⟨[], true⟩]

/- The byte that task 1 wrote is gone. -/
theorem fork_loses_byte :
    readByte (runAll (Traced.apply highWindow) ⟨Pg.boot highWindow smallPool fun _ => zeroPage, []⟩
        forkThrice).pg 1 0x400 0 = some 0 ∧
      expected (runAll (Traced.apply highWindow)
        ⟨Pg.boot highWindow smallPool fun _ => zeroPage, []⟩
        forkThrice).log 1 0x400 0 = 7 := by
  decide +kernel

end Horus.Paging
