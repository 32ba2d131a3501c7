import Horus.Kernel.Serials

/-
  The capability ceiling of a task.

  `caps_in_use` counts the slots that counted installers have
  filled. The birth capabilities and `cap_install_from_root`
  are not counted, but what empties a slot always counts down,
  so the count is exact only as long as no uncounted slot is
  emptied, no counted slot is taken over, and a new task
  starts from zero.

  Main declarations:
    * `slotsOf`, `occupiedSlots`, `uncountedSlots`,
      `countedSlots`
    * `Counted`, `CountsRight`, `Counted.act`
    * `Exact`, `ceiling_exact`
-/

namespace Horus

open Finset
open CapState
open Function

variable {a : Addr} {pid q cur id : Nat}

namespace CapState

/- The slots of the capability space of `pid`. -/
def slotsOf (s : CapState) (pid : Nat) : Finset Addr :=
  match (s.tasks pid).cspace with
  | none => ∅
  | some space =>
    (range cnodeSize).map ⟨fun slot => ⟨space, slot⟩, by
        intro i j hEq
        exact congrArg Addr.slot hEq⟩

theorem mem_slotsOf_iff (s : CapState) (pid : Nat) (a : Addr) :
    a ∈ s.slotsOf pid ↔ (s.tasks pid).cspace = some a.space ∧ a.slot < cnodeSize := by
  unfold slotsOf
  cases (s.tasks pid).cspace with
  | none => simp
  | some =>
  simp only [mem_map, mem_range, Option.some.injEq]
  constructor
  · rintro ⟨slot, hSlot, rfl⟩
    exact ⟨rfl, hSlot⟩
  · rintro ⟨rfl, hSlot⟩
    exact ⟨a.slot, hSlot, rfl⟩

def occupiedSlots (s : CapState) (pid : Nat) : Finset Addr :=
  (s.slotsOf pid).filter fun a => (s.mem a).typ ≠ .null

/- Those filled by an installer that does not count. -/
def uncountedSlots (s : CapState) (pid : Nat) : Finset Addr :=
  (s.occupiedSlots pid).filter fun a => s.uncounted a = true

def countedSlots (s : CapState) (pid : Nat) : Finset Addr :=
  (s.occupiedSlots pid).filter fun a => ¬ s.uncounted a = true

variable {s : CapState}

theorem mem_occupiedSlots_iff (hRun : s.running pid = true) : a ∈ s.occupiedSlots pid ↔
      s.Owns pid a ∧ (s.mem a).typ ≠ .null := by
  unfold occupiedSlots
  rw [mem_filter, mem_slotsOf_iff]
  refine and_congr_left fun _ => ⟨fun hIn => ⟨hRun, hIn.1, hIn.2⟩, fun hOwns => ?_⟩
  exact ⟨hOwns.space, hOwns.slot⟩

theorem mem_countedSlots_iff (hRun : s.running pid = true) : a ∈ s.countedSlots pid ↔
      s.Owns pid a ∧ (s.mem a).typ ≠ .null ∧ s.uncounted a = false := by
  unfold countedSlots
  rw [mem_filter, mem_occupiedSlots_iff hRun, Bool.not_eq_true, and_assoc]

/- The same in a state with the same tasks. -/
theorem mem_countedSlots_iff_of_tasks {s' : CapState} (hTasks : s'.tasks = s.tasks)
    (hMax : s'.maxTasks = s.maxTasks) (hRun : s.running pid = true) :
    a ∈ s'.countedSlots pid ↔ s.Owns pid a ∧ (s'.mem a).typ ≠ .null ∧ s'.uncounted a = false := by
  rw [mem_countedSlots_iff (by rwa [running_congr hTasks hMax]), owns_congr hTasks hMax]

/- The slots of a task that stays as it is. -/
theorem mem_countedSlots_live {s' : CapState} (hTask : s'.tasks pid = s.tasks pid)
    (hMax : s'.maxTasks = s.maxTasks) (hLive : s'.running pid = true)
    (hSlots : ∀ a, s.Owns pid a → ((s'.mem a).typ = .null ↔ (s.mem a).typ = .null))
    (hUncounted : s'.uncounted = s.uncounted) :
    s.running pid = true ∧ ∀ a, a ∈ s'.countedSlots pid ↔ a ∈ s.countedSlots pid := by
  have hRun : s.running pid = true := by
    simpa [running, hTask, hMax] using hLive
  refine ⟨hRun, fun a => ?_⟩
  rw [mem_countedSlots_iff hLive, mem_countedSlots_iff hRun, hUncounted]
  have hOwns : s'.Owns pid a ↔ s.Owns pid a := by
    constructor
    · rintro ⟨_, hSpace, hSlot⟩
      exact ⟨hRun, by rwa [← hTask], hSlot⟩
    · rintro ⟨_, hSpace, hSlot⟩
      exact ⟨hLive, by rwa [hTask], hSlot⟩
  rw [hOwns]
  exact and_congr_right fun hIn => and_congr_left fun _ => not_congr (hSlots a hIn)

end CapState

----
-- The Invariant
----

structure Counted (s : CapState) : Prop where
  count : ∀ pid, s.running pid = true → s.capsInUse pid = (s.countedSlots pid).card
  bound : ∀ pid, s.running pid = true → s.capsInUse pid ≤ maxCapsPerTask

/- What an action may do to the slots of live tasks. -/
def CountsRight (s : CapState) : Act → Prop
  | .place a _ _ => (s.mem a).typ = .null ∨ s.uncounted a = true
  | .erase _ a => (s.mem a).typ ≠ .null → s.uncounted a = false
  | .sweep _ a =>
    ∀ pid b, s.Owns pid b → Emptied s.mem s.Visible a b →
      (s.mem b).typ ≠ .null → s.uncounted b = false
  | .openSpace id _ => s.capsInUse id = 0
  | _ => True

theorem benign_countsRight : Benign CountsRight where
  burn := fun _ => trivial
  age := fun _ _ => trivial
  install := fun _ _ _ _ _ _ _ => trivial
  place := fun _ _ _ _ hNull => .inl hNull

theorem counted_of {s : CapState} (hEach : ∀ pid, s.running pid = true →
      s.capsInUse pid = (s.countedSlots pid).card ∧ s.capsInUse pid ≤ maxCapsPerTask) :
    Counted s :=
  ⟨fun pid hRun => (hEach pid hRun).1, fun pid hRun => (hEach pid hRun).2⟩

section Counted

variable {s s' : CapState} (hCounted : Counted s)

include hCounted

/- A task whose slots and count stay as they are. -/
theorem Counted.same
    (hRun : ∀ pid, s'.running pid = true → s.running pid = true ∧
        s'.capsInUse pid = s.capsInUse pid ∧
        ∀ a, a ∈ s'.countedSlots pid ↔ a ∈ s.countedSlots pid) :
    Counted s' := by
  refine counted_of fun pid hLive => ?_
  rcases hRun pid hLive with ⟨hThen, hCaps, hSlots⟩
  rw [hCaps, ext hSlots]
  exact ⟨hCounted.count pid hThen, hCounted.bound pid hThen⟩

/- The same for all tasks at once. -/
theorem Counted.sameTasks (hTasks : s'.tasks = s.tasks)
    (hMax : s'.maxTasks = s.maxTasks) (hCaps : s'.capsInUse = s.capsInUse)
    (hSlots : ∀ a, (s'.mem a).typ ≠ .null ∧ s'.uncounted a = false ↔
        (s.mem a).typ ≠ .null ∧ s.uncounted a = false) :
    Counted s' := by
  apply hCounted.same
  intro pid hLive
  have hRun := hLive
  rw [running_congr hTasks hMax] at hRun
  refine ⟨hRun, congrFun hCaps pid, ?_⟩
  intro a
  rw [mem_countedSlots_iff_of_tasks hTasks hMax hRun, mem_countedSlots_iff hRun]
  exact and_congr_right fun _ => hSlots a

/- An empty slot of `q` is filled and counted. -/
theorem Counted.fill {c : Capability} (hOwns : s.Owns q a) (hTables : Tables s)
    (hNull : (s.mem a).typ = .null) (hRoom : s.capsInUse q < maxCapsPerTask)
    (hTyp : c.typ ≠ .null) (hTasks : s'.tasks = s.tasks)
    (hMax : s'.maxTasks = s.maxTasks) (hMem : s'.mem = update s.mem a c)
    (hCaps : s'.capsInUse = update s.capsInUse q (s.capsInUse q + 1))
    (hUncounted : s'.uncounted = update s.uncounted a false) : Counted s' := by
  have hRunning := running_congr hTasks hMax
  have hSlots : ∀ pid, s.running pid = true → s'.countedSlots pid =
          if pid = q then insert a (s.countedSlots q)
          else s.countedSlots pid := by
    intro pid hRun
    ext b
    rw [mem_countedSlots_iff_of_tasks hTasks hMax hRun, hMem, hUncounted]
    rcases eq_or_ne b a with rfl | hB
    · split
      · rename_i hPid
        subst hPid
        simp [hOwns, hTyp]
      rename_i hPid
      rw [mem_countedSlots_iff hRun]
      constructor
      · rintro ⟨hOwns', _⟩
        exact absurd (hTables.own pid q _ hOwns'.space hOwns.space) hPid
      · rintro ⟨_, hUsed, _⟩
        exact absurd hNull hUsed
    · rw [update_of_ne hB, update_of_ne hB]
      split
      · rename_i hPid
        subst hPid
        rw [mem_insert, mem_countedSlots_iff hRun]
        simp [hB]
      · rw [mem_countedSlots_iff hRun]
  have hNew : a ∉ s.countedSlots q := by
    intro hIn
    exact ((mem_countedSlots_iff hOwns.running).mp hIn).2.1 hNull
  refine counted_of fun pid hLive => ?_
  rw [hRunning] at hLive
  rw [hSlots pid hLive, hCaps]
  rcases eq_or_ne pid q with rfl | hPid
  · rw [update_self, if_pos rfl, card_insert_of_notMem hNew, hCounted.count pid hLive]
    exact ⟨rfl, hCounted.count pid hLive ▸ hRoom⟩
  · rw [update_of_ne hPid, if_neg hPid]
    exact ⟨hCounted.count pid hLive, hCounted.bound pid hLive⟩

/- Counted slots are emptied, and the counts go down with it. -/
theorem Counted.drop (D : Nat → Finset Addr) (hTasks : s'.tasks = s.tasks)
    (hMax : s'.maxTasks = s.maxTasks)
    (hDrop : ∀ pid, s.running pid = true → D pid ⊆ s.countedSlots pid)
    (hSlots : ∀ pid, s.running pid = true → ∀ a, a ∈ s'.countedSlots pid ↔
        a ∈ s.countedSlots pid ∧ a ∉ D pid)
    (hCaps : ∀ pid, s.running pid = true → s'.capsInUse pid = s.capsInUse pid - (D pid).card) :
    Counted s' := by
  refine counted_of fun pid hLive => ?_
  rw [running_congr hTasks hMax] at hLive
  have hSet : s'.countedSlots pid = s.countedSlots pid \ D pid := by
    ext a
    rw [mem_sdiff]
    exact hSlots pid hLive a
  rw [hSet, card_sdiff_of_subset (hDrop pid hLive), hCaps pid hLive, hCounted.count pid hLive]
  refine ⟨rfl, (Nat.sub_le _ _).trans ?_⟩
  exact hCounted.count pid hLive ▸ hCounted.bound pid hLive

theorem Counted.erase (hTables : Tables s) (hOwns : s.Owns q a)
    (hRight : (s.mem a).typ ≠ .null → s.uncounted a = false) : Counted (s.erase q a) := by
  by_cases hNull : (s.mem a).typ = .null
  · have hSame : s.erase q a = s := if_pos hNull
    rw [hSame]
    exact hCounted
  have hMem : (s.erase q a).mem = update s.mem a Capability.nullify := by
    simp [CapState.erase, hNull]
  have hCaps : (s.erase q a).capsInUse = update s.capsInUse q (s.capsInUse q - 1) := by
    simp [CapState.erase, hNull]
  have hMine : ∀ pid, s.Owns pid a → pid = q :=
    fun pid hOwns' => hTables.own pid q _ hOwns'.space hOwns.space
  refine hCounted.drop (fun pid => if pid = q then {a} else ∅) (by simp) (by simp) ?_ ?_ ?_
  · intro pid hRun
    split
    · rename_i hPid
      subst hPid
      rw [singleton_subset_iff, mem_countedSlots_iff hRun]
      exact ⟨hOwns, hNull, hRight hNull⟩
    · exact empty_subset _
  · intro pid hRun b
    rw [mem_countedSlots_iff_of_tasks (by simp) (by simp) hRun, mem_countedSlots_iff hRun, hMem,
      erase_uncounted]
    rcases eq_or_ne b a with rfl | hB
    · rw [update_self]
      constructor
      · exact fun hIn => absurd rfl hIn.2.1
      · rintro ⟨⟨hOwns', _⟩, hOut⟩
        rw [if_pos (hMine pid hOwns')] at hOut
        exact absurd (mem_singleton_self b) hOut
    · rw [update_of_ne hB]
      have hOut : b ∉ (if pid = q then {a} else ∅ : Finset Addr) := by
        split
        · simpa using hB
        · simp
      simp only [hOut, not_false_eq_true, and_true]
  · intro pid _
    rw [hCaps]
    rcases eq_or_ne pid q with rfl | hPid
    · rw [update_self, if_pos rfl, card_singleton]
    · rw [update_of_ne hPid, if_neg hPid]
      rfl

end Counted

----
-- Counting Down in a Sweep
----

/- What the sweep counts down for a task, as a set of slots. -/
theorem Tables.emptiedFor_eq_card {s : CapState} (hTables : Tables s) (hRun : s.running pid = true) (before after : CapMem) :
    emptiedFor pid before after (slotRefs (revokeSpaces s)) = ((s.slotsOf pid).filter fun b =>
        (before b).typ ≠ .null ∧ (after b).typ = .null).card := by
  unfold emptiedFor
  rw [List.countP_eq_length_filter, ← List.length_map SlotRef.addr]
  have hNodup : (((slotRefs (revokeSpaces s)).filter fun ref =>
          decide (ref.capsInUse = some pid) && decide ((before ref.addr).typ ≠ .null) &&
            decide ((after ref.addr).typ = .null)).map
        SlotRef.addr).Nodup :=
    hTables.nodup.sublist (List.filter_sublist.map _)
  rw [← List.toFinset_card_of_nodup hNodup]
  congr 1
  ext b
  simp only [List.mem_toFinset, List.mem_map, List.mem_filter,
    Bool.and_eq_true, decide_eq_true_eq, mem_filter,
    mem_slotsOf_iff]
  constructor
  · rintro ⟨ref, ⟨hRef, ⟨hCounter, hBefore⟩, hAfter⟩, rfl⟩
    rcases (mem_slotRefs_iff _ ref).mp hRef with ⟨d, hD, hCaps, hSlot, hSame⟩
    rcases (mem_revokeSpaces_iff s d).mp hD with rfl | ⟨q, _, space, hSpace, rfl⟩
    · rw [hSame] at hCounter
      cases hCounter
    · rw [hSame] at hCounter
      cases hCounter
      exact ⟨⟨hSpace.trans hCaps, by omega⟩, hBefore, hAfter⟩
  · rintro ⟨⟨hSpace, hSlot⟩, hBefore, hAfter⟩
    refine ⟨⟨b, some pid⟩, ⟨?_, ⟨rfl, hBefore⟩, hAfter⟩, rfl⟩
    refine (mem_slotRefs_iff _ _).mpr ⟨⟨some b.space, (s.tasks pid).cspaceSz, some pid⟩,
        (mem_revokeSpaces_iff s _).mpr (.inr ⟨pid, hRun, b.space, hSpace, rfl⟩),
        rfl, ?_, rfl⟩
    rw [hTables.cspaceSz pid (by simp [hSpace])]
    simpa using hSlot

/- The slots of `pid` that the revocation of `a` empties. -/
def sweptSlots (s : CapState) (cur : Nat) (a : Addr) (pid : Nat) : Finset Addr :=
  (s.occupiedSlots pid).filter fun b => (((Act.sweep cur a).apply s).mem b).typ = .null

theorem Sound.sweep_capsInUse {s : CapState} (hSound : Sound s)
    (hTables : Tables s) (hOk : (Act.sweep cur a).Ok s) (hRun : s.running pid = true) :
    ((Act.sweep cur a).apply s).capsInUse pid =
      s.capsInUse pid - (sweptSlots s cur a pid).card := by
  rcases hOk with ⟨hOwns, hUsed, hRoot⟩
  have hGlobal : s.sweepOf cur a = revokeSubtree (revokeSpaces s) (s.mem a).serial (s.mem a).object
          { mem := update s.mem a Capability.nullify
            capsInUse := decrementInUse (some cur) s.capsInUse
            tally := zeroTally.note (s.mem a) } := by
    have hBounds : ¬ cnodeSize ≤ a.slot := Nat.not_le.mpr hOwns.slot
    unfold sweepOf rustCapRevokeGlobal
    simp [hBounds, hRoot, hUsed]
  have hCount := revokeSubtree_capsInUse (revokeSpaces s) (s.mem a).serial (s.mem a).object pid
    { mem := update s.mem a Capability.nullify
      capsInUse := decrementInUse (some cur) s.capsInUse
      tally := zeroTally.note (s.mem a) }
    ((hSound.noMarks _).update_nullify a) hTables.nodup
  rw [← hGlobal, hTables.emptiedFor_eq_card hRun] at hCount
  dsimp only at hCount
  rw [decrementInUse_apply] at hCount
  have hTarget : (((Act.sweep cur a).apply s).mem a).typ = .null := by
    rw [(hSound.sweep_mem ⟨hOwns, hUsed, hRoot⟩ a).1 (.inl rfl)]
    rfl
  change (s.sweepOf cur a).capsInUse pid = _
  rw [hCount]
  rcases eq_or_ne pid cur with rfl | hPid
  · have hIn : a ∈ sweptSlots s pid a pid := by
      unfold sweptSlots
      rw [mem_filter, mem_occupiedSlots_iff hRun]
      exact ⟨⟨hOwns, hUsed⟩, hTarget⟩
    have hRest : ((s.slotsOf pid).filter fun b =>
          (update s.mem a Capability.nullify b).typ ≠ .null ∧
            ((s.sweepOf pid a).mem b).typ = .null) =
          (sweptSlots s pid a pid).erase a := by
      ext b
      unfold sweptSlots occupiedSlots
      rw [mem_erase, mem_filter, mem_filter, mem_filter]
      rcases eq_or_ne b a with rfl | hB
      · simp [Capability.nullify]
      · rw [update_of_ne hB]
        simp only [hB, ne_eq, not_false_eq_true, true_and, and_assoc]
        rfl
    rw [if_pos rfl, hRest, card_erase_of_mem hIn]
    have hPos := card_pos.mpr ⟨a, hIn⟩
    omega
  · have hNot : ¬ some cur = some pid := by
      intro hEq
      exact hPid (Option.some.inj hEq).symm
    rw [if_neg hNot]
    congr 2
    ext b
    unfold sweptSlots occupiedSlots
    rw [mem_filter, mem_filter, mem_filter, and_assoc]
    refine and_congr_right fun hSlot => ?_
    have hB : b ≠ a := by
      rintro rfl
      rw [mem_slotsOf_iff] at hSlot
      exact hPid (hTables.own pid cur _ hSlot.1 hOwns.space)
    rw [update_of_ne hB]
    rfl

----
-- Every Action
----

section Actions

variable {s : CapState} (hCounted : Counted s) (hSound : Sound s) (hTables : Tables s)

theorem mem_sweptSlots_iff (hRun : s.running pid = true) (b : Addr) : b ∈ sweptSlots s cur a pid ↔
      s.Owns pid b ∧ (s.mem b).typ ≠ .null ∧ (((Act.sweep cur a).apply s).mem b).typ = .null := by
  unfold sweptSlots
  rw [mem_filter, mem_occupiedSlots_iff hRun, and_assoc]

include hSound

/- Under the guard a sweep only empties counted slots. -/
theorem Sound.sweptSlots_subset
    (hOk : (Act.sweep cur a).Ok s) (hRight : CountsRight s (.sweep cur a)) (hRun : s.running pid = true) :
    sweptSlots s cur a pid ⊆ s.countedSlots pid := by
  intro b hB
  rw [mem_sweptSlots_iff hRun] at hB
  rw [mem_countedSlots_iff hRun]
  refine ⟨hB.1, hB.2.1, hRight pid b hB.1 ?_ hB.2.1⟩
  by_contra hStays
  rw [(hSound.sweep_mem hOk b).2 hStays] at hB
  exact hB.2.1 hB.2.2

include hCounted hTables

theorem Counted.sweep (hOk : (Act.sweep cur a).Ok s) (hRight : CountsRight s (.sweep cur a)) :
    Counted ((Act.sweep cur a).apply s) := by
  refine hCounted.drop (sweptSlots s cur a) rfl rfl
    (fun pid hRun => hSound.sweptSlots_subset hOk hRight hRun)
    ?_ (fun pid hRun => hSound.sweep_capsInUse hTables hOk hRun)
  intro pid hRun b
  have hTasks : ((Act.sweep cur a).apply s).tasks = s.tasks := rfl
  rw [mem_countedSlots_iff_of_tasks hTasks rfl hRun, mem_countedSlots_iff hRun,
    mem_sweptSlots_iff hRun]
  by_cases hIn : Emptied s.mem s.Visible a b
  · rw [(hSound.sweep_mem hOk b).1 hIn]
    constructor
    · exact fun hB => absurd rfl hB.2.1
    · rintro ⟨⟨hOwns, hUsed, _⟩, hOut⟩
      exact absurd ⟨hOwns, hUsed, rfl⟩ hOut
  · rw [(hSound.sweep_mem hOk b).2 hIn]
    constructor
    · exact fun hB => ⟨hB, fun hGone => hGone.2.1 hGone.2.2⟩
    · exact fun hB => hB.1

omit hSound hTables

/- Other tasks do not notice that a task has died. -/
theorem Counted.setDead {s' : CapState} {t : Tcb} (hTasks : s'.tasks = update s.tasks id t)
    (hMax : s'.maxTasks = s.maxTasks) (hDead : t.state = .dead)
    (hCaps : ∀ pid, pid ≠ id → s'.capsInUse pid = s.capsInUse pid)
    (hTyp : ∀ pid a, pid ≠ id → s.Owns pid a → ((s'.mem a).typ = .null ↔ (s.mem a).typ = .null))
    (hUncounted : s'.uncounted = s.uncounted) : Counted s' := by
  apply hCounted.same
  intro pid hLive
  have hNe : pid ≠ id := by
    rintro rfl
    simp [running, hTasks, hDead] at hLive
  rcases mem_countedSlots_live (by rw [hTasks, update_of_ne hNe]) hMax hLive
    (fun a hIn => hTyp pid a hNe hIn) hUncounted with ⟨hRun, hSlots⟩
  exact ⟨hRun, hCaps pid hNe, hSlots⟩

include hTables

theorem Counted.openSpace {space : Nat}
    (hOk : (Act.openSpace id space).Ok s) (hZero : s.capsInUse id = 0) :
    Counted (s.openSpace id space) := by
  have hCaps : (s.openSpace id space).capsInUse = s.capsInUse := rfl
  have hEmpty : (s.openSpace id space).countedSlots id = ∅ := by
    rw [eq_empty_iff_forall_notMem]
    intro a hIn
    unfold countedSlots occupiedSlots at hIn
    rw [mem_filter, mem_filter, mem_slotsOf_iff] at hIn
    rcases hIn with ⟨⟨⟨hSpace, hSlot⟩, hUsed⟩, _⟩
    rw [openSpace_cspace] at hSpace
    cases hSpace
    exact hUsed (openSpace_null s id a.space a.slot hSlot)
  have hSame : ∀ pid, pid ≠ id → (s.openSpace id space).running pid = true →
        s.running pid = true ∧ ∀ a,
          a ∈ (s.openSpace id space).countedSlots pid ↔ a ∈ s.countedSlots pid := by
    intro pid hNe hLive
    refine mem_countedSlots_live (update_of_ne hNe _ _) rfl hLive ?_ rfl
    intro a hIn
    have hOut := hTables.not_visible_space hOk.1 hOk.2 (hTables.visible_of_owns hIn)
    have hMem : (s.openSpace id space).mem a = s.mem a := if_neg fun hClear => hOut hClear.1
    rw [hMem]
  refine counted_of fun pid hLive => ?_
  rw [hCaps]
  by_cases hPid : pid = id
  · rw [hPid, hZero, hEmpty, card_empty]
    exact ⟨rfl, Nat.zero_le _⟩
  · rcases hSame pid hPid hLive with ⟨hRun, hSlots⟩
    rw [ext hSlots]
    exact ⟨hCounted.count pid hRun, hCounted.bound pid hRun⟩

theorem Counted.act (hSound : Sound s) (act : Act) (hOk : act.Ok s)
    (hRight : CountsRight s act) : Counted (act.apply s) := by
  cases act with
  | burn => exact hCounted.sameTasks rfl rfl rfl fun _ => Iff.rfl
  | install pid a c origin src =>
    rcases hOk with ⟨hOwns, _, _, hRoom, hSource⟩
    have hTyp : c.typ ≠ .null := by
      cases src with
      | none =>
        intro hNull
        have hKind := hSource.2
        rw [hNull] at hKind
        cases hKind
      | some =>
        rw [hSource.typ]
        exact hSource.used
    by_cases hNull : (s.mem a).typ = .null
    · exact hCounted.fill hOwns hTables hNull (hRoom hNull)
        hTyp rfl rfl rfl (if_pos hNull) (if_pos hNull)
    -- The slot was taken and stays so.
    refine hCounted.sameTasks rfl rfl (if_neg hNull) ?_
    intro b
    have hFree : ((Act.install pid a c origin src).apply s).uncounted = s.uncounted := if_neg hNull
    rw [hFree, Act.install_mem]
    rcases eq_or_ne b a with rfl | hB
    · simp [hTyp, hNull]
    · rw [update_of_ne hB]
  | place a c origin =>
    refine hCounted.sameTasks rfl rfl rfl ?_
    intro b
    change (update s.mem a c b).typ ≠ .null ∧ update s.uncounted a true b = false ↔ _
    rcases eq_or_ne b a with rfl | hB
    · rcases hRight with hNull | hFreed
      · simp [hNull]
      · simp [hFreed]
    · rw [update_of_ne hB, update_of_ne hB]
  | erase => exact hCounted.erase hTables hOk hRight
  | sweep => exact hCounted.sweep hSound hTables hOk hRight
  | openSpace => exact hCounted.openSpace hTables hOk hRight
  | age | abandon =>
    exact hCounted.setDead rfl rfl rfl (fun _ _ => rfl) (fun _ _ _ _ => Iff.rfl) rfl
  | bury id scratch =>
    rcases hTables.running_cspace hOk.2 with ⟨space, hSpace, _⟩
    have hDying := hSound.dyingOk hTables hOk.1 hOk.2 hSpace
    refine hCounted.setDead (bury_tasks s id scratch) (bury_maxTasks s id scratch) rfl ?_ ?_ ?_
    · intro pid hNe
      exact releaseCspace_capsInUse_of_ne _ id scratch hNe
    · intro pid a hNe hOwns
      have hOut : a.space ≠ space := by
        rintro rfl
        exact hNe (hTables.own pid id _ hOwns.space hSpace)
      rw [hTables.bury_mem hOk.1 hOk.2 hSpace, hDying.afterDeath_typ scratch hOut]
    · simp [Act.apply, abandonTask, setTask]

end Actions

----
-- Exact Runs
----

/- If slot `slot` of `pid` is occupied, it was counted. -/
def CapState.Tallied (s : CapState) (pid slot : Nat) : Prop :=
  ∀ a, s.Owns pid a → a.slot = slot → (s.mem a).typ ≠ .null → s.uncounted a = false

/-
  The operation empties no slot that was not counted, takes
  over no slot that was, and creates a task only where the
  count is zero.
-/
def Exact (s : Sys) : Op → Prop
  | .createTask id _ | .spawnAborted id _ | .fork _ id _ => s.cap.capsInUse id = 0
  | .installFromRoot pid slot _ _ =>
    ∀ a, s.cap.Owns pid a → a.slot = slot → (s.cap.mem a).typ = .null ∨ s.cap.uncounted a = true
  | .consumeReply cur => s.cap.Tallied cur capslotReply
  | .pipeClose cur slot => s.cap.Tallied cur slot
  | .teardown id _ => ∀ a, s.cap.Owns id a → (s.cap.mem a).typ = .pipe → s.cap.uncounted a = false
  | .revoke cur slot =>
    ∀ a, s.cap.Owns cur a → a.slot = slot → ∀ pid b, s.cap.Owns pid b →
        Emptied s.cap.mem s.cap.Visible a b →
        (s.cap.mem b).typ ≠ .null → s.cap.uncounted b = false
  | _ => True

theorem permits_countsRight {s : Sys} (op : Op) (hExact : Exact s op) :
    Permits CountsRight s.cap op := by
  cases op with
  | createTask => exact fun _ => hExact
  | spawnAborted | fork => exact ⟨fun _ => hExact, fun _ _ _ _ => trivial⟩
  | teardown id =>
    refine ⟨?_, fun _ _ => trivial⟩
    intro s' a hClosing hOwns hPipe _
    rw [hClosing.uncounted]
    rcases hClosing.mem a with hSame | hNull
    · exact hExact a ((owns_congr hClosing.tasks hClosing.maxTasks id a).mp hOwns) (hSame ▸ hPipe)
    · rw [hNull] at hPipe
      cases hPipe
  | installFromRoot => exact fun a c hOwns hSlot => hExact a hOwns hSlot
  | consumeReply | pipeClose => exact fun a hOwns hSlot => hExact a hOwns hSlot
  | pipe => exact fun s' a _ hFree _ => hFree
  | revoke => exact fun a hOwns hSlot _ => hExact a hOwns hSlot
  | _ => simp [Permits, CountsRight]

/- No count goes below zero. -/
def NoSaturation (s : CapState) : Act → Prop
  | .erase pid a => (s.mem a).typ ≠ .null → 0 < s.capsInUse pid
  | .sweep cur a => ∀ pid, s.running pid = true → (sweptSlots s cur a pid).card ≤ s.capsInUse pid
  | _ => True

theorem Counted.noSaturation {s : CapState} (hCounted : Counted s)
    (hSound : Sound s) (act : Act) (hOk : act.Ok s)
    (hRight : CountsRight s act) : NoSaturation s act := by
  cases act with
  | erase pid a =>
    intro hUsed
    rw [hCounted.count pid hOk.running, card_pos]
    exact ⟨a, (mem_countedSlots_iff hOk.running).mpr ⟨hOk, hUsed, hRight hUsed⟩⟩
  | sweep =>
    intro pid hRun
    rw [hCounted.count pid hRun]
    exact card_le_card (hSound.sweptSlots_subset hOk hRight hRun)
  | _ => trivial

/- All the actions of a run count down exactly. -/
theorem Counted.run {s s' : CapState} (hRun : ActRun CountsRight s s')
    (hTables : Tables s) (hSound : Sound s) (hCounted : Counted s) : ActRun NoSaturation s s' := by
  induction hRun with
  | refl s => exact Lib.Run.refl s
  | step act hAct _ ih =>
    exact Lib.Run.step act ⟨hAct.1, hCounted.noSaturation hSound act hAct.1 hAct.2⟩
      (ih (hTables.act act hAct.1) (hSound.act hTables act hAct.1)
        (hCounted.act hTables hSound act hAct.1 hAct.2))

/- Everything outside the root table was placed uncounted. -/
def AllPlaced (s : CapState) : Prop :=
  ∀ a, a.space ≠ rootSpace → (s.mem a).typ ≠ .null → s.uncounted a = true

theorem AllPlaced.place {s : CapState} (hPlaced : AllPlaced s)
    (a : Addr) (c : Capability) (origin : Origin) : AllPlaced (s.place a c origin) := by
  intro b hSpace
  unfold CapState.place
  dsimp only
  rcases eq_or_ne b a with rfl | hB
  · rw [update_self, update_self]
    exact fun _ => rfl
  · rw [update_of_ne hB, update_of_ne hB]
    exact hPlaced b hSpace

theorem allPlaced_bootCap (cfg : BootConfig) : AllPlaced (bootCap cfg) := by
  have hStart : AllPlaced ((preBoot cfg).openSpace 0 1).burn.burn.burn := by
    intro a hSpace hUsed
    refine absurd ?_ hUsed
    change ((if a.space = 1 ∧ a.slot < cnodeSize then
      Capability.nullify else (preBoot cfg).mem a)).typ = .null
    split
    · rfl
    · simp [preBoot, hSpace, Capability.nullify]
  apply AllPlaced.place
  apply AllPlaced.place
  exact (hStart.place _ _ _).place _ _ _

theorem counted_bootCap (cfg : BootConfig) : Counted (bootCap cfg) := by
  have hNone : ∀ pid, (bootCap cfg).running pid = true → (bootCap cfg).countedSlots pid = ∅ := by
    intro pid hRun
    rw [eq_empty_iff_forall_notMem]
    intro a hIn
    rw [mem_countedSlots_iff hRun] at hIn
    rcases hIn with ⟨hOwns, hUsed, hFree⟩
    have hPlaced := allPlaced_bootCap cfg a ((tables_bootCap cfg).space_ne_root hOwns) hUsed
    rw [hFree] at hPlaced
    cases hPlaced
  refine counted_of fun pid hRun => ?_
  rw [show (bootCap cfg).capsInUse pid = 0 from rfl, hNone pid hRun, card_empty]
  exact ⟨rfl, Nat.zero_le _⟩

theorem ceiling_exact (cfg : BootConfig) (s : Sys) (hRun : RunsWhile Exact (boot cfg) s) :
    (∀ pid, s.cap.running pid = true → s.cap.capsInUse pid + (s.cap.uncountedSlots pid).card =
          (s.cap.occupiedSlots pid).card ∧
        (s.cap.countedSlots pid).card ≤ maxCapsPerTask) ∧
    ∀ op, enabled s.cap op = true → Exact s op → ActRun NoSaturation s.cap (exec s op).2.cap := by
  have hAll := RunsWhile.invariant (fun c => Sound c ∧ Counted c) benign_countsRight
    (fun t op _ _ hC => permits_countsRight op hC)
    (fun c act hT hI hOk hRight => ⟨hI.1.act hT act hOk, hI.2.act hT hI.1 act hOk hRight⟩)
    hRun (tables_bootCap cfg) (regionsFit_boot cfg)
    ⟨sound_bootCap cfg, counted_bootCap cfg⟩
  rcases hAll with ⟨hTables, hFit, hSound, hCounted⟩
  refine ⟨?_, ?_⟩
  · intro pid hLive
    rw [hCounted.count pid hLive]
    refine ⟨(Nat.add_comm _ _).trans (card_filter_add_card_filter_not _), ?_⟩
    rw [← hCounted.count pid hLive]
    exact hCounted.bound pid hLive
  · intro op hEnabled hExact
    exact Counted.run (exec_run benign_countsRight hTables op (fun _ _ _ _ _ => hFit) hEnabled
        (permits_countsRight op hExact))
      hTables hSound hCounted

theorem ceiling_exact_mintOnce : (execAll (boot smallMachine) mintOnce).cap.capsInUse 1 = 1 ∧
      ((execAll (boot smallMachine) mintOnce).cap.countedSlots 1).card ≤ maxCapsPerTask := by
  have hRun : RunsWhile Exact (boot smallMachine) (execAll (boot smallMachine) mintOnce) := by
    apply runsWhile_execAll
    refine ⟨⟨by decide, rfl⟩, ⟨by decide, ?_⟩, ⟨by decide, trivial⟩, trivial⟩
    rintro ⟨space, slot⟩ hOwns hSlot
    cases hSlot
    cases hOwns.space
    decide +kernel
  exact ⟨by decide +kernel, ((ceiling_exact smallMachine _ hRun).1 1 (by decide +kernel)).2⟩

/- Task 1 mints a capability and closes its birth slot 0. -/
def closeBirth : List Op := mintOnce ++ [.pipeClose 1 0]

theorem close_birth_miscounts :
    ∃ s, Reachable smallMachine s ∧ s.cap.running 1 = true ∧
      s.cap.capsInUse 1 + (s.cap.uncountedSlots 1).card ≠ (s.cap.occupiedSlots 1).card := by
  refine ⟨execAll (boot smallMachine) closeBirth,
    runsWhile_execAll closeBirth (by decide +kernel), ?_, ?_⟩
  · decide +kernel
  · decide +kernel

end Horus
