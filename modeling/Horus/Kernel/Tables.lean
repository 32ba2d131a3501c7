import Horus.Kernel.Acts

/-
  The task table as an invariant: capability spaces are
  private, of full size, and allocated; every live task has
  one.
-/

namespace Horus

open CapState
open Function

variable {a : Addr} {pid space id : Nat}

----
-- Frames
----

namespace CapState

variable (s : CapState)

@[simp] theorem erase_tasks (pid : Nat) (a : Addr) : (s.erase pid a).tasks = s.tasks := by
  unfold erase
  split <;> rfl

@[simp] theorem erase_nextSpace (pid : Nat) (a : Addr) :
    (s.erase pid a).nextSpace = s.nextSpace := by
  unfold erase
  split <;> rfl

@[simp] theorem erase_maxTasks (pid : Nat) (a : Addr) : (s.erase pid a).maxTasks = s.maxTasks := by
  unfold erase
  split <;> rfl

@[simp] theorem erase_nextSerial (pid : Nat) (a : Addr) :
    (s.erase pid a).nextSerial = s.nextSerial := by
  unfold erase
  split <;> rfl

@[simp] theorem erase_log (pid : Nat) (a : Addr) : (s.erase pid a).log = s.log := by
  unfold erase
  split <;> rfl

@[simp] theorem erase_uncounted (pid : Nat) (a : Addr) :
    (s.erase pid a).uncounted = s.uncounted := by
  unfold erase
  split <;> rfl

variable {s s' : CapState}

theorem running_congr (hTasks : s'.tasks = s.tasks) (hMax : s'.maxTasks = s.maxTasks) (pid : Nat) :
    s'.running pid = s.running pid := by
  unfold running
  rw [hTasks, hMax]

theorem owns_congr (hTasks : s'.tasks = s.tasks)
    (hMax : s'.maxTasks = s.maxTasks) (pid : Nat) (a : Addr) : s'.Owns pid a ↔ s.Owns pid a := by
  have hRunning := running_congr hTasks hMax pid
  constructor
  · rintro ⟨hRun, hSpace, hSlot⟩
    exact ⟨by rwa [← hRunning], by rwa [← hTasks], hSlot⟩
  · rintro ⟨hRun, hSpace, hSlot⟩
    exact ⟨by rwa [hRunning], by rwa [hTasks], hSlot⟩

/- A task has one slot of each number. -/
theorem Owns.unique {b : Addr} (hA : s.Owns pid a) (hB : s.Owns pid b) (hSlot : a.slot = b.slot) :
    a = b := by
  have hSpace := Option.some.inj (hA.space.symm.trans hB.space)
  rcases a with ⟨space, slot⟩
  cases hSpace
  cases hSlot
  rfl

end CapState

section Release

variable (s : CapState) (id : Nat) (scratch : Scratch)

@[simp] theorem releaseCspace_tasks : (releaseCspace s id scratch).tasks = s.tasks := by
  unfold releaseCspace
  split
  · rfl
  · split <;> rfl

@[simp] theorem releaseCspace_nextSpace : (releaseCspace s id scratch).nextSpace = s.nextSpace := by
  unfold releaseCspace
  split
  · rfl
  · split <;> rfl

@[simp] theorem releaseCspace_maxTasks : (releaseCspace s id scratch).maxTasks = s.maxTasks := by
  unfold releaseCspace
  split
  · rfl
  · split <;> rfl

@[simp] theorem releaseCspace_nextSerial : (releaseCspace s id scratch).nextSerial =
      s.nextSerial := by
  unfold releaseCspace
  split
  · rfl
  · split <;> rfl

@[simp] theorem releaseCspace_log : (releaseCspace s id scratch).log = s.log := by
  unfold releaseCspace
  split
  · rfl
  · split <;> rfl

@[simp] theorem releaseCspace_uncounted : (releaseCspace s id scratch).uncounted = s.uncounted := by
  unfold releaseCspace
  split
  · rfl
  · split <;> rfl

theorem releaseCspace_capsInUse_of_ne (hNe : pid ≠ id) :
    (releaseCspace s id scratch).capsInUse pid = s.capsInUse pid := by
  unfold releaseCspace
  split
  · rfl
  · split <;> exact update_of_ne hNe _ _

theorem bury_tasks : ((Act.bury id scratch).apply s).tasks =
      update s.tasks id { s.tasks id with state := .dead } := by
  simp [Act.apply, abandonTask, setTask]

theorem bury_maxTasks : ((Act.bury id scratch).apply s).maxTasks = s.maxTasks := by
  simp [Act.apply, abandonTask, setTask]

end Release

----
-- The Invariant
----

/- Every capability space has one task, or is the root. -/
structure Tables (s : CapState) : Prop where
  space : ∀ id space, (s.tasks id).cspace = some space → rootSpace < space ∧ space < s.nextSpace
  own : ∀ i j space, (s.tasks i).cspace = some space → (s.tasks j).cspace = some space → i = j
  size : ∀ id, (s.tasks id).cspace ≠ none → (s.tasks id).cspaceSize = cnodeSize
  live : ∀ id, (s.tasks id).state ≠ .dead → (s.tasks id).cspace ≠ none ∧ id < s.maxTasks
  root : rootSpace < s.nextSpace

section Tables

variable {s : CapState} (hTables : Tables s)

include hTables

theorem Tables.congr {s' : CapState} (hTasks : s'.tasks = s.tasks)
    (hSpace : s'.nextSpace = s.nextSpace) (hMax : s'.maxTasks = s.maxTasks) : Tables s' where
  space := by rw [hTasks, hSpace]; exact hTables.space
  own := by rw [hTasks]; exact hTables.own
  size := by rw [hTasks]; exact hTables.size
  live := by rw [hTasks, hMax]; exact hTables.live
  root := by rw [hSpace]; exact hTables.root

theorem Tables.cspaceSz (id : Nat) : (s.tasks id).cspace ≠ none →
      (s.tasks id).cspaceSz = cnodeSize := by
  intro hSome
  simp [Tcb.cspaceSz, hTables.size id hSome, cnodeSize]

theorem Tables.running_cspace (hRun : s.running pid = true) :
    ∃ space, (s.tasks pid).cspace = some space ∧ (s.tasks pid).cspaceSz = cnodeSize := by
  simp only [running, decide_eq_true_eq] at hRun
  have hSome := (hTables.live pid hRun.2).1
  rcases Option.ne_none_iff_exists'.mp hSome with ⟨space, hSpace⟩
  exact ⟨space, hSpace, hTables.cspaceSz pid hSome⟩

/- Replacing a task that keeps its space. -/
theorem Tables.setTask (id : Nat) (t : Tcb) (hSpace : t.cspace = (s.tasks id).cspace)
    (hSize : t.cspaceSize = (s.tasks id).cspaceSize)
    (hState : t.state = .dead) : Tables (s.setTask id t) := by
  have hKeep : ∀ k, ((s.setTask id t).tasks k).cspace = (s.tasks k).cspace ∧
      ((s.setTask id t).tasks k).cspaceSize = (s.tasks k).cspaceSize := by
    intro k
    rcases eq_or_ne k id with rfl | hk
    · simp [CapState.setTask, hSpace, hSize]
    · simp [CapState.setTask, hk]
  refine ⟨?_, ?_, ?_, ?_, hTables.root⟩
  · intro i space hi
    rw [(hKeep i).1] at hi
    exact hTables.space i space hi
  · intro i j space hi hj
    rw [(hKeep _).1] at hi hj
    exact hTables.own i j space hi hj
  · intro i hi
    rw [(hKeep i).1] at hi
    rw [(hKeep i).2]
    exact hTables.size i hi
  · intro i hi
    rcases eq_or_ne i id with rfl | hEq
    · simp [CapState.setTask, hState] at hi
    · simp only [CapState.setTask, ne_eq, hEq, not_false_eq_true, update_of_ne] at hi ⊢
      exact hTables.live i hi

theorem Tables.openSpace (hFree : s.freeSlot id = true)
    (hFresh : (s.tasks id).cspace = some space ∨ space = s.nextSpace) :
    Tables (s.openSpace id space) := by
  simp only [CapState.freeSlot, decide_eq_true_eq] at hFree
  have hPos : rootSpace < space := by
    rcases hFresh with hOld | rfl
    · exact (hTables.space id space hOld).1
    · exact hTables.root
  -- No other task has this space.
  have hOther : ∀ j, (s.tasks j).cspace = some space → j = id := by
    intro j hj
    rcases hFresh with hOld | rfl
    · exact hTables.own j id space hj hOld
    · exact absurd (hTables.space j _ hj).2 (by omega)
  have hTask : ∀ i, ((s.openSpace id space).tasks i).cspace =
        if i = id then some space else (s.tasks i).cspace := by
    intro i
    rcases eq_or_ne i id with rfl | hi
    · simp [CapState.openSpace, CapState.setTask, CapState.clearSpace]
    · simp [CapState.openSpace, CapState.setTask, CapState.clearSpace, hi]
  refine ⟨?_, ?_, ?_, ?_, ?_⟩
  · intro i sp hi
    rw [hTask] at hi
    change rootSpace < sp ∧ sp < max s.nextSpace (space + 1)
    split at hi
    · cases hi
      omega
    · have hOld := hTables.space i sp hi
      omega
  · intro i j sp hi hj
    rw [hTask] at hi hj
    split at hi <;> split at hj
    · omega
    · cases hi
      rename_i _ hNe
      exact absurd (hOther j hj) hNe
    · cases hj
      rename_i hNe _
      exact absurd (hOther i hi) hNe
    · exact hTables.own i j sp hi hj
  · intro i hi
    rcases eq_or_ne i id with rfl | hEq
    · simp [CapState.openSpace, CapState.setTask, CapState.clearSpace]
    · rw [hTask, if_neg hEq] at hi
      simpa [CapState.openSpace, CapState.setTask, CapState.clearSpace, hEq] using hTables.size i hi
  · intro i hi
    rcases eq_or_ne i id with rfl | hEq
    · rw [hTask]
      exact ⟨by simp, hFree.2.1⟩
    · rw [hTask, if_neg hEq]
      simp only [CapState.openSpace, CapState.setTask,
        CapState.clearSpace, ne_eq, hEq, not_false_eq_true,
        update_of_ne] at hi
      exact hTables.live i hi
  · change rootSpace < max s.nextSpace (space + 1)
    omega

/- Every action keeps the table well formed. -/
theorem Tables.act (act : Act) (hOk : act.Ok s) : Tables (act.apply s) := by
  cases act with
  | burn | place | sweep => exact hTables.congr rfl rfl rfl
  | install => exact hTables.congr rfl rfl rfl
  | erase => apply hTables.congr <;> simp [Act.apply]
  | openSpace => exact hTables.openSpace hOk.1 hOk.2
  | age id | abandon id => exact hTables.setTask id _ rfl rfl rfl
  | bury id =>
    have hDead : Tables (abandonTask s id) := hTables.setTask id _ rfl rfl rfl
    apply hDead.congr <;> simp [Act.apply]

end Tables

----
-- Visible Slots
----

/- A slot of a live task or of the root table. -/
def CapState.Visible (s : CapState) (a : Addr) : Prop := a ∈ slotAddrs (revokeSpaces s)

instance CapState.Visible.decidable (s : CapState) (a : Addr) : Decidable (s.Visible a) :=
  inferInstanceAs (Decidable (a ∈ slotAddrs (revokeSpaces s)))

theorem visible_congr {s s' : CapState} (hTasks : s'.tasks = s.tasks)
    (hMax : s'.maxTasks = s.maxTasks) : s'.Visible = s.Visible := by
  unfold Visible revokeSpaces taskDesc
  rw [hTasks, hMax]

theorem mem_revokeSpaces_iff (s : CapState) (d : CSpaceDesc) :
    d ∈ revokeSpaces s ↔ d = rootDesc ∨ ∃ pid, s.running pid = true ∧ ∃ space,
          (s.tasks pid).cspace = some space ∧
          d = ⟨some space, (s.tasks pid).cspaceSz, some pid⟩ := by
  unfold revokeSpaces
  rw [List.mem_append, List.mem_filterMap, or_comm]
  refine or_congr (by simp) (exists_congr fun pid => ?_)
  unfold taskDesc running
  cases (s.tasks pid).cspace with
  | none => simp
  | some =>
    by_cases hDead : (s.tasks pid).state = .dead
    · simp [hDead]
    · simp [hDead, eq_comm]

theorem taskDesc_some {s : CapState} {d : CSpaceDesc} (hDesc : taskDesc s id = some d) :
    ∃ space, (s.tasks id).cspace = some space ∧ d.caps = some space := by
  unfold taskDesc at hDesc
  split at hDesc
  · cases hDesc
  split at hDesc
  · cases hDesc
  · cases hDesc
    exact ⟨_, ‹_›, rfl⟩

section Visible

variable {s : CapState} (hTables : Tables s)

include hTables

theorem Tables.visible_iff (a : Addr) :
    s.Visible a ↔ a.slot < cnodeSize ∧ (a.space = rootSpace ∨ ∃ pid, s.running pid = true ∧
            (s.tasks pid).cspace = some a.space) := by
  unfold Visible
  rw [mem_slotAddrs_iff]
  constructor
  · rintro ⟨d, hD, hCaps, hSlot⟩
    refine ⟨by omega, ?_⟩
    rcases (mem_revokeSpaces_iff s d).mp hD with rfl | ⟨pid, hRun, space, hSpace, rfl⟩
    · exact .inl (Option.some.inj hCaps).symm
    · exact .inr ⟨pid, hRun, hSpace.trans hCaps⟩
  · rintro ⟨hSlot, hRoot | ⟨pid, hRun, hSpace⟩⟩
    · refine ⟨rootDesc, (mem_revokeSpaces_iff s _).mpr (.inl rfl), ?_, ?_⟩
      · simp [rootDesc, hRoot]
      · simp only [rootDesc]
        omega
    · refine ⟨⟨some a.space, _, some pid⟩, (mem_revokeSpaces_iff s _).mpr
          (.inr ⟨pid, hRun, a.space, hSpace, rfl⟩), rfl, ?_⟩
      rw [hTables.cspaceSz pid (by simp [hSpace])]
      simpa using hSlot

theorem Tables.visible_of_owns (hOwns : s.Owns pid a) : s.Visible a :=
  (hTables.visible_iff a).mpr ⟨hOwns.slot, .inr ⟨pid, hOwns.running, hOwns.space⟩⟩

theorem Tables.space_ne_root (hOwns : s.Owns pid a) : a.space ≠ rootSpace := by
  have hPos := (hTables.space pid a.space hOwns.space).1
  omega

/- The sweep never visits a slot twice. -/
theorem Tables.nodup : (slotAddrs (revokeSpaces s)).Nodup := by
  have hAddrs : slotAddrs (revokeSpaces s) = (revokeSpaces s).flatMap fun d =>
          d.slotRefs.map SlotRef.addr := by
    simp [slotAddrs, slotRefs, List.map_flatMap]
  rw [hAddrs, List.nodup_flatMap]
  constructor
  · intro d _
    unfold CSpaceDesc.slotRefs
    cases d.caps with
    | none => simp
    | some =>
      rw [List.map_map]
      refine List.nodup_range.map ?_
      intro i j hEq
      exact congrArg Addr.slot hEq
  · -- Two descriptors never share a space.
    have hDisjoint : ∀ d e : CSpaceDesc, d.caps ≠ e.caps →
          List.Disjoint (d.slotRefs.map SlotRef.addr) (e.slotRefs.map SlotRef.addr) := by
      intro d e hNe a hd he
      have hSpace : ∀ f : CSpaceDesc, a ∈ f.slotRefs.map SlotRef.addr → f.caps = some a.space := by
        intro f hf
        have hMem : a ∈ slotAddrs [f] := by
          simpa [slotAddrs, slotRefs] using hf
        rcases (mem_slotAddrs_iff [f] a).mp hMem with ⟨g, hG, hCaps, _⟩
        rw [List.mem_singleton.mp hG] at hCaps
        exact hCaps
      exact hNe ((hSpace d hd).trans (hSpace e he).symm)
    unfold revokeSpaces
    rw [List.pairwise_append]
    refine ⟨?_, by simp, ?_⟩
    · rw [List.pairwise_filterMap]
      refine List.nodup_range.imp ?_
      intro i j hij d hd e he
      apply hDisjoint
      intro hEq
      rcases taskDesc_some hd with ⟨space, hi, hCaps⟩
      rcases taskDesc_some he with ⟨space', hj, hCaps'⟩
      cases hCaps.symm.trans (hEq.trans hCaps')
      exact hij (hTables.own i j _ hi hj)
    · intro d hd e he
      rw [List.mem_singleton.mp he]
      apply hDisjoint
      rcases List.mem_filterMap.mp hd with ⟨i, _, hi⟩
      rcases taskDesc_some hi with ⟨space, hSpace, hCaps⟩
      have hPos := (hTables.space i space hSpace).1
      simp [rootDesc, hCaps]
      omega

/- A dead task's slots are out of sight. -/
theorem Tables.visible_setDead {s' : CapState} (hTables' : Tables s') {t : Tcb} (hTasks : s'.tasks = update s.tasks id t)
    (hMax : s'.maxTasks = s.maxTasks) (hDead : t.state = .dead) (a : Addr) :
    s'.Visible a ↔ s.Visible a ∧ ¬ s.Owns id a := by
  have hOther : ∀ pid, pid ≠ id → (s'.running pid = s.running pid ∧
          s'.tasks pid = s.tasks pid) := by
    intro pid hNe
    have hTask : s'.tasks pid = s.tasks pid := by
      rw [hTasks, update_of_ne hNe]
    simp [running, hTask, hMax]
  have hId : s'.running id = false := by
    simp [running, hTasks, hDead]
  rw [hTables'.visible_iff, hTables.visible_iff]
  constructor
  · rintro ⟨hSlot, hRoot | ⟨pid, hRun, hSpace⟩⟩
    · refine ⟨⟨hSlot, .inl hRoot⟩, ?_⟩
      exact fun hOwns => hTables.space_ne_root hOwns hRoot
    have hNe : pid ≠ id := by
      rintro rfl
      simp [hId] at hRun
    rw [(hOther pid hNe).1] at hRun
    rw [(hOther pid hNe).2] at hSpace
    refine ⟨⟨hSlot, .inr ⟨pid, hRun, hSpace⟩⟩, ?_⟩
    exact fun hOwns => hNe (hTables.own pid id _ hSpace hOwns.space)
  · rintro ⟨⟨hSlot, hRoot | ⟨pid, hRun, hSpace⟩⟩, hOut⟩
    · exact ⟨hSlot, .inl hRoot⟩
    have hNe : pid ≠ id := by
      rintro rfl
      exact hOut ⟨hRun, hSpace, hSlot⟩
    refine ⟨hSlot, .inr ⟨pid, ?_, ?_⟩⟩
    · rw [(hOther pid hNe).1]
      exact hRun
    · rw [(hOther pid hNe).2]
      exact hSpace

/- A space that is about to be opened is out of sight. -/
theorem Tables.not_visible_space (hFree : s.freeSlot id = true)
    (hFresh : (s.tasks id).cspace = some space ∨ space = s.nextSpace) (hVisible : s.Visible a) : a.space ≠ space := by
  simp only [freeSlot, decide_eq_true_eq] at hFree
  rintro rfl
  rcases ((hTables.visible_iff a).mp hVisible).2 with hRoot | ⟨pid, hRun, hSpace⟩
  · rcases hFresh with hOld | hNext
    · have hPos := (hTables.space id _ hOld).1
      omega
    · have hPos := hTables.root
      omega
  · rcases hFresh with hOld | hNext
    · rw [hTables.own pid id _ hSpace hOld] at hRun
      simp [running, hFree.2.2] at hRun
    · have hBound := (hTables.space pid _ hSpace).2
      omega

theorem Tables.visible_openSpace (hFree : s.freeSlot id = true)
    (hFresh : (s.tasks id).cspace = some space ∨ space = s.nextSpace)
    (a : Addr) : (s.openSpace id space).Visible a ↔
      s.Visible a ∨ a.space = space ∧ a.slot < cnodeSize := by
  have hTables' := hTables.openSpace hFree hFresh
  simp only [CapState.freeSlot, decide_eq_true_eq] at hFree
  have hOther : ∀ pid, pid ≠ id → (s.openSpace id space).tasks pid = s.tasks pid := by
    intro pid hNe
    exact update_of_ne hNe _ _
  have hMax : (s.openSpace id space).maxTasks = s.maxTasks := rfl
  have hId : ((s.openSpace id space).tasks id).cspace = some space ∧
        (s.openSpace id space).running id = true := by
    simp [CapState.openSpace, CapState.clearSpace,
      CapState.setTask, CapState.running, reviveTask, hFree]
  rw [hTables'.visible_iff, hTables.visible_iff]
  constructor
  · rintro ⟨hSlot, hRoot | ⟨pid, hRun, hSpace⟩⟩
    · exact .inl ⟨hSlot, .inl hRoot⟩
    rcases eq_or_ne pid id with rfl | hPid
    · rw [hId.1] at hSpace
      exact .inr ⟨(Option.some.inj hSpace).symm, hSlot⟩
    · rw [hOther pid hPid] at hSpace
      refine .inl ⟨hSlot, .inr ⟨pid, ?_, hSpace⟩⟩
      simpa [CapState.running, hOther pid hPid, hMax] using hRun
  · rintro (⟨hSlot, hRoot | ⟨pid, hRun, hSpace⟩⟩ |
      ⟨rfl, hSlot⟩)
    · exact ⟨hSlot, .inl hRoot⟩
    · have hPid : pid ≠ id := by
        rintro rfl
        simp [CapState.running, hFree.2.2] at hRun
      refine ⟨hSlot, .inr ⟨pid, ?_, ?_⟩⟩
      · simpa [CapState.running, hOther pid hPid, hMax] using hRun
      · rw [hOther pid hPid]
        exact hSpace
    · exact ⟨hSlot, .inr ⟨id, hId.2, hId.1⟩⟩

end Visible

theorem preBoot_tables (cfg : BootConfig) : Tables (preBoot cfg) := by
  constructor
  · nofun
  · nofun
  · intro id hSome
    exact absurd rfl hSome
  · intro id hLive
    exact absurd rfl hLive
  · exact Nat.one_pos

theorem tables_bootCap (cfg : BootConfig) : Tables (bootCap cfg) := by
  have hTask : ∀ id, (bootCap cfg).tasks id = if id = 0 then
          { state := .runnable, slotGen := 1, cspace := some 1, cspaceSize := cnodeSize }
        else Tcb.empty := by
    intro id
    rcases eq_or_ne id 0 with rfl | hId
    · rfl
    · rw [if_neg hId]
      exact update_of_ne hId _ _
  refine ⟨?_, ?_, ?_, ?_, ?_⟩
  · intro id space hSpace
    rw [hTask] at hSpace
    split at hSpace
    · cases hSpace
      exact ⟨Nat.one_pos, Nat.one_lt_two⟩
    · simp [Tcb.empty] at hSpace
  · intro i j space hi hj
    rw [hTask] at hi hj
    split at hi <;> split at hj <;> simp_all [Tcb.empty]
  · intro id hSome
    rw [hTask] at hSome ⊢
    split at hSome <;> simp_all [Tcb.empty]
  · intro id hLive
    rw [hTask] at hLive ⊢
    split at hLive
    · rename_i hId
      subst hId
      exact ⟨by simp, cfg.someTask⟩
    · simp [Tcb.empty] at hLive
  · exact Nat.two_pos

end Horus
