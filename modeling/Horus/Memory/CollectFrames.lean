import Horus.Memory.CollectSafe

/-
  What a locked section leaves alone.

  A section changes the task slot of the task that it creates
  or marks dead, and no other. An object that is there, and is
  not in the making, stays at its index and stays the object it
  was, unless the section calls the collector and the collector
  finds nothing that keeps it.
-/

namespace Horus

open Store
open Function

variable {cur u slot : Nat} {cfg : MemConfig} {need : Rights}

----
-- The Task Table
----

/- The task that a section creates. -/
def StoreOp.creates : StoreOp → Option Nat
  | .call op => op.creates
  | _ => none

theorem Store.afterName_cap (s : Store) (cur : Nat) (x : Making) (r : Bool × CapState) :
    (s.afterName cur x r).sys.cap = r.2 := by
  unfold afterName
  split <;> rfl

theorem storeExec_call_cap (cfg : MemConfig) (s : Store) (op : Op) :
    (storeExec cfg s (.call op)).sys.cap = (exec s.sys op).2.cap := by
  simp only [storeExec]
  split
  · cases op <;> rfl
  · rfl

theorem Store.alloc_cap (cfg : MemConfig) (s : Store) (cur untypedSlot : Nat)
    (typ : KobjType) (pages : Nat) : (s.alloc cfg cur untypedSlot typ pages).sys.cap =
      s.sys.cap := by
  unfold alloc
  split
  · dsimp only
    split <;> rfl
  · rfl

theorem Store.shlibFrame_rest (cfg : MemConfig) (s : Store) :
    (s.shlibFrame cfg).sys.cap = s.sys.cap ∧ (s.shlibFrame cfg).inCall = s.inCall := by
  unfold shlibFrame
  generalize s.mem.kobjAlloc cfg untypedKernel .frame 1 = r
  dsimp only
  split <;> exact ⟨rfl, rfl⟩

theorem Store.withMem_rest (s : Store) (m : Memory) :
    (s.withMem m).sys.cap = s.sys.cap ∧ (s.withMem m).inCall = s.inCall ∧
      (s.withMem m).ids = s.ids ∧ (s.withMem m).making = s.making ∧
      (s.withMem m).nextId = s.nextId ∧ (s.withMem m).sys.obj.untypeds = m.untypeds :=
  ⟨rfl, rfl, rfl, rfl, rfl, rfl⟩

theorem Store.withSys_untypeds (s : Store) (sys : Sys) :
    (s.withSys sys).sys.obj.untypeds = (s.withSys sys).mem.untypeds :=
  rfl

theorem kobjGcLocked_rest (s : Store) : (kobjGcLocked s).sys.cap = s.sys.cap ∧
      (kobjGcLocked s).inCall = s.inCall ∧ (kobjGcLocked s).ids = s.ids ∧
      (kobjGcLocked s).making = s.making ∧ (kobjGcLocked s).nextId = s.nextId ∧
      (kobjGcLocked s).sys.obj.untypeds = s.swept.untypeds := by
  exact s.withMem_rest s.swept

variable {s : Store}

variable {op : StoreOp}

/- The slots of the other tasks. -/
theorem storeExec_tasks (cfg : MemConfig) (hEnabled : storeEnabled s op = true) {t : Nat}
    (hCreates : op.creates ≠ some t) (hDie : op ≠ .die t) :
    (storeExec cfg s op).sys.cap.tasks t = s.sys.cap.tasks t ∧
      (storeExec cfg s op).sys.cap.maxTasks =
        s.sys.cap.maxTasks := by
  have hSame : ∀ c : CapState, SameTasks s.sys.cap c →
      c.tasks t = s.sys.cap.tasks t ∧ c.maxTasks = s.sys.cap.maxTasks :=
    fun c h => ⟨congrFun h.tasks t, h.maxTasks⟩
  cases op with
  | call op =>
    rw [storeExec_call_cap]
    cases hNew : op.creates with
    | none =>
      exact hSame _ (exec_sameTasks s.sys op (Op.plain_of_creates hNew
        (by rintro _ _ rfl; cases hEnabled)))
    | some id =>
      have hOther := (exec_creates s.sys op id hNew).other
      refine ⟨hOther.tasks t ?_, hOther.maxTasks⟩
      rintro rfl
      exact hCreates hNew
  | alloc => simp only [storeExec, alloc_cap, and_self]
  | retypeName =>
    simp only [storeExec]
    split
    · exact ⟨rfl, rfl⟩
    · rw [afterName_cap]
      exact hSame _ (edits_capInstallObject (P := fun _ => True) fun _ _ => trivial).confined.same
  | schedName =>
    simp only [storeExec]
    split
    · exact ⟨rfl, rfl⟩
    · rw [afterName_cap]
      exact hSame _ (edits_capInstallDerivedObject (P := fun _ => True)
        fun _ _ _ _ => trivial).confined.same
  | drop =>
    simp only [storeExec]
    split <;> exact ⟨rfl, rfl⟩
  | revoke cur slot =>
    rw [storeExec, (kobjGcLocked_rest _).1]
    exact hSame _ (exec_sameTasks s.sys (.revoke cur slot) rfl)
  | closeEnd id slot => exact hSame _ (exec_sameTasks s.sys (.pipeClose id slot) rfl)
  | die id =>
    have hNe : t ≠ id := by
      rintro rfl
      exact hDie rfl
    exact ⟨(otherTasks_setTask s.sys.cap id _).tasks t hNe, rfl⟩
  | bury id scratch =>
    exact ⟨congrFun (releaseCspace_tasks s.sys.cap id scratch) t,
      releaseCspace_maxTasks s.sys.cap id scratch⟩
  | shlibFrame =>
    rw [storeExec, (s.shlibFrame_rest cfg).1]
    exact ⟨rfl, rfl⟩
  | enter | leave | carveFails | mapFrame => exact ⟨rfl, rfl⟩

theorem storeExec_maxTasks (cfg : MemConfig) (hEnabled : storeEnabled s op = true) :
    (storeExec cfg s op).sys.cap.maxTasks =
      s.sys.cap.maxTasks := by
  -- a slot that the section does not touch
  rcases hNone : op.creates with _ | id
  · by_cases hDie : ∃ t, op = .die t
    · rcases hDie with ⟨t, rfl⟩
      rfl
    · refine (storeExec_tasks cfg (t := 0) hEnabled ?_ ?_).2
      · simp [hNone]
      · exact fun hEq => hDie ⟨0, hEq⟩
  · refine (storeExec_tasks cfg (t := id + 1) hEnabled ?_ ?_).2
    · simp [hNone]
    · rintro rfl
      cases hNone

theorem storeExec_inCall (cfg : MemConfig) (s : Store) (op : StoreOp) (t : Nat)
    (hEnter : op ≠ .enter t) (hLeave : op ≠ .leave t) :
    (storeExec cfg s op).inCall t = s.inCall t := by
  cases op with
  | enter =>
    apply update_of_ne
    rintro rfl
    exact hEnter rfl
  | leave =>
    apply update_of_ne
    rintro rfl
    exact hLeave rfl
  | call op =>
    simp only [storeExec]
    split
    · cases op <;> rfl
    · rfl
  | alloc =>
    simp only [storeExec, alloc]
    repeat' split
    all_goals rfl
  | retypeName | schedName =>
    simp only [storeExec, afterName]
    repeat' split
    all_goals rfl
  | drop =>
    simp only [storeExec]
    split <;> rfl
  | shlibFrame => rw [storeExec, (s.shlibFrame_rest cfg).2]
  | revoke | bury => rfl
  | carveFails | closeEnd | die | mapFrame => rfl

----
-- Objects
----

/- The collector finds the entry pinned or marked. -/
def Store.Finds (s : Store) (cls : KobjClass) (i : Nat) : Prop :=
  (s.mem.slots cls i).pinned = true ∨ markReachable s cls i = true

instance Store.Finds.decidable (s : Store) (cls : KobjClass) (i : Nat) :
    Decidable (s.Finds cls i) := by
  unfold Finds
  infer_instance

/- The same object is still at the index. -/
structure Store.StaysAt (s s' : Store) (cls : KobjClass) (i : Nat) : Prop where
  alive : (s'.mem.slots cls i).mem.isSome = true
  same : s'.ids cls i = s.ids cls i
  making : ∀ t x, s'.making t = some x → (x.cls, x.index) ≠ (cls, i)

variable {x : Store}

namespace Store.Settled

variable {s : Store} {cls : KobjClass} {i : Nat} (hSettled : s.Settled cls i)

include hSettled

theorem staysAt_of_eq {s' : Store} (hMem : (s'.mem.slots cls i).mem = (s.mem.slots cls i).mem)
    (hIds : s'.ids = s.ids)
    (hMaking : ∀ t x, s'.making t = some x → ∃ x', s.making t = some x' ∧
        (x.cls, x.index) = (x'.cls, x'.index)) :
    s.StaysAt s' cls i where
  alive := by
    rw [hMem]
    exact hSettled.1
  same := by rw [hIds]
  making := by
    intro t x hNew
    rcases hMaking t x hNew with ⟨x', hOld, hEq⟩
    rw [hEq]
    exact hSettled.2 t x' hOld

theorem kept (hIndex : i < cls.maxDyn)
    (hSlots : x.mem.slots cls i = s.mem.slots cls i) (hIds : x.ids = s.ids)
    (hMaking : x.making = s.making) (hKept : x.Finds cls i) : s.StaysAt (kobjGcLocked x) cls i := by
  apply hSettled.staysAt_of_eq
  · rw [kobjGcLocked_mem, x.swept_slots cls hIndex, sweptSlot_of_kept cls hKept, hSlots]
  · rw [(kobjGcLocked_rest x).2.2.1, hIds]
  · intro t y hNew
    refine ⟨y, ?_, rfl⟩
    rwa [(kobjGcLocked_rest x).2.2.2.1, hMaking] at hNew

/- A free entry is another one. -/
theorem ne_of_free {cls' : KobjClass} {j : Nat} (hFree : (s.mem.slots cls' j).mem = none) :
    (cls, i) ≠ (cls', j) := by
  rintro ⟨⟩
  have hAlive := hSettled.1
  rw [hFree] at hAlive
  cases hAlive

/- A new object gets an entry that was free. -/
theorem alloc (cfg : MemConfig) (cur untypedSlot : Nat) (typ : KobjType) (pages : Nat) :
    s.StaysAt (s.alloc cfg cur untypedSlot typ pages) cls i := by
  have hSelf : s.StaysAt s cls i := ⟨hSettled.1, rfl, hSettled.2⟩
  unfold Store.alloc
  split
  · rename_i u cls' _ hCls
    dsimp only
    split
    · exact hSelf
    rename_i addr index hSome
    rcases Memory.kobjAlloc_slots hSome hCls with ⟨j, slot, _, hOut, hFree, _, _, hSlots⟩
    obtain rfl : j = index - cls'.dynBase := by
      omega
    have hNe := hSettled.ne_of_free hFree
    refine ⟨?_, ids_of_ne hNe, ?_⟩
    · change ((s.mem.kobjAlloc cfg u typ pages).2.slots cls i).mem.isSome = true
      rw [hSlots, Memory.setSlot_of_ne _ _ hNe]
      exact hSettled.1
    · intro t x hNew
      dsimp only at hNew
      rcases eq_or_ne t cur with rfl | hCur
      · rw [update_self] at hNew
        cases hNew
        exact hNe.symm
      · rw [update_of_ne hCur] at hNew
        exact hSettled.2 t x hNew
  · exact hSelf

theorem shlibFrame (cfg : MemConfig) : s.StaysAt (s.shlibFrame cfg) cls i := by
  have hSelf : s.StaysAt s cls i := ⟨hSettled.1, rfl, hSettled.2⟩
  unfold Store.shlibFrame
  dsimp only
  split
  · exact hSelf
  rename_i addr index hSome
  rcases Memory.kobjAlloc_slots hSome
    (show KobjType.frame.indexed = some KobjClass.frame from rfl) with
    ⟨j, slot, _, hOut, hFree, _, _, hSlots⟩
  obtain rfl : j = index - KobjClass.frame.dynBase := by
    omega
  have hNe := hSettled.ne_of_free hFree
  generalize (s.mem.kobjAlloc cfg untypedKernel .frame 1).2 = m at hSlots
  generalize index - KobjClass.frame.dynBase = j at *
  refine ⟨?_, ids_of_ne hNe, hSettled.2⟩
  change ((m.kobjUnpin .frame j).slots cls i).mem.isSome = true
  rw [Memory.kobjUnpin, Memory.setSlot_of_ne _ _ hNe, hSlots, Memory.setSlot_of_ne _ _ hNe]
  exact hSettled.1

/- The object that is named is another one. -/
theorem afterName {x : Making} (hMaking : s.making cur = some x)
    (r : Bool × CapState) : s.StaysAt (s.afterName cur x r) cls i := by
  unfold Store.afterName
  split
  · apply hSettled.staysAt_of_eq
    · unfold Memory.kobjNoteNamed
      split
      · rfl
      rename_i cls' i' _
      by_cases hHere : (cls, i) = (cls', i')
      · rcases hHere with ⟨rfl, rfl⟩
        simp [withMem, Memory.kobjUnpin, withCap, withSys]
      · exact congrArg KobjSlot.mem (Memory.setSlot_of_ne _ _ hHere)
    · rfl
    · exact fun t y hNew => ⟨y, (of_update_none hNew).2, rfl⟩
  · refine hSettled.staysAt_of_eq rfl rfl ?_
    intro t y hNew
    dsimp only at hNew
    rcases eq_or_ne t cur with rfl | hCur
    · rw [update_self] at hNew
      cases hNew
      exact ⟨x, hMaking, rfl⟩
    · rw [update_of_ne hCur] at hNew
      exact ⟨y, hNew, rfl⟩

theorem step (cfg : MemConfig) (op : StoreOp) (hIndex : i < cls.maxDyn)
    (hFinds : ∀ x, sweepsFrom s op = some x → x.Finds cls i) :
    s.StaysAt (storeExec cfg s op) cls i := by
  have hSame : ∀ t x, s.making t = some x → ∃ x', s.making t = some x' ∧
        (x.cls, x.index) = (x'.cls, x'.index) :=
    fun _ x hOld => ⟨x, hOld, rfl⟩
  have hSelf : s.StaysAt s cls i := hSettled.staysAt_of_eq rfl rfl hSame
  cases op with
  | call op =>
    apply hSettled.staysAt_of_eq (call_slots cfg s op cls i)
    · simp only [storeExec]
      split
      · cases op <;> rfl
      · rfl
    · intro t x hNew
      apply hSame
      rw [← hNew]
      simp only [storeExec]
      split
      · cases op <;> rfl
      · rfl
  | alloc cur untypedSlot typ pages => exact hSettled.alloc cfg cur untypedSlot typ pages
  | carveFails cur =>
    refine hSettled.staysAt_of_eq rfl rfl ?_
    intro t x hNew
    simp only [storeExec] at hNew
    rcases eq_or_ne t cur with rfl | hCur
    · rw [update_self, Option.map_eq_some_iff] at hNew
      rcases hNew with ⟨x', hOld, rfl⟩
      exact ⟨x', hOld, rfl⟩
    · rw [update_of_ne hCur] at hNew
      exact hSame t x hNew
  | retypeName | schedName =>
    simp only [storeExec]
    split
    · exact hSelf
    · rename_i x hMaking
      exact hSettled.afterName hMaking _
  | drop cur =>
    simp only [storeExec]
    split
    · exact hSelf
    rename_i x hMaking
    have hNe := hSettled.2 cur x hMaking
    apply hSettled.staysAt_of_eq
    · exact congrArg KobjSlot.mem (Memory.destroyDyn_of_ne _ _ hNe.symm)
    · rfl
    · exact fun t y hNew => hSame t y (of_update_none hNew).2
  | revoke | bury => exact hSettled.kept hIndex rfl rfl rfl (hFinds _ rfl)
  | shlibFrame => exact hSettled.shlibFrame cfg
  | enter | leave | die => exact hSettled.staysAt_of_eq rfl rfl hSame
  | closeEnd | mapFrame => exact hSettled.staysAt_of_eq rfl rfl hSame

end Store.Settled

----
-- Indices That Are Given Out Again
----

/- The next object of a class takes the first entry if free. -/
theorem kobjAlloc_notification {m : Memory} (pages : Nat) (hRegion : u < maxUntyped)
    (hSize : kobjSize cfg.layout .notification 1 ≠ 0) (hFree : (m.slots .notification 0).mem = none)
    (hRoom : (untypedBump cfg.arena (m.untypeds u) (kobjSize cfg.layout .notification 1)
      (kobjAlign .notification)).isSome = true) :
    ∃ start, (m.kobjAlloc cfg u .notification pages).1 =
      some (start, KobjClass.notification.dynBase) := by
  have hIndex : m.kobjIndex .notification = some (some (.notification, 0)) := by
    have hFirst : firstIndex (fun i => (m.slots .notification i).mem.isNone) 256 = some 0 := by
      unfold firstIndex
      rw [List.range_succ_eq_map, List.find?_cons_of_pos]
      rw [hFree]
      rfl
    change Option.map _ (firstIndex _ 256) = _
    rw [hFirst]
    rfl
  rcases Option.isSome_iff_exists.mp hRoom with ⟨⟨start, rest⟩, hBump⟩
  refine ⟨start, ?_⟩
  unfold Memory.kobjAlloc
  rw [if_neg (Nat.not_le_of_lt hRegion)]
  simp only [ne_eq, reduceCtorEq, not_false_eq_true, true_or, if_true]
  rw [if_neg hSize, hIndex]
  simp only [hBump]
  rfl

/- A collection changes the number of objects of a region. -/
theorem destroyDyn_untypeds (m : Memory) (cls : KobjClass) (i : Nat) (mapped : Bool) (u : Nat) :
    ∃ k, (m.destroyDyn cls i mapped).untypeds u = { m.untypeds u with objects := k } := by
  unfold Memory.destroyDyn
  dsimp only
  split
  · exact ⟨_, rfl⟩
  split
  · by_cases hEq : u = (m.slots cls i).untyped
    · subst hEq
      exact ⟨_, m.setObjects_self _ _⟩
    · exact ⟨_, m.setObjects_of_ne _ hEq⟩
  · exact ⟨_, rfl⟩

theorem sweepClass_untypeds (marks mapped : Nat → Bool) (cls : KobjClass) (m : Memory) (u : Nat) :
    ∃ k, (sweepClass marks mapped cls m).untypeds u = { m.untypeds u with objects := k } := by
  unfold sweepClass
  generalize List.range cls.maxDyn = turns
  induction turns generalizing m with
  | nil => exact ⟨_, rfl⟩
  | cons i _ ih =>
  rw [List.foldl_cons]
  rcases ih (sweepTurn marks mapped cls m i) with ⟨k, hRest⟩
  rw [hRest]
  unfold sweepTurn
  split
  · rcases destroyDyn_untypeds m cls i (mapped i) u with ⟨k', hTurn⟩
    exact ⟨k, by rw [hTurn]⟩
  · exact ⟨k, rfl⟩

theorem swept_untypeds (s : Store) (u : Nat) : ∃ k, s.swept.untypeds u =
      { s.mem.untypeds u with objects := k } := by
  have hSweep : ∀ cls m, ∃ k, (s.sweep cls m).untypeds u = { m.untypeds u with objects := k } := by
    intro cls m
    exact sweepClass_untypeds _ _ cls m u
  rw [swept]
  rcases hSweep .endpoint s.mem with ⟨_, hEndpoint⟩
  rcases hSweep .notification (s.sweep .endpoint s.mem) with ⟨_, hNotif⟩
  rcases hSweep .frame (s.sweep .notification (s.sweep .endpoint s.mem)) with ⟨_, hFrame⟩
  rcases hSweep .schedContext (s.sweep .frame
    (s.sweep .notification (s.sweep .endpoint s.mem))) with
    ⟨k, hSched⟩
  exact ⟨k, by rw [hSched, hFrame, hNotif, hEndpoint]⟩

theorem untypedFromSlot_bound {s : Sys} (hSome : untypedFromSlot s cur slot need = some u) :
    u < maxUntyped := by
  unfold untypedFromSlot at hSome
  split at hSome
  · cases hSome
  dsimp only at hSome
  split_ifs at hSome with hMax
  cases hSome
  exact Nat.lt_of_not_le hMax

/- The next notification after a collection. -/
theorem alloc_after_collection (hSlot : untypedFromSlot x.sys cur slot Right.write = some u)
    (hObj : x.sys.obj.untypeds = x.mem.untypeds) (hSize : kobjSize cfg.layout .notification 1 ≠ 0)
    (hGone : markReachable x .notification 0 = false)
    (hPinned : (x.mem.slots .notification 0).pinned = false)
    (hRoom : (untypedBump cfg.arena (x.mem.untypeds u) (kobjSize cfg.layout .notification 1)
      (kobjAlign .notification)).isSome = true) :
    ((kobjGcLocked x).alloc cfg cur slot .notification 0).ids .notification 0 = x.nextId := by
  have hMem := kobjGcLocked_mem x
  have hBound : u < maxUntyped := untypedFromSlot_bound hSlot
  have hFound : untypedFromSlot (kobjGcLocked x).sys cur slot Right.write = some u := by
    have hUse : ∀ v, ((kobjGcLocked x).sys.obj.untypeds v).inUse = (x.sys.obj.untypeds v).inUse := by
      intro v
      rcases swept_untypeds x v with ⟨k, hRegion⟩
      rw [(kobjGcLocked_rest x).2.2.2.2.2, hRegion, hObj]
    rw [← hSlot, untypedFromSlot, untypedFromSlot]
    simp only [(kobjGcLocked_rest x).1, hUse]
  have hFree : ((kobjGcLocked x).mem.slots .notification 0).mem =
      none := by
    rw [hMem, x.swept_slots .notification (by decide)]
    rw [← Option.not_isSome_iff_eq_none, sweptSlot_isSome]
    simp [hGone, hPinned]
  have hBump : (untypedBump cfg.arena ((kobjGcLocked x).mem.untypeds u)
      (kobjSize cfg.layout .notification 1)
      (kobjAlign .notification)).isSome = true := by
    rcases swept_untypeds x u with ⟨k, hRegion⟩
    rw [hMem, hRegion, ← hRoom]
    unfold untypedBump
    dsimp only
    split_ifs <;> rfl
  rcases kobjAlloc_notification 0 hBound hSize hFree hBump with ⟨start, hAlloc⟩
  rw [← (kobjGcLocked_rest x).2.2.2.2.1]
  unfold alloc
  simp only [hFound, KobjType.indexed, hAlloc]
  rw [Nat.sub_self, update_self, update_self]

end Horus
