import Horus.Ipc.Decompose

/-
  The invariant rule for the kernel.

  An operation is a run of moves, so a property that every
  move keeps under a guard holds in every state of every run
  whose operations the guard permits.
-/

namespace Horus

open Kernel

variable {t e n id : Nat} {k : Kernel} {f : IpcTcb → IpcTcb} {op : Op}
    {st : TaskState} {G : Kernel → Move → Prop}

----
-- The Base Under Updates
----

/- A task may be given any state if it has a space. -/
theorem Tables.setState (hTables : Tables k.cap) (st : TaskState) (hMax : t < k.cap.maxTasks)
    (hSpace : (k.cap.tasks t).cspace ≠ none) : Tables (k.setState t st).cap := by
  have hSize : ∀ i, ((k.setState t st).cap.tasks i).cspaceSize = (k.cap.tasks i).cspaceSize := by
    intro i
    rcases eq_or_ne i t with rfl | hEq
    · simp [setState, CapState.setTask]
    · simp [Kernel.setState, CapState.setTask, hEq]
  constructor
  · intro i space hi
    rw [setState_cspace] at hi
    exact hTables.space i space hi
  · intro i j space hi hj
    rw [setState_cspace] at hi hj
    exact hTables.own i j space hi hj
  · intro i hi
    rw [setState_cspace] at hi
    rw [hSize]
    exact hTables.size i hi
  · intro i hi
    rw [setState_cspace]
    rcases eq_or_ne i t with rfl | hEq
    · exact ⟨hSpace, hMax⟩
    · change (k.setState t st).state i ≠ .dead at hi
      rw [setState_state, if_neg hEq] at hi
      exact hTables.live i hi
  · exact hTables.root

theorem unpublishLink_state (k : Kernel) (t i : Nat) : (unpublishLink k t).state i = k.state i := by
  unfold unpublishLink
  split
  · rfl
  · split
    · rfl
    · split <;> rfl
  · rfl
  · rfl

namespace Base

section Updates

variable {k : Kernel} (hBase : Base k)

include hBase

theorem setState (st : TaskState) (hMax : t < k.cap.maxTasks)
    (hSpace : (k.cap.tasks t).cspace ≠ none) : Base (k.setState t st) where
  tables := hBase.tables.setState st hMax hSpace
  __ := hBase
  pending := by
    intro i hi
    rw [setState_cspace]
    exact hBase.pending i hi

theorem modTcb
    (hPending : (f (k.tcbs t)).pendingBlock.isSome = true →
      k.Slot t ∧ (k.cap.tasks t).cspace ≠ none) :
    Base (k.modTcb t f) where
  __ := hBase
  pending := by
    intro i hi
    rw [modTcb_tcbs] at hi
    split at hi
    · rename_i hEq
      subst hEq
      exact hPending hi
    · exact hBase.pending i hi

theorem modEp (e : Nat) (f : Endpoint → Endpoint) : Base (k.modEp e f) where
  __ := hBase
  eps := by
    intro j hj
    apply hBase.eps
    rw [modEp_eps] at hj
    split at hj
    · rename_i hEq
      subst hEq
      simpa using hj
    · exact hj

theorem modNotif (n : Nat) (f : Notification → Notification) : Base (k.modNotif n f) where
  __ := hBase
  notifs := by
    intro j hj
    apply hBase.notifs
    rw [modNotif_notifs] at hj
    split at hj
    · rename_i hEq
      subst hEq
      simpa using hj
    · exact hj

theorem setEp (E : Option Endpoint) (hIndex : e < epIndexMax) : Base (k.setEp e E) where
  __ := hBase
  eps := by
    intro j hj
    rw [setEp_eps] at hj
    split at hj
    · rename_i hEq
      rw [hEq]
      exact hIndex
    · exact hBase.eps j hj

theorem setNotif (N : Option Notification)
    (hIndex : n < notifIndexMax) : Base (k.setNotif n N) where
  __ := hBase
  notifs := by
    intro j hj
    rw [setNotif_notifs] at hj
    split at hj
    · rename_i hEq
      rw [hEq]
      exact hIndex
    · exact hBase.notifs j hj

theorem unlinkEp (t : Nat) : Base (k.unlinkEp t) where
  __ := hBase
  eps := by
    intro e he
    apply hBase.eps
    rw [unlinkEp_eps] at he
    split at he
    · simpa using he
    · exact he

theorem unlinkNotif (t : Nat) : Base (k.unlinkNotif t) where
  __ := hBase
  notifs := by
    intro n hn
    apply hBase.notifs
    dsimp only [Kernel.unlinkNotif] at hn
    split at hn
    · simpa using hn
    · exact hn

/- A change of fields that says nothing about blocking. -/
theorem keepTcb (hKeep : (f (k.tcbs t)).pendingBlock = (k.tcbs t).pendingBlock) :
    Base (k.modTcb t f) := by
  apply hBase.modTcb
  rw [hKeep]
  exact hBase.pending t

/- A task that is no longer about to block. -/
theorem clearTcb (hClear : (f (k.tcbs t)).pendingBlock = none) : Base (k.modTcb t f) := by
  apply hBase.modTcb
  rw [hClear]
  nofun

theorem setSys {s : Sys} (hTables : Tables s.cap) (hRegions : RegionsFit s.obj)
    (hSpace : ∀ t, (k.cap.tasks t).cspace ≠ none → (s.cap.tasks t).cspace ≠ none)
    (hMax : s.cap.maxTasks = k.cap.maxTasks) : Base (k.setSys s) where
  tables := hTables
  regions := hRegions
  pending := by
    intro t ht
    rcases hBase.pending t ht with ⟨hSlot, hHas⟩
    refine ⟨⟨hSlot.1, ?_⟩, hSpace t hHas⟩
    change t < s.cap.maxTasks
    rw [hMax]
    exact hSlot.2
  eps := hBase.eps
  notifs := hBase.notifs
  few := by
    change s.cap.maxTasks ≤ 256
    rw [hMax]
    exact hBase.few

end Updates

----
-- Capability Operations
----

section Caps

variable {k : Kernel} (hBase : Base k)

include hBase

theorem exec_tables (op : Op) (hEnabled : enabled k.cap op = true) : Tables (exec k.sys op).2.cap :=
  Tables.step (s := k.sys) hBase.tables op (fun _ _ _ _ _ => hBase.regions) hEnabled

theorem cap (hPlain : op.plain = true) (hEnabled : enabled k.cap op = true) :
    Base (k.setSys (exec k.sys op).2) := by
  have hSame := exec_sameTasks k.sys op hPlain
  apply hBase.setSys
  · exact hBase.exec_tables _ hEnabled
  · exact RegionsFit.exec (s := k.sys) hBase.regions op
  · intro t hSpace
    rw [hSame.tasks]
    exact hSpace
  · exact hSame.maxTasks

theorem birth (hCreates : op.creates = some id) (hEnabled : enabled k.cap op = true) :
    Base ((k.setSys (exec k.sys op).2).resetTask id) where
  tables := hBase.exec_tables _ hEnabled
  regions := RegionsFit.exec (s := k.sys) hBase.regions op
  pending := by
    have hNew := exec_creates k.sys op id hCreates
    intro t ht
    simp only [resetTask, modTcb_tcbs] at ht
    split at ht
    · cases ht
    rename_i hNe
    rcases hBase.pending t ht with ⟨hSlot, hSpace⟩
    refine ⟨⟨hSlot.1, ?_⟩, ?_⟩
    · change t < (exec k.sys op).2.cap.maxTasks
      rw [hNew.other.maxTasks]
      exact hSlot.2
    · change ((exec k.sys op).2.cap.tasks t).cspace ≠ none
      rw [hNew.other.tasks t hNe]
      exact hSpace
  eps := hBase.eps
  notifs := hBase.notifs
  few := by
    change (exec k.sys op).2.cap.maxTasks ≤ 256
    rw [(exec_creates k.sys op id hCreates).other.maxTasks]
    exact hBase.few

theorem bury {scratch : Scratch} (hSlot : k.Slot id)
    (hAlive : k.state id ≠ .dead) : Base (k.bury id scratch) := by
  rcases taskTeardown_tasks k.sys id scratch hAlive with ⟨hTasks, hMax⟩
  have hEnabled : enabled k.cap (.teardown id scratch) = true := by
    simp only [enabled, decide_eq_true_eq]
    exact ⟨Nat.pos_iff_ne_zero.mp hSlot.1, hSlot.2⟩
  refine keepTcb (k := k.setSys (taskTeardown k.sys id scratch)) (hBase.setSys ?_ ?_ ?_ hMax) rfl
  · exact hBase.exec_tables _ hEnabled
  · exact RegionsFit.exec (s := k.sys) hBase.regions (.teardown id scratch)
  intro t hSpace
  rw [hTasks]
  rcases eq_or_ne t id with rfl | hEq
  · rw [Function.update_self]
    exact hSpace
  · rw [Function.update_of_ne hEq]
    exact hSpace

theorem setCap {c : CapState} (hTables : Tables c)
    (hSame : SameTasks k.cap c) : Base (k.setCap c) := by
  refine hBase.setSys (s := { cap := c, obj := k.obj }) hTables hBase.regions ?_ hSame.maxTasks
  intro t hSpace
  rw [hSame.tasks]
  exact hSpace

theorem grantReply {w sender senderGen : Nat} {call : Option Nat}
    (hSlot : k.Slot w) (hAlive : k.state w ≠ .dead) :
    Base (k.grantReply w sender senderGen call) := by
  have hCap := hBase.setCap (hBase.exec_tables (.installReplyFor w sender senderGen)
      (hSlot.running hAlive))
    (sameTasks_capInstallReplyFor k.cap w sender senderGen)
  unfold Kernel.grantReply Kernel.granted
  split
  · exact keepTcb (k := k.setCap _) hCap rfl
  · exact hCap

theorem consumeReply {q : Nat} (hRun : k.cap.running q = true) : Base (k.consumeReply q) :=
  hBase.setCap (hBase.exec_tables (.consumeReply q) hRun)
    (sameTasks_capConsumeSlot k.cap q capslotReply)

end Caps

----
-- Moves
----

section Move

variable {k : Kernel} (hBase : Base k)

include hBase

/- A blocked or runnable task changes state and fields. -/
theorem wake (hAlive : k.state t ≠ .dead)
    (hKeep : (f (k.tcbs t)).pendingBlock = (k.tcbs t).pendingBlock) :
    Base ((k.setState t st).modTcb t f) := by
  rcases hBase.tables.live t hAlive with ⟨hSpace, hMax⟩
  exact (hBase.setState st hMax hSpace).keepTcb hKeep

/- A block that was pending ends or becomes a wait. -/
theorem publish (hPending : (k.tcbs t).pendingBlock.isSome = true)
    (hClear : (f (k.tcbs t)).pendingBlock = none) : Base ((k.setState t st).modTcb t f) := by
  rcases hBase.pending t hPending with ⟨hSlot, hSpace⟩
  exact (hBase.setState st hSlot.2 hSpace).clearTcb hClear

theorem wakeNamed {waiter : Option Nat} (hKeep : ∀ x, (f x).pendingBlock = x.pendingBlock) :
    Base (k.wakeNamed waiter f) := by
  unfold Kernel.wakeNamed
  split
  · exact hBase
  split
  · exact hBase
  · rename_i hAlive
    exact hBase.wake hAlive (hKeep _)

theorem unpublish (t : Nat) : Base (unpublishLink k t) := by
  unfold unpublishLink
  split
  · exact (hBase.unlinkEp t).keepTcb rfl
  · refine keepTcb ?_ rfl
    split
    · exact hBase
    · split
      · exact hBase.keepTcb rfl
      · exact hBase
  · exact hBase.unlinkNotif t
  · exact hBase

theorem destroyEp (hDyn : dynEp e = true) : Base (destroyDynEndpoint k e) := by
  simp only [dynEp, Bool.and_eq_true, decide_eq_true_eq] at hDyn
  unfold destroyDynEndpoint
  split
  · exact hBase
  · refine setEp ?_ none hDyn.2
    exact hBase.wakeNamed fun _ => rfl

theorem destroyNotif (hDyn : dynNotif n = true) : Base (destroyDynNotification k n) := by
  simp only [dynNotif, Bool.and_eq_true, decide_eq_true_eq] at hDyn
  unfold destroyDynNotification
  split
  · exact hBase
  · refine setNotif ?_ none hDyn.2
    exact hBase.wakeNamed fun _ => rfl

theorem canCall_cspace (hCall : k.canCall t = true) : k.Slot t ∧ (k.cap.tasks t).cspace ≠ none := by
  rcases canCall_iff.mp hCall with ⟨hSlot, hRun, _⟩
  have hAlive : k.state t ≠ .dead := by
    rw [hRun]
    nofun
  exact ⟨hSlot, (hBase.tables.live t hAlive).1⟩

theorem move (move : Move) (hOk : move.Ok k) : Base (move.apply k) := by
  cases move with
  | cap => exact hBase.cap hOk.1 hOk.2.1
  | birth => exact hBase.birth hOk.1 hOk.2
  | bury => exact hBase.bury hOk.1 hOk.2
  | intendRecv =>
    unfold Move.apply intendRecv
    exact hBase.modTcb fun _ => hBase.canCall_cspace hOk.1
  | intendCall =>
    unfold Move.apply intendCall
    have hNext : Base k.nextNumber := { hBase with }
    exact hNext.modTcb fun _ => hBase.canCall_cspace hOk.1
  | intendNotif =>
    unfold Move.apply intendNotif
    exact hBase.modTcb fun _ => hBase.canCall_cspace hOk
  | intendWait =>
    unfold Move.apply intendWait
    exact hBase.modTcb fun _ => hBase.canCall_cspace hOk
  | abortCall =>
    unfold Move.apply abortCall
    exact hBase.clearTcb rfl
  | saveFrame =>
    unfold Move.apply saveFrame
    exact hBase.keepTcb rfl
  | patch =>
    unfold Move.apply patch
    exact hBase.keepTcb rfl
  | patchBoth =>
    unfold Move.apply patchBoth
    exact hBase.keepTcb rfl
  | tell e =>
    unfold Move.apply Kernel.tell
    exact (hBase.modEp e _).keepTcb rfl
  | grantReply => exact hBase.grantReply hOk.1 hOk.2.1
  | deliver e =>
    unfold Move.apply deliver
    rcases hOk.1 with ⟨E, _, hWaiter⟩
    have hBlocked := (parkedReceiver_eq_some.mp hWaiter).2.2.1
    refine (hBase.modEp e _).wake ?_ rfl
    exact ne_of_eq_of_ne hBlocked nofun
  | enqueue e => exact hBase.modEp e _
  | take e => exact hBase.modEp e _
  | receive e => exact hBase.modEp e _
  | dropBlock =>
    unfold Move.apply dropBlock
    exact hBase.publish hOk.2 rfl
  | settle =>
    unfold Move.apply settle
    exact hBase.publish (Option.isSome_of_eq_some hOk.2) rfl
  | settleNotif =>
    unfold Move.apply settleNotif
    exact hBase.publish (Option.isSome_of_eq_some hOk.2) rfl
  | settleWait =>
    unfold Move.apply settleWait
    exact hBase.publish (Option.isSome_of_eq_some hOk.2) rfl
  | park t e =>
    unfold Move.apply park
    exact (hBase.modEp e _).publish (Option.isSome_of_eq_some hOk.2.1) rfl
  | parkNotif t n =>
    unfold Move.apply parkNotif
    exact (hBase.modNotif n _).publish (Option.isSome_of_eq_some hOk.2.1) rfl
  | parkWait t tid =>
    unfold Move.apply parkWait
    refine publish (hBase.keepTcb rfl) ?_ rfl
    have hSome := Option.isSome_of_eq_some hOk.2.1
    rcases eq_or_ne t tid with rfl | hEq
    · simpa using hSome
    · simpa [hEq] using hSome
  | unpark t =>
    unfold Move.apply wakeWait
    refine (hBase.unpublish t).wake ?_ rfl
    rw [unpublishLink_state]
    rcases hOk.2 with hState | hState | hState <;> rw [hState] <;> nofun
  | forget =>
    unfold Move.apply 
    exact hBase.keepTcb rfl
  | wakeWait =>
    unfold Move.apply wakeWait
    exact hBase.wake (ne_of_eq_of_ne hOk nofun) rfl
  | setBadge n => exact hBase.modNotif n _
  | wakeNotif n =>
    unfold Move.apply wakeNotif
    rcases hOk with ⟨N, _, hWaiter⟩
    have hBlocked := (parkedWaiter_eq_some.mp hWaiter).2.2
    refine (hBase.modNotif n _).wake ?_ rfl
    exact ne_of_eq_of_ne hBlocked nofun
  | answer q t =>
    unfold Move.apply answer
    have hLog : Base (k.logReply q t) := { hBase with }
    refine (hLog.unlinkEp t).wake ?_ rfl
    exact ne_of_eq_of_ne hOk.2.2.1 nofun
  | consumeReply => exact hBase.consumeReply hOk
  | makeEp =>
    have hDyn := hOk.1
    simp only [dynEp, Bool.and_eq_true, decide_eq_true_eq] at hDyn
    exact hBase.setEp _ hDyn.2
  | makeNotif =>
    have hDyn := hOk.1
    simp only [dynNotif, Bool.and_eq_true, decide_eq_true_eq] at hDyn
    exact hBase.setNotif _ hDyn.2
  | destroyEp => exact hBase.destroyEp hOk.1
  | destroyNotif => exact hBase.destroyNotif hOk.1

end Move

end Base

theorem base_boot (cfg : BootConfig) : Base (kernelBoot cfg) where
  tables := tables_bootCap cfg
  regions := regionsFit_boot cfg
  pending := nofun
  eps := by
    intro e he
    simp only [kernelBoot] at he
    split at he
    · rename_i hLow
      exact Nat.lt_of_lt_of_le hLow (Nat.le_add_right _ _)
    · cases he
  notifs := by
    intro n hn
    simp only [kernelBoot] at hn
    split at hn
    · rename_i hLow
      exact Nat.lt_of_lt_of_le hLow (Nat.le_add_right _ _)
    · cases hn
  few := cfg.fewTasks

/- Along a run of moves. -/
theorem MoveRun.invariant (I : Kernel → Prop)
    (hMove : ∀ (k : Kernel) (move : Move), Base k → I k → move.Ok k → G k move → I (move.apply k))
    {k' : Kernel} (hRun : MoveRun G k k') (hBase : Base k) (hInit : I k) : Base k' ∧ I k' :=
  Lib.Run.invariant (fun k => Base k ∧ I k) (fun k move hk hOk =>
      ⟨hk.1.move move hOk.1, hMove k move hk.1 hk.2 hOk.1 hOk.2⟩)
    hRun ⟨hBase, hInit⟩

/-
  An invariant that each move keeps under the guard holds
  along runs whose condition permits the guard.
-/
theorem KernelRun.invariant {C : Kernel → KernelOp → Prop} (I : Kernel → Prop) (hFree : Unguarded G)
    (hPermits : ∀ k op, Base k → I k → kernelEnabled k op = true → C k op → KernelPermits G k op)
    (hMove : ∀ (k : Kernel) (move : Move), Base k → I k → move.Ok k → G k move → I (move.apply k))
    {cfg : BootConfig} (hRun : KernelRun C (kernelBoot cfg) k)
    (hInit : I (kernelBoot cfg)) : Base k ∧ I k := by
  refine Lib.Run.invariant (fun k => Base k ∧ I k) ?_ hRun ⟨base_boot cfg, hInit⟩
  rintro k op ⟨hBase, hI⟩ ⟨hEnabled, hC⟩
  exact MoveRun.invariant I hMove (kernelExec_run hFree op hEnabled
      (hPermits k op hBase hI hEnabled hC)) hBase hI

end Horus
