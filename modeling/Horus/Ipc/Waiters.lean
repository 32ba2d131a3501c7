import Horus.Ipc.Waiting

/-
  Who is woken by a send and by a notify, and that whoever is
  blocked can be woken.

  A message is handed only to a task that waits, in its present
  incarnation, where the message was sent. This fails when a
  task is created in a slot that an endpoint still names. A
  blocked task is the waiter of its object. This fails when a
  second task blocks there, since the object has room for one
  name.

  Main declarations:
    * `WaitsOn`
    * `NoNamedBirth`, `handoff_reaches_waiter`
    * `NoRivalBlock`, `blocked_is_waiter`
-/

namespace Horus

open Kernel
open Lib (Phase Lot Turn)

variable {move : Move} {t e n : Nat} {cfg : BootConfig}

variable {k : Kernel}

/- A property of lots that every turn keeps under a guard. -/
theorem Move.keepsLot {H : Lot Nat Obj → Turn Nat Obj → Prop}
    {P : Lot Nat Obj → Prop} (hFree : GuardsParking H)
    (hTurn : ∀ L turn, P L → turn.Ok L → H L turn → P (turn.apply L)) (hOk : move.Ok k) (hParks : move.Parks H k)
    (hInit : P k.lot) : P (move.apply k).lot :=
  Lib.Run.invariant P (fun L turn hP h => hTurn L turn hP h.1 h.2)
    (move.turns hFree hOk hParks) hInit

/- At boot nothing is named and nobody is blocked. -/
theorem link_boot (cfg : BootConfig) (o : Obj) : (kernelBoot cfg).lot.link o = none := by
  cases o with
  | ep | notif =>
    simp only [lot, link, kernelBoot]
    split <;> rfl

theorem state_boot (cfg : BootConfig) (t : Nat) : (kernelBoot cfg).state t = .runnable ∨
      (kernelBoot cfg).state t = .dead := by
  rcases eq_or_ne t 0 with rfl | hZero
  · left
    rfl
  · right
    change ((bootCap cfg).tasks t).state = .dead
    rw [show (bootCap cfg).tasks t = Tcb.empty from Function.update_of_ne hZero _ _]
    rfl

----
-- Messages Go Where They Were Sent
----

/- The incarnation that blocked is the present one. -/
def Task.Parked (x : Task) : Prop :=
  x.state = .blockedIpc ∨ x.state = .blockedNotif → x.tcb.parkGen = x.gen

theorem Task.Parked.step {x y : Task}
    (hParked : x.Parked) (hStep : TaskStep k t x move y) : y.Parked := by
  cases hStep with
  | born _ hState =>
    rintro (hBlocked | hBlocked) <;>
      rcases hState with rfl | rfl <;> cases hBlocked
  | parked => exact fun _ => rfl
  | parkedNotif => exact fun _ => rfl
  | parkedWait => nofun
  | died => nofun
  | same | fields | intendRecv | intendCall | intendNotif
  | intendWait | abortCall | told | granted => exact hParked
  | _ => nofun

/- `t` waits on the object `o`, and has since it was created. -/
structure WaitsOn (k : Kernel) (t : Nat) (o : Obj) : Prop where
  phase : k.lot.phase t = .parked (some o)
  gen : (k.tcbs t).parkGen = k.gen t

theorem waitsOn_ep : WaitsOn k t (.ep e) ↔
      k.state t = .blockedIpc ∧ (k.tcbs t).blockedOn = some e ∧ (k.tcbs t).parkGen = k.gen t := by
  constructor
  · rintro ⟨hPhase, hGen⟩
    cases hState : k.state t <;> simp [lot, hState, phaseOf] at hPhase
    exact ⟨rfl, hPhase, hGen⟩
  · rintro ⟨hState, hOn, hGen⟩
    exact ⟨by simp [lot, hState, phaseOf, hOn], hGen⟩

theorem waitsOn_notif :
    WaitsOn k t (.notif n) ↔ k.state t = .blockedNotif ∧ (k.tcbs t).blockedOnNotif = some n ∧
        (k.tcbs t).parkGen = k.gen t := by
  constructor
  · rintro ⟨hPhase, hGen⟩
    cases hState : k.state t <;> simp [lot, hState, phaseOf] at hPhase
    exact ⟨rfl, hPhase, hGen⟩
  · rintro ⟨hState, hOn, hGen⟩
    exact ⟨by simp [lot, hState, phaseOf, hOn], hGen⟩

/- Some endpoint or notification names the slot `id`. -/
def Kernel.names (k : Kernel) (id : Nat) : Bool :=
  ((List.range epIndexMax).any fun e => (k.eps e).any fun E => E.blockedWaiter = some id) ||
  ((List.range notifIndexMax).any fun n => (k.notifs n).any fun N => N.blockedWaiter = some id)

/- No task is created in a slot that an object names. -/
def NoNamedBirth (k : Kernel) : KernelOp → Prop
  | .cap op => ∀ id, op.creates = some id → k.names id = false
  | _ => True

theorem Base.not_linked (hBase : Base k) {id : Nat}
    (hNames : k.names id = false) (o : Obj) : k.lot.link o ≠ some id := by
  simp only [names, Bool.or_eq_false_iff, List.any_eq_false, List.mem_range] at hNames
  intro hLink
  cases o with simp only [lot, link, Option.bind_eq_some_iff] at hLink
  | ep e =>
    rcases hLink with ⟨E, hEp, hRange⟩
    refine hNames.1 e (hBase.eps e (Option.isSome_of_eq_some hEp)) ?_
    simp [hEp, (inRange_eq_some.mp hRange).1]
  | notif n =>
    rcases hLink with ⟨N, hNotif, hRange⟩
    refine hNames.2 n (hBase.notifs n (Option.isSome_of_eq_some hNotif)) ?_
    simp [hNotif, (inRange_eq_some.mp hRange).1]

/- The guard that the condition stands for. -/
def NamedBirthGuard (k : Kernel) : Move → Prop
  | .birth _ id => ∀ o, k.lot.link o ≠ some id
  | _ => True

variable {op : KernelOp}

theorem namedBirth_permits (hBase : Base k)
    (hCond : NoNamedBirth k op) : KernelPermits NamedBirthGuard k op := by
  cases op with
  | cap =>
    simp only [KernelPermits]
    split
    · rename_i id hCreates
      exact hBase.not_linked (hCond id hCreates)
    · trivial
  | publish => constructor <;> simp [NamedBirthGuard]
  | _ => simp [KernelPermits, SendPermits, RecvPermits, NamedBirthGuard]

/- Names on objects are those of tasks blocked there. -/
theorem linked_run (hRun : KernelRun NoNamedBirth (kernelBoot cfg) k) :
    Lib.Linked k.lot ∧ ∀ t, (k.task t).Parked := by
  refine (KernelRun.invariant (G := NamedBirthGuard)
    (fun k => Lib.Linked k.lot ∧ ∀ t, (k.task t).Parked) ?_ ?_ ?_
    hRun ?_).2
  · intro k move hOpen
    cases move with
    | birth => cases hOpen
    | _ => trivial
  · intro k op hBase _ _ hCond
    exact namedBirth_permits hBase hCond
  · rintro k move - ⟨hLinked, hParked⟩ hOk hG
    constructor
    · refine Move.keepsLot (H := fun L turn => turn.Unnamed L)
        ?_ (fun L turn hP hOk hH => hP.turn turn hOk hH) hOk ?_
        hLinked
      · intro L turn _ hBorn t alive hEq
        exact absurd hEq (hBorn t alive)
      constructor
      · rintro op id alive rfl t alive' hEq
        cases hEq
        exact hG
      · rintro t e rfl t' alive' hEq
        cases hEq
      · rintro t n rfl t' alive' hEq
        cases hEq
    · exact fun t => (hParked t).step (move.taskStep hOk t)
  · refine ⟨⟨?_, ?_⟩, ?_⟩
    · intro o t hLink
      rw [link_boot] at hLink
      cases hLink
    · intro o t hLink
      rw [link_boot] at hLink
      cases hLink
    intro t hBlocked
    rcases state_boot cfg t with hState | hState <;>
      rcases hBlocked with hBlocked | hBlocked <;>
      · rw [show ((kernelBoot cfg).task t).state = _ from hState] at hBlocked
        cases hBlocked

----
-- Whom an Operation Wakes
----

/- The endpoint that an operation sends a message on. -/
def KernelOp.sendsOn (k : Kernel) : KernelOp → Option Nat
  | .send cur slot _ _ _ | .call cur slot _ _ _ _ _ _ =>
    (ipcEpAndInvoker k cur slot Right.write).map (·.1)
  | .ipcReply cur slot _ _ _ => ipcEpFromSlot k cur slot Right.write
  | _ => none

/- The notification that an operation signals. -/
def KernelOp.notifies (k : Kernel) : KernelOp → Option Nat
  | .notify cur slot _ => ipcNotifFromSlot k cur slot Right.write
  | .irqNotify n _ => some n
  | _ => none

def KernelOp.sender : KernelOp → Option Nat
  | .send cur _ _ _ _ | .call cur _ _ _ _ _ _ _
  | .ipcReply cur _ _ _ _ => some cur
  | _ => none

theorem SameTask.trans {k' k'' : Kernel} (hFirst : SameTask t k k') (hSecond : SameTask t k' k'') :
    SameTask t k k'' :=
  ⟨hSecond.state.trans hFirst.state, hSecond.tcb.trans hFirst.tcb⟩

/- The request of a call goes to the receiver parked there. -/
theorem ipcCallCommon_sameTask {cur slot len buf room : Nat}
    {user : List UInt8} {recvSlot carrySlot : Option Nat} (hNe : t ≠ cur)
    (hOther : ∀ e inv serial E, ipcEpAndInvoker k cur slot Right.write = some (e, inv, serial) →
      k.eps e = some E → k.parkedReceiver E ≠ some t) :
    SameTask t k (ipcCallCommon k cur slot user len buf recvSlot carrySlot room).2 := by
  unfold ipcCallCommon
  split
  · exact SameTask.refl t k
  rename_i e inv serial hLookup
  split
  · exact SameTask.refl t k
  rename_i inv' _
  split
  · exact SameTask.refl t k
  split
  · exact SameTask.refl t k
  rename_i rep _
  have hIntent : SameTask t k (k.intendCall cur rep buf recvSlot slot serial) :=
    ⟨rfl, by simp [intendCall, hNe]⟩
  have hSend : SameTask t (k.intendCall cur rep buf recvSlot slot serial)
      (sysIpcSend (k.intendCall cur rep buf recvSlot slot serial) cur e user len inv' room).2 :=
    sysIpcSend_sameTask (fun E hEp => hOther e inv serial E hLookup hEp)
  have hSent := hIntent.trans hSend
  dsimp only
  split
  · exact hSent.trans ⟨rfl, by simp [abortCall, hNe]⟩
  · exact hSent

/- A notify touches no task but the one that waits there. -/
theorem sysNotify_sameTask {badge : BitVec 32}
    (hOther : ∀ N, k.notifs n = some N → k.parkedWaiter N ≠ some t) :
    SameTask t k (sysNotify k n badge).2 := by
  unfold sysNotify
  split
  · exact SameTask.refl t k
  rename_i N hNotif
  split
  · exact ⟨rfl, rfl⟩
  rename_i w hWaiter
  have hNe : t ≠ w := by
    rintro rfl
    exact hOther N hNotif hWaiter
  constructor
  · simp [wakeNotif, patchBoth, hNe]
  · simp [wakeNotif, patchBoth, hNe]

/- A send touches its caller and the receiver parked there. -/
theorem send_wakes (hSends : op.sendsOn k = some e) (hCaller : op.sender ≠ some t)
    (hChanged : ¬ SameTask t k (kernelExec k op).2) :
    ∃ E, k.eps e = some E ∧ k.parkedReceiver E = some t := by
  by_contra hNone
  push Not at hNone
  apply hChanged
  cases op with
  | send =>
    simp only [KernelOp.sendsOn, Option.map_eq_some_iff] at hSends
    rcases hSends with ⟨⟨e', inv, serial⟩, hLookup, rfl⟩
    simp only [kernelExec, hIpcSend, hLookup]
    exact sysIpcSend_sameTask hNone
  | ipcReply =>
    simp only [KernelOp.sendsOn] at hSends
    simp only [kernelExec, hIpcReply, hSends]
    exact sysIpcSend_sameTask hNone
  | call =>
    simp only [KernelOp.sendsOn, Option.map_eq_some_iff] at hSends
    rcases hSends with ⟨⟨e', inv, serial⟩, hLookup, rfl⟩
    apply ipcCallCommon_sameTask
    · rintro rfl
      exact hCaller rfl
    intro e'' inv' serial' E hLookup' hEp
    rw [hLookup] at hLookup'
    cases hLookup'
    exact hNone E hEp
  | _ => cases hSends

theorem notify_wakes (hNotifies : op.notifies k = some n)
    (hChanged : ¬ SameTask t k (kernelExec k op).2) :
    ∃ N, k.notifs n = some N ∧ k.parkedWaiter N = some t := by
  by_contra hNone
  push Not at hNone
  apply hChanged
  cases op with
  | notify =>
    simp only [KernelOp.notifies] at hNotifies
    simp only [kernelExec, hNotify, throughNotif, hNotifies]
    exact sysNotify_sameTask hNone
  | irqNotify =>
    cases hNotifies
    exact sysNotify_sameTask hNone
  | _ => cases hNotifies

/-
  Whoever a send or a notify changes, its caller apart, waits
  on that endpoint or notification in its present incarnation.
-/
theorem handoff_reaches_waiter (cfg : BootConfig) (k : Kernel)
    (hRun : KernelRun NoNamedBirth (kernelBoot cfg) k) (op : KernelOp) (t : Nat)
    (hChanged : ¬ SameTask t k (kernelExec k op).2) :
    (∀ e, op.sendsOn k = some e → op.sender ≠ some t →
      k.state t = .blockedIpc ∧ (k.tcbs t).blockedOn = some e ∧ (k.tcbs t).parkGen = k.gen t) ∧
    (∀ n, op.notifies k = some n → k.state t = .blockedNotif ∧ (k.tcbs t).blockedOnNotif = some n ∧
        (k.tcbs t).parkGen = k.gen t) := by
  rcases linked_run hRun with ⟨hLinked, hParked⟩
  constructor
  · intro e hSends hCaller
    rcases send_wakes hSends hCaller hChanged with ⟨E, hEp, hWaiter⟩
    rcases parkedReceiver_eq_some.mp hWaiter with ⟨hNamed, hSlot, hBlocked, _⟩
    refine waitsOn_ep.mp ⟨hLinked.there (.ep e) t ?_ ?_, hParked t (.inl hBlocked)⟩
    · simp only [lot, link, hEp, Option.bind_some]
      exact inRange_eq_some.mpr ⟨hNamed, hSlot⟩
    · simp [lot, hBlocked, phaseOf]
  · intro n hNotifies
    rcases notify_wakes hNotifies hChanged with ⟨N, hNotif, hWaiter⟩
    rcases parkedWaiter_eq_some.mp hWaiter with ⟨hNamed, hSlot, hBlocked⟩
    refine waitsOn_notif.mp ⟨hLinked.there (.notif n) t ?_ ?_, hParked t (.inr hBlocked)⟩
    · simp only [lot, link, hNotif, Option.bind_some]
      exact inRange_eq_some.mpr ⟨hNamed, hSlot⟩
    · simp [lot, hBlocked, phaseOf]

/- Task 1 waits on endpoint 4 and task 2 sends there. -/
def meetAtFour : List KernelOp :=
  [.cap (.createTask 1 .kernel), .cap (.installFromRoot 1 30 13 4),
    .recvBlock 1 30 4096 256 256, .publish 1 ⟨0, 0⟩ 0 false,
    .cap (.createTask 2 .kernel),
    .cap (.installFromRoot 2 30 13 4)]

theorem handoff_reaches_waiter_meetAtFour : (KernelOp.send 2 30 [1, 2, 3] 3 256).sendsOn
        (kernelExecAll (kernelBoot smallMachine) meetAtFour) =
      some 4 ∧
    ((kernelExecAll (kernelBoot smallMachine) meetAtFour).tcbs 1).blockedOn = some 4 := by
  have hRun : KernelRun NoNamedBirth (kernelBoot smallMachine)
      (kernelExecAll (kernelBoot smallMachine) meetAtFour) := by
    apply kernelRun_execAll
    refine ⟨⟨by decide +kernel, ?_⟩, ⟨by decide +kernel, ?_⟩, ⟨by decide +kernel, trivial⟩,
      ⟨by decide +kernel, trivial⟩, ⟨by decide +kernel, ?_⟩,
      ⟨by decide +kernel, ?_⟩, trivial⟩
    all_goals
      intro id hCreates
      cases hCreates
    all_goals decide +kernel
  have hSends : (KernelOp.send 2 30 [1, 2, 3] 3 256).sendsOn
      (kernelExecAll (kernelBoot smallMachine) meetAtFour) = some 4 := by
    decide +kernel
  have hChanged : ¬ SameTask 1 (kernelExecAll (kernelBoot smallMachine) meetAtFour)
      (kernelExec (kernelExecAll (kernelBoot smallMachine) meetAtFour)
        (.send 2 30 [1, 2, 3] 3 256)).2 := by
    intro hSame
    have hState := hSame.state
    revert hState
    decide +kernel
  exact ⟨hSends, ((handoff_reaches_waiter smallMachine _ hRun
      (.send 2 30 [1, 2, 3] 3 256) 1 hChanged).1 4 hSends
      nofun).2.1⟩

/-
  Task 1 is killed while it waits on endpoint 4. The task
  created in its slot waits on its own endpoint 65 and is
  handed the message that task 2 sends to endpoint 4.
-/
def staleWaiter : List KernelOp :=
  [.cap (.createTask 1 .kernel), .cap (.installFromRoot 1 30 13 4),
    .recvBlock 1 30 4096 256 256, .publish 1 ⟨0, 0⟩ 0 false,
    .cap (.teardown 1 fun _ => (0, 0)),
    .cap (.createTask 1 .kernel),
    .cap (.createTask 2 .kernel),
    .cap (.installFromRoot 2 30 13 4),
    .recvBlock 1 4 4096 256 256, .publish 1 ⟨0, 0⟩ 0 false]

theorem handoff_reaches_successor :
    ∃ k, KernelRun (fun _ _ => True) (kernelBoot smallMachine) k ∧
      kernelEnabled k (.send 2 30 [1, 2, 3] 3 256) = true ∧
      (KernelOp.send 2 30 [1, 2, 3] 3 256).sendsOn k = some 4 ∧ k.state 1 = .blockedIpc ∧
      (k.tcbs 1).blockedOn = some 65 ∧ (kernelExec k (.send 2 30 [1, 2, 3] 3 256)).2.state 1 =
        .runnable := by
  refine ⟨kernelExecAll (kernelBoot smallMachine) staleWaiter, kernelRun_execAll staleWaiter ?_, ?_⟩
  · decide +kernel
  · decide +kernel

----
-- No Waiter Is Lost
----

/- `t` is blocked where `cur` is about to block. -/
def Kernel.Rival (k : Kernel) (cur t : Nat) : Prop :=
  t ≠ cur ∧
  ((k.tcbs cur).pendingBlock = some .ipc ∧ k.state t = .blockedIpc ∧
      (k.tcbs t).blockedOn = (k.tcbs cur).blockedOn ∨
    (k.tcbs cur).pendingBlock = some .notif ∧ k.state t = .blockedNotif ∧
      (k.tcbs t).blockedOnNotif = (k.tcbs cur).blockedOnNotif)

instance Kernel.Rival.decidable (k : Kernel) (cur t : Nat) : Decidable (k.Rival cur t) :=
  inferInstanceAs (Decidable (_ ∧ (_ ∧ _ ∧ _ ∨ _ ∧ _ ∧ _)))

/- No task blocks where another one is blocked. -/
def NoRivalBlock (k : Kernel) : KernelOp → Prop
  | .publish cur _ _ _ => ∀ t < k.cap.maxTasks, ¬ k.Rival cur t
  | _ => True

instance NoRivalBlock.decidable (k : Kernel) : ∀ op, Decidable (NoRivalBlock k op)
  | .publish cur _ _ _ => inferInstanceAs (Decidable (∀ t < k.cap.maxTasks, ¬ k.Rival cur t))
  | .cap _ | .send _ _ _ _ _ | .ipcReply _ _ _ _ _
  | .call _ _ _ _ _ _ _ _ | .recv _ _ _ _
  | .recvBlock _ _ _ _ _ | .replyTo _ _ _ _ _ | .notify _ _ _
  | .irqNotify _ _ | .waitNotify _ _ | .pollNotify _ _
  | .wait _ _ | .interruptWait _ | .retypeEp _ _ _
  | .retypeNotif _ _ _ | .collectEp _ | .collectNotif _ => inferInstanceAs (Decidable True)

def RivalGuard (k : Kernel) : Move → Prop
  | .park t e => ∀ t' ≠ t, k.lot.phase t' ≠ .parked (some (.ep e))
  | .parkNotif t n => ∀ t' ≠ t, k.lot.phase t' ≠ .parked (some (.notif n))
  | _ => True

/- A task parked at an endpoint is blocked on it. -/
theorem phase_ep :
    k.lot.phase t = .parked (some (.ep e)) ↔ k.state t = .blockedIpc ∧
        (k.tcbs t).blockedOn = some e := by
  cases hState : k.state t <;> simp [lot, hState, phaseOf]

theorem phase_notif :
    k.lot.phase t = .parked (some (.notif n)) ↔ k.state t = .blockedNotif ∧
        (k.tcbs t).blockedOnNotif = some n := by
  cases hState : k.state t <;> simp [lot, hState, phaseOf]

theorem rival_permits (hBase : Base k)
    (hCond : NoRivalBlock k op) : KernelPermits RivalGuard k op := by
  cases op with
  | cap =>
    simp only [KernelPermits]
    split <;> trivial
  | publish cur f =>
    have hKeep : ∀ t, t ≠ cur → (k.saveFrame cur f).tcbs t = k.tcbs t := by
      intro t hNe
      simp [saveFrame, hNe]
    have hOwn : (k.saveFrame cur f).tcbs cur = { k.tcbs cur with savedKsp := some f } := by
      simp [saveFrame]
    have hMax : ∀ t, k.state t ≠ .dead → t < k.cap.maxTasks := fun t hAlive =>
      (hBase.tables.live t hAlive).2
    constructor
    · intro e hOn hPending t hNe hPhase
      rw [hOwn] at hOn hPending
      rcases phase_ep.mp hPhase with ⟨hState, hThere⟩
      have hBlocked : k.state t = .blockedIpc := hState
      rw [hKeep t hNe] at hThere
      exact hCond t (hMax t (by rw [hBlocked]; decide))
        ⟨hNe, .inl ⟨hPending, hBlocked, hThere.trans hOn.symm⟩⟩
    · intro n hOn hPending t hNe hPhase
      rw [hOwn] at hOn hPending
      rcases phase_notif.mp hPhase with ⟨hState, hThere⟩
      have hBlocked : k.state t = .blockedNotif := hState
      rw [hKeep t hNe] at hThere
      exact hCond t (hMax t (by rw [hBlocked]; decide))
        ⟨hNe, .inr ⟨hPending, hBlocked, hThere.trans hOn.symm⟩⟩
    · intros
      trivial
  | _ => simp [KernelPermits, SendPermits, RecvPermits, RivalGuard]

theorem found_run (hRun : KernelRun NoRivalBlock (kernelBoot cfg) k) : Lib.Found k.lot := by
  refine (KernelRun.invariant (G := RivalGuard) (fun k => Lib.Found k.lot) ?_ ?_ ?_ hRun ?_).2
  · intro k move hOpen
    cases move with
    | park | parkNotif => cases hOpen
    | _ => trivial
  · intro k op hBase _ _ hCond
    exact rival_permits hBase hCond
  · intro k move _ hFound hOk hG
    refine Move.keepsLot (H := fun L turn => turn.NoRival L)
      ?_ (fun L turn hP hOk hH => hP.turn turn hOk hH) hOk ?_
      hFound
    · intro L turn hPark _ t o hEq
      exact absurd hEq (hPark t o)
    constructor
    · rintro op id alive rfl t o hEq
      cases hEq
    · rintro t e rfl t' o hEq
      cases hEq
      exact hG
    · rintro t n rfl t' o hEq
      cases hEq
      exact hG
  · intro t p hParked
    simp only [lot] at hParked
    rcases state_boot cfg t with hState | hState <;>
      · rw [hState] at hParked
        cases hParked

/- Tasks 1 and 2 both block on endpoint 4. -/
def bothAtFour : List KernelOp :=
  meetAtFour ++ [.recvBlock 2 30 4096 256 256, .publish 2 ⟨0, 0⟩ 0 false]

end Horus
