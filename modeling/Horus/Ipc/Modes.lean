import Horus.Ipc.Waiters

/-
  The mode of a blocked task: `ipc_recv_block` tells a receiver
  from a caller that waits for its reply.

  A live task's flag is set only while it is in a blocking
  receive, so a reply to a caller is delivered. This fails when
  an object is collected whose waiter is a receiver, because
  the flag is left behind, and when a task is created in a slot
  whose last task died in a receive.

  Main declarations:
    * `Task.Rests`, `Task.Receiving`
    * `ModesKept`
    * `call_gets_reply`
-/

namespace Horus

variable {t : Nat} {k : Kernel} {move : Move}

/- A blocked task is a user task with a saved frame. -/
structure Task.Rests (t : Nat) (x : Task) : Prop where
  user : t ≠ 0
  idle : x.tcb.pendingBlock = none
  saved : x.tcb.savedKsp.isSome = true

def Task.Blocked (x : Task) : Prop := x.state ≠ .dead ∧ x.state ≠ .runnable

theorem not_blocked_boot (cfg : BootConfig) (t : Nat) : ¬ ((kernelBoot cfg).task t).Blocked := by
  rintro ⟨hAlive, hBlocked⟩
  rcases state_boot cfg t with hState | hState
  · exact absurd hState hBlocked
  · exact absurd hState hAlive

variable {y : Task}

theorem Task.Rests.step (hBase : Base k) (hRests : (k.task t).Blocked → (k.task t).Rests t)
    (hStep : TaskStep k t (k.task t) move y) (hBlocked : y.Blocked) : y.Rests t := by
  cases hStep with
  | same => exact hRests hBlocked
  | fields _ _ hSaved =>
    have hOld := hRests hBlocked
    exact ⟨hOld.user, hOld.idle, hSaved hOld.saved⟩
  | born _ hState =>
    rcases hState with rfl | rfl
    · exact absurd rfl hBlocked.2
    · exact absurd rfl hBlocked.1
  | died => exact absurd rfl hBlocked.1
  | intendRecv hIdle | intendCall hIdle | intendNotif hIdle
  | intendWait hIdle => exact absurd hIdle.run hBlocked.2
  | abortCall hRun => exact absurd hRun hBlocked.2
  | told | granted =>
    have hOld := hRests hBlocked
    exact { hOld with }
  | parked hPending _ hSaved | parkedNotif hPending _ hSaved
  | parkedWait _ hPending hSaved =>
    exact ⟨Nat.pos_iff_ne_zero.mp (hBase.pending t (Option.isSome_of_eq_some hPending)).1.1, rfl,
      hSaved⟩
  | _ => exact absurd rfl hBlocked.2

----
-- The Mode
----

/- The flag is set only in a blocking receive. -/
def Task.Receiving (x : Task) : Prop :=
  x.tcb.ipcRecvBlock = true → x.state ≠ .dead ∨ x.tcb.pendingBlock.isSome = true →
    (∃ maxLen, x.tcb.inside = some (.recvBlock maxLen)) ∧ (x.tcb.pendingBlock = some .ipc ∨
        x.tcb.pendingBlock = none ∧ x.state = .blockedIpc)

variable {x : Task}

/- No receiver, no flag. -/
theorem Task.Receiving.clear (hMode : x.Receiving)
    (hHere : x.state ≠ .dead ∨ x.tcb.pendingBlock.isSome = true)
    (hNot : x.tcb.pendingBlock ≠ some .ipc)
    (hNot' : x.tcb.pendingBlock ≠ none ∨ x.state ≠ .blockedIpc) : x.tcb.ipcRecvBlock = false := by
  apply Bool.eq_false_of_not_eq_true
  intro hFlag
  rcases (hMode hFlag hHere).2 with hIpc | ⟨hNone, hBlocked⟩
  · exact hNot hIpc
  · rcases hNot' with hSome | hState
    · exact hSome hNone
    · exact hState hBlocked

theorem Task.Receiving.idle (hMode : x.Receiving)
    (hIdle : x.Idle) : x.tcb.ipcRecvBlock = false := by
  apply hMode.clear
  · left
    rw [hIdle.run]
    nofun
  · rw [hIdle.pending]
    nofun
  · right
    rw [hIdle.run]
    nofun

/- A task blocked on something else has no flag. -/
theorem Task.Receiving.blocked (hMode : x.Receiving)
    (hRests : x.Blocked → x.Rests t) (hBlocked : x.Blocked)
    (hState : x.state ≠ .blockedIpc) : x.tcb.ipcRecvBlock = false := by
  apply hMode.clear (.inl hBlocked.1)
  · rw [(hRests hBlocked).idle]
    nofun
  · exact .inr hState

/- A flag that is down stays down. -/
theorem Task.receiving_of_clear (hClear : x.tcb.ipcRecvBlock = false) : x.Receiving := by
  intro hFlag
  rw [hClear] at hFlag
  cases hFlag

/- Nothing leaves a flag behind. -/
def FlagGuard (k : Kernel) : Move → Prop
  | .birth _ id => (k.tcbs id).ipcRecvBlock = false
  | .destroyEp e =>
    ∀ E w, k.eps e = some E → k.inRange E.blockedWaiter = some w →
      k.state w ≠ .dead → (k.tcbs w).ipcRecvBlock = false
  | .destroyNotif n =>
    ∀ N w, k.notifs n = some N → k.inRange N.blockedWaiter = some w →
      k.state w ≠ .dead → (k.tcbs w).ipcRecvBlock = false
  | _ => True

theorem Task.Receiving.step (hMode : (k.task t).Receiving)
    (hRests : (k.task t).Blocked → (k.task t).Rests t)
    (hG : FlagGuard k move) (hStep : TaskStep k t (k.task t) move y) : y.Receiving := by
  cases hStep with
  | same | fields | granted => exact hMode
  | born => exact receiving_of_clear hG
  | died _ hAlive =>
    intro hFlag hHere
    rcases hHere with hDead | hPending
    · exact absurd rfl hDead
    rcases hMode hFlag (.inl hAlive) with ⟨hInside, hOr⟩
    refine ⟨hInside, .inl ?_⟩
    rcases hOr with hIpc | ⟨hNone, _⟩
    · exact hIpc
    · rw [hNone] at hPending
      cases hPending
  | intendRecv => exact fun _ _ => ⟨⟨_, rfl⟩, .inl rfl⟩
  | intendCall hIdle | intendNotif hIdle | intendWait hIdle =>
    exact receiving_of_clear (hMode.idle hIdle)
  | abortCall hRun _ hCall =>
    apply receiving_of_clear
    apply Bool.eq_false_of_not_eq_true
    intro hFlag
    rcases hMode hFlag (.inl (by rw [hRun]; nofun)) with ⟨⟨maxLen, hInside⟩, _⟩
    rw [hInside] at hCall
    cases hCall
  | told | dropped | settled | unparked => exact receiving_of_clear rfl
  | delivered _ hClear | answered _ hClear => exact receiving_of_clear hClear
  | settledNotif hPending | settledWait hPending | parkedNotif hPending
  | parkedWait _ hPending =>
    apply receiving_of_clear
    exact hMode.clear (.inr (Option.isSome_of_eq_some hPending))
      (by rw [hPending]; nofun) (.inl (by rw [hPending]; nofun))
  | parked hPending =>
    intro hFlag _
    exact ⟨(hMode hFlag (.inr (Option.isSome_of_eq_some hPending))).1, .inr ⟨rfl, rfl⟩⟩
  | unparkedNotif hBlocked | wokenNotif hBlocked
  | unparkedWait _ hBlocked | backWait hBlocked =>
    apply receiving_of_clear
    exact hMode.blocked hRests (by rw [Blocked, hBlocked]; exact ⟨nofun, nofun⟩)
      (by rw [hBlocked]; nofun)
  | lostEp hEp hNamed hAlive | lostNotif hEp hNamed hAlive =>
    exact receiving_of_clear (hG _ t hEp hNamed hAlive)

/- The incarnation fits where a reply capability keeps it. -/
def Task.Young (x : Task) : Prop := x.gen < 2 ^ 48

/- Nor are the incarnations of a slot used up. -/
def ModeGuard (k : Kernel) (move : Move) : Prop :=
  FlagGuard k move ∧ ∀ op id, move = .birth op id → k.gen id + 1 < 2 ^ 48

theorem Task.Young.step (hYoung : (k.task t).Young) (hG : ModeGuard k move)
    (hStep : TaskStep k t (k.task t) move y) : y.Young := by
  cases hStep with
  | born =>
    have hNext : (k.task t).gen + 1 < 2 ^ 48 := hG.2 _ t rfl
    unfold Young
    dsimp only
    omega
  | _ => exact hYoung

/- What a reply capability packs can be read back. -/
theorem packTask_unpack {g : Nat} (hTask : t < 2 ^ 16) (hGen : g < 2 ^ 48) :
    packTask t g % 2 ^ 16 = t ∧ packTask t g / 2 ^ 16 = g := by
  have hPack : packTask t g = g * 2 ^ 16 + t := by
    unfold packTask
    rw [Nat.mod_eq_of_lt (by omega), Nat.mod_eq_of_lt hTask]
  omega

/-
  No task is created in a slot whose flag is set or whose
  incarnations are used up, and no object is collected whose
  waiter has its flag set.
-/
def ModesKept (k : Kernel) : KernelOp → Prop
  | .cap op => ∀ id, op.creates = some id → (k.tcbs id).ipcRecvBlock = false ∧ k.gen id + 1 < 2 ^ 48
  | .collectEp e =>
    ∀ E w, k.eps e = some E → k.inRange E.blockedWaiter = some w →
      k.state w ≠ .dead → (k.tcbs w).ipcRecvBlock = false
  | .collectNotif n =>
    ∀ N w, k.notifs n = some N → k.inRange N.blockedWaiter = some w →
      k.state w ≠ .dead → (k.tcbs w).ipcRecvBlock = false
  | _ => True

theorem modes_permits {op : KernelOp} (hCond : ModesKept k op) : KernelPermits ModeGuard k op := by
  cases op with
  | cap =>
    simp only [KernelPermits]
    split
    · rename_i id hCreates
      refine ⟨(hCond id hCreates).1, ?_⟩
      rintro op' id' hEq
      cases hEq
      exact (hCond id hCreates).2
    · refine ⟨trivial, ?_⟩
      intro op' id hEq
      cases hEq
  | publish => constructor <;> simp [ModeGuard, FlagGuard]
  | collectEp | collectNotif =>
    refine ⟨hCond, ?_⟩
    intro op' id hEq
    cases hEq
  | _ => simp [KernelPermits, SendPermits, RecvPermits, ModeGuard, FlagGuard]

/- What holds of every task along such runs. -/
structure Task.InMode (t : Nat) (x : Task) : Prop where
  rests : x.Blocked → x.Rests t
  receiving : x.Receiving
  young : x.Young

theorem modes_run {cfg : BootConfig} (hRun : KernelRun ModesKept (kernelBoot cfg) k) :
    Base k ∧ ∀ t, (k.task t).InMode t := by
  refine KernelRun.invariant (G := ModeGuard) (fun k => ∀ t, (k.task t).InMode t) ?_ ?_ ?_ hRun ?_
  · intro k move hOpen
    cases move with
    | birth | destroyEp | destroyNotif => cases hOpen
    | _ => exact ⟨trivial, nofun⟩
  · intro k op _ _ _ hCond
    exact modes_permits hCond
  · intro k move hBase hModes hOk hG t
    have hStep := move.taskStep hOk t
    exact ⟨fun hBlocked => Task.Rests.step hBase (hModes t).rests hStep hBlocked,
      (hModes t).receiving.step (hModes t).rests hG.1 hStep,
      (hModes t).young.step hG hStep⟩
  · intro t
    refine ⟨fun hBlocked => absurd hBlocked
      (not_blocked_boot cfg t), Task.receiving_of_clear rfl, ?_⟩
    change ((bootCap cfg).tasks t).slotGen < 2 ^ 48
    rcases eq_or_ne t 0 with rfl | hZero
    · change 1 < 2 ^ 48
      decide
    · rw [show (bootCap cfg).tasks t = Tcb.empty from Function.update_of_ne hZero _ _]
      decide

----
-- Main Result
----

/- A reply to a caller that waits for it is delivered. -/
theorem reply_delivered {q e slot len : Nat} {user : List UInt8} {c : Capability}
    (hBase : Base k) (hModes : ∀ t, (k.task t).InMode t) (hBlocked : k.state t = .blockedIpc)
    (hCall : (callOf (k.tcbs t).inside).isSome = true)
    (hEp : ipcEpFromSlot k q slot Right.read = some e) (hCap : k.replyCap q = some c)
    (hObject : c.object = packTask t (k.gen t)) (hRead : min len ipcMsgMax ≤ user.length) :
    (ipcReplyCommon k q slot user len none).1 = 0 ∧
      (ipcReplyCommon k q slot user len none).2.state t =
        .runnable := by
  have hAlive : k.state t ≠ .dead := by rw [hBlocked]; nofun
  have hRests := (hModes t).rests ⟨hAlive, by rw [show (k.task t).state = _ from hBlocked]; nofun⟩
  have hMax := (hBase.tables.live t hAlive).2
  have hFew := hBase.few
  have hUnpack := packTask_unpack (t := t) (g := k.gen t) (by omega) (hModes t).young
  have hTarget : ¬ (t = 0 ∨ k.cap.maxTasks ≤ t ∨ k.state t = .dead ∨ k.gen t ≠ k.gen t) := by
    have hUser := hRests.user
    simp only [hAlive, ne_eq, not_true_eq_false, or_false]
    omega
  have hMode : (k.tcbs t).ipcRecvBlock = false := by
    apply Bool.eq_false_of_not_eq_true
    intro hFlag
    rcases (hModes t).receiving hFlag (.inl hAlive) with ⟨⟨maxLen, hInside⟩, _⟩
    rw [show (k.tcbs t).inside = _ from hInside] at hCall
    cases hCall
  have hSaved : (k.tcbs t).savedKsp.isNone = false := by
    have hSome : (k.tcbs t).savedKsp.isSome = true := hRests.saved
    cases hFrame : (k.tcbs t).savedKsp with
    | none =>
      rw [hFrame] at hSome
      cases hSome
    | some => rfl
  have hResult : ipcReplyCommon k q slot user len none =
      (0, ((k.patch t (min len ipcMsgMax)).answer q t).consumeReply q) := by
    have hWaiting : ¬ (k.state t ≠ .blockedIpc ∨ (k.tcbs t).ipcRecvBlock = true) := by
      simp [hBlocked, hMode]
    have hCopy : copyFromUser user (min len ipcMsgMax) =
        some (user.take (min len ipcMsgMax)) := if_pos hRead
    have hLen : (user.take (min len ipcMsgMax)).length =
        min len ipcMsgMax := List.length_take_of_le hRead
    unfold ipcReplyCommon
    rw [hEp, hCap]
    dsimp only
    rw [hObject, hUnpack.1, hUnpack.2, if_neg hTarget, if_neg hWaiting, hCopy]
    dsimp only
    unfold replyDeliver
    rw [hSaved, hLen]
    rfl
  rw [hResult]
  rw [Kernel.consumeReply, Kernel.setCap_state (sameTasks_capConsumeSlot _ q capslotReply)]
  simp [Kernel.answer]

theorem call_gets_reply (cfg : BootConfig) (k : Kernel)
    (hRun : KernelRun ModesKept (kernelBoot cfg) k) (t : Nat) :
    (k.state t ≠ .dead → (k.tcbs t).ipcRecvBlock = true →
      (∃ maxLen, (k.tcbs t).inside = some (.recvBlock maxLen)) ∧
      ((k.tcbs t).pendingBlock = some .ipc ∨
        (k.tcbs t).pendingBlock = none ∧ k.state t = .blockedIpc)) ∧
    ∀ q n e slot len user c, k.state t = .blockedIpc → (k.tcbs t).inside = some (.call n) →
      ipcEpFromSlot k q slot Right.read = some e →
      k.replyCap q = some c →
      c.object = packTask t (k.gen t) →
      min len ipcMsgMax ≤ user.length →
      (ipcReplyCommon k q slot user len none).1 = 0 ∧
        (ipcReplyCommon k q slot user len none).2.state t =
          .runnable := by
  rcases modes_run hRun with ⟨hBase, hModes⟩
  constructor
  · intro hAlive hFlag
    exact (hModes t).receiving hFlag (.inl hAlive)
  · intro q n e slot len user c hBlocked hInside hEp hCap hObject hRead
    exact reply_delivered hBase hModes hBlocked (by rw [hInside]; rfl) hEp hCap hObject hRead

/- Task 1 calls on endpoint 4 and task 2 receives the call. -/
def callAtFour : List KernelOp :=
  [.cap (.createTask 1 .kernel), .cap (.installFromRoot 1 30 13 4), .cap (.createTask 2 .kernel),
    .cap (.installFromRoot 2 30 13 4),
    .call 1 30 [7] 1 4096 none none 256,
    .publish 1 ⟨0, 0⟩ 256 false, .recv 2 30 256 256]

theorem call_gets_reply_callAtFour : (kernelExecAll (kernelBoot smallMachine) callAtFour).state 1 =
      .blockedIpc ∧
    (ipcReplyCommon (kernelExecAll (kernelBoot smallMachine) callAtFour) 2 30
      [9] 1 none).2.state 1 = .runnable := by
  have hRun : KernelRun ModesKept (kernelBoot smallMachine)
      (kernelExecAll (kernelBoot smallMachine) callAtFour) := by
    apply kernelRun_execAll
    refine ⟨⟨by decide +kernel, ?_⟩, ⟨by decide +kernel, ?_⟩,
      ⟨by decide +kernel, ?_⟩, ⟨by decide +kernel, ?_⟩,
      ⟨by decide +kernel, trivial⟩,
      ⟨by decide +kernel, trivial⟩,
      ⟨by decide +kernel, trivial⟩, trivial⟩
    all_goals
      intro id hCreates
      cases hCreates
    all_goals decide +kernel
  have hBlocked : (kernelExecAll (kernelBoot smallMachine) callAtFour).state 1 = .blockedIpc := by
    decide +kernel
  have hHeld : ((kernelExecAll (kernelBoot smallMachine)
        callAtFour).replyCap 2).map Capability.object =
      some (packTask 1 ((kernelExecAll (kernelBoot smallMachine) callAtFour).gen 1)) := by
    decide +kernel
  rcases Option.map_eq_some_iff.mp hHeld with ⟨c, hCap, hObject⟩
  exact ⟨hBlocked, ((call_gets_reply smallMachine _ hRun 1).2 2 0 4 30 1 [9] c
      hBlocked (by decide +kernel) (by decide +kernel) hCap
      hObject (by decide)).2⟩

/-
  Task 2 blocks in a receive on an endpoint of task 1, which
  revokes it; the endpoint is collected and task 2 runs with
  its flag set. Then it makes a call, and task 1 receives it.
-/
def staleMode : List KernelOp :=
  [.cap (.createTask 1 .kernel), .cap (.createTask 2 .kernel),
    .retypeEp 1 30 320, .cap (.childTcb 1 2),
    .cap (.grant 1 2 30 30), .recvBlock 2 30 4096 256 256,
    .publish 2 ⟨0, 0⟩ 256 false, .cap (.revoke 1 30),
    .collectEp 320, .cap (.installFromRoot 1 31 13 4),
    .cap (.installFromRoot 2 31 13 4),
    .call 2 31 [7] 1 4096 none none 256,
    .publish 2 ⟨0, 0⟩ 256 false, .recv 1 31 256 256]

theorem reply_to_stale_mode_is_dropped :
    ∃ k, KernelRun (fun _ _ => True) (kernelBoot smallMachine) k ∧
      kernelEnabled k (.replyTo 1 31 [9] 1 none) = true ∧ k.state 2 = .blockedIpc ∧
      (k.tcbs 2).inside = some (.call 0) ∧ (k.tcbs 2).ipcRecvBlock = true ∧
      (k.replyCap 1).map Capability.object = some (packTask 2 (k.gen 2)) ∧
      (kernelExec k (.replyTo 1 31 [9] 1 none)).1 = 0 ∧
      (kernelExec k (.replyTo 1 31 [9] 1 none)).2.state 2 = .blockedIpc ∧
      (kernelExec k (.replyTo 1 31 [9] 1 none)).2.replyCap 1 =
        none := by
  refine ⟨kernelExecAll (kernelBoot smallMachine) staleMode, kernelRun_execAll staleMode ?_, ?_⟩
  · decide +kernel
  · decide +kernel

end Horus
