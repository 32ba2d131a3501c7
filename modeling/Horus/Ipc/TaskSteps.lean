import Horus.Ipc.Invariants

/-
  What a move does to one task.

  A move touches the slots of at most two tasks. Seen from one
  slot it is one of a few steps, each with what is known of
  the task when it is taken. An invariant of single tasks is
  checked once for each of these steps.
-/

namespace Horus

open Kernel

/- A slot as communication sees it. -/
@[ext]
structure Task where
  state : TaskState
  gen : Nat
  tcb : IpcTcb
deriving DecidableEq, Repr

def Kernel.task (k : Kernel) (t : Nat) : Task :=
  { state := k.state t, gen := k.gen t, tcb := k.tcbs t }

/- A task that can make a call. -/
structure Task.Idle (x : Task) : Prop where
  run : x.state = .runnable
  pending : x.tcb.pendingBlock = none

----
-- Steps
----

section Step

variable (k : Kernel) (t : Nat) (x : Task)

/- The step of task `t`, which was `x`, when `move` is made. -/
inductive TaskStep : Move → Task → Prop where
  | same {move : Move} : TaskStep move x
  | fields {move : Move} (saved : Option Frame) (waiter : Option Nat)
      (hSaved : x.tcb.savedKsp.isSome = true → saved.isSome = true) :
      TaskStep move { x with tcb := { x.tcb with savedKsp := saved, waiter := waiter } }
  | born {op : Op} (st : TaskState) (hState : st = .runnable ∨ st = .dead)
      (hDead : x.state = .dead) :
      TaskStep (.birth op t)
        { state := st
          gen := (x.gen + 1) % 2 ^ 64
          tcb :=
            { x.tcb with
              pendingBlock := none
              savedKsp := none
              ipcCapRecvSlot := none
              inside := none
              replyTag := none } }
  | died {scratch : Scratch} (waiter : Option Nat) (hAlive : x.state ≠ .dead) :
      TaskStep (.bury t scratch)
        { x with state := .dead, tcb := { x.tcb with savedKsp := none, waiter := waiter } }
  | intendRecv {e buf maxLen : Nat} (hIdle : x.Idle) : TaskStep (.intendRecv t e buf maxLen)
        { x with
          tcb :=
            { x.tcb with
              ipcReplyBuf := buf
              ipcRecvMax := maxLen % 2 ^ 32
              ipcRecvBlock := true
              blockedOn := some e
              pendingBlock := some .ipc
              inside := some (.recvBlock maxLen) } }
  | intendCall {rep buf invSlot invSerial : Nat} {recvSlot : Option Nat} (hIdle : x.Idle) :
      TaskStep (.intendCall t rep buf recvSlot invSlot invSerial)
        { x with
          tcb :=
            { x.tcb with
              ipcCapRecvSlot := recvSlot
              ipcInvSlot := invSlot
              ipcInvSerial := invSerial
              ipcReplyBuf := buf
              blockedOn := some rep
              pendingBlock := some .ipc
              inside := some (.call k.nextCall) } }
  | intendNotif {n : Nat} (hIdle : x.Idle) : TaskStep (.intendNotif t n)
        { x with
          tcb :=
            { x.tcb with
              blockedOnNotif := some n
              pendingBlock := some .notif
              inside := some .waitNotify } }
  | intendWait {tid : Nat} (hIdle : x.Idle) : TaskStep (.intendWait t tid)
        { x with
          tcb :=
            { x.tcb with
              blockedOn := some tid
              blockedOnGen := k.gen tid
              pendingBlock := some .wait
              inside := some .wait } }
  | abortCall (hRun : x.state = .runnable) (hPending : x.tcb.pendingBlock = some .ipc)
      (hCall : (callOf x.tcb.inside).isSome = true) :
      TaskStep (.abortCall t)
        { x with
          tcb :=
            { x.tcb with
              pendingBlock := none
              blockedOn := none
              ipcReplyBuf := 0
              ipcCapRecvSlot := none
              inside := none } }
  | told {e cur : Nat} {inv : IpcInvoker} (hBlocked : x.state = .blockedIpc)
      (hMode : x.tcb.ipcRecvBlock = true) :
      TaskStep (.tell e t cur inv) { x with tcb := { x.tcb with ipcRecvBlock := false } }
  | granted {sender senderGen : Nat} {call : Option Nat} :
      TaskStep (.grantReply t sender senderGen call)
        { x with tcb := { x.tcb with replyTag := some ⟨t, x.gen, call⟩ } }
  | delivered {e : Nat} {m : EpMsg} {r : Receipt} (hBlocked : x.state = .blockedIpc)
      (hMode : x.tcb.ipcRecvBlock = false) :
      TaskStep (.deliver e t m r)
        { x with state := .runnable, tcb := { x.tcb with blockedOn := none, inside := none } }
  | dropped (hPending : x.tcb.pendingBlock.isSome = true) : TaskStep (.dropBlock t)
        { x with
          state := .runnable
          tcb := { x.tcb with pendingBlock := none, ipcRecvBlock := false, inside := none } }
  | settled (hPending : x.tcb.pendingBlock = some .ipc) : TaskStep (.settle t)
        { x with
          state := .runnable
          tcb :=
            { x.tcb with
              pendingBlock := none
              blockedOn := none
              ipcRecvBlock := false
              inside := none } }
  | settledNotif (hPending : x.tcb.pendingBlock = some .notif) : TaskStep (.settleNotif t)
        { x with state := .runnable, tcb := { x.tcb with pendingBlock := none, inside := none } }
  | settledWait (hPending : x.tcb.pendingBlock = some .wait) : TaskStep (.settleWait t)
        { x with
          state := .runnable
          tcb := { x.tcb with pendingBlock := none, blockedOn := none, inside := none } }
  | parked {e : Nat} (hPending : x.tcb.pendingBlock = some .ipc) (hOn : x.tcb.blockedOn = some e)
      (hSaved : x.tcb.savedKsp.isSome = true) :
      TaskStep (.park t e)
        { x with
          state := .blockedIpc
          tcb := { x.tcb with pendingBlock := none, parkGen := x.gen } }
  | parkedNotif {n : Nat} (hPending : x.tcb.pendingBlock = some .notif)
      (hOn : x.tcb.blockedOnNotif = some n)
      (hSaved : x.tcb.savedKsp.isSome = true) :
      TaskStep (.parkNotif t n)
        { x with
          state := .blockedNotif
          tcb := { x.tcb with pendingBlock := none, parkGen := x.gen } }
  | parkedWait {tid : Nat} (waiter : Option Nat) (hPending : x.tcb.pendingBlock = some .wait)
      (hSaved : x.tcb.savedKsp.isSome = true) :
      TaskStep (.parkWait t tid)
        { x with
          state := .blockedWait
          tcb := { x.tcb with pendingBlock := none, waiter := waiter } }
  | unparked (hBlocked : x.state = .blockedIpc) : TaskStep (.unpark t)
        { x with
          state := .runnable
          tcb := { x.tcb with blockedOn := none, ipcRecvBlock := false, inside := none } }
  | unparkedNotif (hBlocked : x.state = .blockedNotif) : TaskStep (.unpark t)
        { x with state := .runnable, tcb := { x.tcb with inside := none } }
  | unparkedWait (waiter : Option Nat) (hBlocked : x.state = .blockedWait) : TaskStep (.unpark t)
        { x with
          state := .runnable
          tcb := { x.tcb with blockedOn := none, waiter := waiter, inside := none } }
  | backWait (hBlocked : x.state = .blockedWait) : TaskStep (.wakeWait t)
        { x with state := .runnable, tcb := { x.tcb with inside := none } }
  | wokenNotif {n : Nat} (hBlocked : x.state = .blockedNotif) : TaskStep (.wakeNotif n t)
        { x with state := .runnable, tcb := { x.tcb with inside := none } }
  | answered {q : Nat} (hBlocked : x.state = .blockedIpc) (hMode : x.tcb.ipcRecvBlock = false) :
      TaskStep (.answer q t)
        { x with state := .runnable, tcb := { x.tcb with blockedOn := none, inside := none } }
  | lostEp {e : Nat} {E : Endpoint} (hEp : k.eps e = some E)
      (hNamed : k.inRange E.blockedWaiter = some t)
      (hAlive : x.state ≠ .dead) :
      TaskStep (.destroyEp e)
        { x with state := .runnable, tcb := { x.tcb with blockedOn := none, inside := none } }
  | lostNotif {n : Nat} {N : Notification} (hNotif : k.notifs n = some N)
      (hNamed : k.inRange N.blockedWaiter = some t)
      (hAlive : x.state ≠ .dead) :
      TaskStep (.destroyNotif n)
        { x with state := .runnable, tcb := { x.tcb with blockedOnNotif := none, inside := none } }

end Step

----
-- Updates of One Task
----

section Updates

variable (k : Kernel) (t i : Nat) (st : TaskState) (f : IpcTcb → IpcTcb)

theorem Kernel.modTcb_task : (k.modTcb t f).task i =
      if i = t then { k.task t with tcb := f (k.tcbs t) }
      else k.task i := by
  by_cases hEq : i = t
  · subst hEq
    simp [task]
  · simp [task, hEq]

theorem Kernel.wake_task : ((k.setState t st).modTcb t f).task i = if i = t then
        { k.task t with state := st, tcb := f (k.tcbs t) }
      else k.task i := by
  by_cases hEq : i = t
  · subst hEq
    simp [task]
  · simp [task, hEq]

theorem Kernel.waiter_task (w : Option Nat → Option Nat) :
    ∃ waiter, (k.modTcb t fun x =>
        { x with waiter := w x.waiter }).task i =
      { k.task i with tcb := { k.tcbs i with waiter := waiter } } := by
  rw [modTcb_task]
  split
  · rename_i hEq
    subst hEq
    exact ⟨_, rfl⟩
  · exact ⟨(k.tcbs i).waiter, rfl⟩

theorem Kernel.setSys_task {k : Kernel} {s : Sys}
    (hSame : SameTasks k.cap s.cap) : (k.setSys s).task i = k.task i := by
  simp [task, state, gen, hSame.tasks]

theorem Kernel.setCap_task {k : Kernel} {c : CapState}
    (hSame : SameTasks k.cap c) : (k.setCap c).task i = k.task i :=
  setSys_task (s := { cap := c, obj := k.obj }) i hSame

end Updates

section Steps

variable {k k' : Kernel} {t i : Nat} {move : Move}

theorem taskStep_same (hSame : k'.task t = k.task t) :
    TaskStep k t (k.task t) move (k'.task t) := by
  rw [hSame]
  exact .same

/- A move that writes to one slot. -/
theorem taskStep_modTcb {l : Kernel} {f : IpcTcb → IpcTcb} (hSame : l.task i = k.task i)
    (hStep : i = t → TaskStep k t (k.task t) move { k.task t with tcb := f (k.tcbs t) }) :
    TaskStep k i (k.task i) move ((l.modTcb t f).task i) := by
  rw [modTcb_task]
  split
  · rename_i hEq
    subst hEq
    have hTcb : l.tcbs i = k.tcbs i := congrArg Task.tcb hSame
    rw [hSame, hTcb]
    exact hStep rfl
  · exact taskStep_same hSame

/- A move that writes to one slot and its state. -/
theorem taskStep_wake {st : TaskState} {l : Kernel} {f : IpcTcb → IpcTcb}
    (hSame : l.task i = k.task i)
    (hStep : i = t → TaskStep k t (k.task t) move
      { k.task t with state := st, tcb := f (k.tcbs t) }) :
    TaskStep k i (k.task i) move (((l.setState t st).modTcb t f).task i) := by
  rw [wake_task]
  split
  · rename_i hEq
    subst hEq
    have hTcb : l.tcbs i = k.tcbs i := congrArg Task.tcb hSame
    rw [hSame, hTcb]
    exact hStep rfl
  · exact taskStep_same hSame

theorem canCall_idle (hCall : k.canCall t = true) : (k.task t).Idle :=
  have h := canCall_iff.mp hCall
  ⟨h.2.1, h.2.2⟩

/- A task is created in a slot that is dead. -/
theorem creates_dead {op : Op} {id : Nat} (hCreates : op.creates = some id)
    (hEnabled : enabled k.cap op = true) : k.state id = .dead := by
  cases op with
  | createTask i source | spawnAborted i source =>
    cases hCreates
    simp only [enabled, CapState.freeSlot, decide_eq_true_eq] at hEnabled
    exact hEnabled.2.2
  | fork =>
    obtain rfl := Option.some.inj hCreates
    simp only [enabled, Bool.and_eq_true, CapState.freeSlot, decide_eq_true_eq] at hEnabled
    exact hEnabled.2.2.2
  | _ => cases hCreates

theorem birth_taskStep {op : Op} {id : Nat}
    (hCreates : op.creates = some id) (hEnabled : enabled k.cap op = true) :
    TaskStep k i (k.task i) (.birth op id)
      (((k.setSys (exec k.sys op).2).resetTask id).task i) := by
  have hNew := exec_creates k.sys op id hCreates
  by_cases hEq : i = id
  · subst hEq
    have hTask : ((k.setSys (exec k.sys op).2).resetTask i).task i =
          { state := (k.setSys (exec k.sys op).2).state i
            gen := (k.gen i + 1) % 2 ^ 64
            tcb :=
              { k.tcbs i with
                pendingBlock := none
                savedKsp := none
                ipcCapRecvSlot := none
                inside := none
                replyTag := none } } := by
      apply Task.ext
      · rfl
      · exact hNew.gen
      · simp [task, resetTask]
    rw [hTask]
    exact .born _ hNew.state (creates_dead hCreates hEnabled)
  · apply taskStep_same
    apply Task.ext
    · exact congrArg Tcb.state (hNew.other.tasks i hEq)
    · exact congrArg Tcb.slotGen (hNew.other.tasks i hEq)
    · simp [task, resetTask, hEq]

theorem bury_taskStep {id : Nat} {scratch : Scratch} (hAlive : k.state id ≠ .dead) :
    TaskStep k i (k.task i) (.bury id scratch) ((k.bury id scratch).task i) := by
  have hTasks := (taskTeardown_tasks k.sys id scratch hAlive).1
  by_cases hEq : i = id
  · subst hEq
    have hTask : (k.bury i scratch).task i =
        { k.task i with
          state := .dead
          tcb :=
            { k.tcbs i with savedKsp := none, waiter := ((k.bury i scratch).tcbs i).waiter } } := by
      apply Task.ext
      · simp [task, bury, state, hTasks]
      · simp [task, bury, gen, hTasks]
      · simp [task, bury]
    rw [hTask]
    exact .died _ hAlive
  · apply taskStep_same
    apply Task.ext
    · simp [task, bury, state, hTasks, hEq]
    · simp [task, bury, gen, hTasks, hEq]
    · simp [task, bury, hEq]

theorem grantReply_taskStep {w sender senderGen : Nat} {call : Option Nat} :
    TaskStep k i (k.task i) (.grantReply w sender senderGen call)
      ((k.grantReply w sender senderGen call).task i) := by
  have hSame : (k.setCap (capInstallReplyFor k.cap w sender senderGen).2).task i = k.task i :=
    setCap_task i (sameTasks_capInstallReplyFor k.cap w sender senderGen)
  unfold grantReply granted
  split
  · rw [modTcb_task]
    split
    · rename_i hEq
      subst hEq
      rw [hSame]
      exact .granted
    · exact taskStep_same hSame
  · exact taskStep_same hSame

theorem unpark_taskStep
    (hBlocked : k.state t = .blockedIpc ∨ k.state t = .blockedNotif ∨ k.state t = .blockedWait) :
    TaskStep k i (k.task i) (.unpark t) (((unpublishLink k t).wakeWait t).task i) := by
  unfold unpublishLink wakeWait
  rcases hBlocked with hState | hState | hState
  · simp only [hState, modTcb_setState_modTcb]
    exact taskStep_wake (l := k.unlinkEp t) rfl fun _ => .unparked hState
  · simp only [hState]
    exact taskStep_wake (l := k.unlinkNotif t) rfl fun _ => .unparkedNotif hState
  simp only [hState, modTcb_setState_modTcb]
  split
  · exact taskStep_wake rfl fun _ => .unparkedWait (k.tcbs t).waiter hState
  rename_i tid _
  split
  · rcases k.waiter_task tid i fun _ => none with ⟨waiter, hTask⟩
    rw [wake_task]
    split
    · rename_i hEq
      subst hEq
      have hTcb := congrArg Task.tcb hTask
      dsimp only [task] at hTcb
      rw [hTcb]
      exact .unparkedWait waiter hState
    · rw [hTask]
      exact .fields _ waiter id
  · exact taskStep_wake rfl fun _ => .unparkedWait (k.tcbs t).waiter hState

theorem wakeNamed_taskStep {w : Option Nat} {f : IpcTcb → IpcTcb}
    (hStep : k.inRange w = some i → k.state i ≠ .dead → TaskStep k i (k.task i) move
        { k.task i with state := .runnable, tcb := f (k.tcbs i) }) :
    TaskStep k i (k.task i) move ((k.wakeNamed w f).task i) := by
  unfold wakeNamed
  split
  · exact .same
  rename_i t hNamed
  split
  · exact .same
  rename_i hAlive
  refine taskStep_wake rfl ?_
  rintro rfl
  exact hStep hNamed hAlive

/- Every move is a step of every task. -/
theorem Move.taskStep (move : Move) (hOk : move.Ok k) (i : Nat) :
    TaskStep k i (k.task i) move ((move.apply k).task i) := by
  cases move with
  | cap op => exact taskStep_same (setSys_task i (exec_sameTasks k.sys op hOk.1))
  | birth => exact birth_taskStep hOk.1 hOk.2
  | bury => exact bury_taskStep hOk.2
  | intendRecv => exact taskStep_modTcb rfl fun _ => .intendRecv (canCall_idle hOk.1)
  | intendCall =>
    exact taskStep_modTcb (l := k.nextNumber) rfl fun _ => .intendCall (canCall_idle hOk.1)
  | intendNotif => exact taskStep_modTcb rfl fun _ => .intendNotif (canCall_idle hOk)
  | intendWait => exact taskStep_modTcb rfl fun _ => .intendWait (canCall_idle hOk)
  | abortCall => exact taskStep_modTcb rfl fun _ => .abortCall hOk.1 hOk.2.1 hOk.2.2
  | saveFrame t f =>
    exact taskStep_modTcb rfl fun _ => .fields (some f) (k.tcbs t).waiter fun _ => rfl
  | patch | patchBoth => exact taskStep_modTcb rfl fun _ => .fields _ _ (by simp [task])
  | forget => exact taskStep_modTcb rfl fun _ => .fields _ _ id
  | tell e => exact taskStep_modTcb (l := k.modEp e _) rfl fun _ => .told hOk.1 hOk.2
  | grantReply => exact grantReply_taskStep
  | deliver e =>
    rcases hOk with ⟨⟨E, _, hWaiter⟩, hMode⟩
    exact taskStep_wake (l := k.modEp e _) rfl fun _ =>
      .delivered (parkedReceiver_eq_some.mp hWaiter).2.2.1 hMode
  | enqueue e m | take e | receive e m r => exact .same
  | dropBlock => exact taskStep_wake rfl fun _ => .dropped hOk.2
  | settle => exact taskStep_wake rfl fun _ => .settled hOk.2
  | settleNotif => exact taskStep_wake rfl fun _ => .settledNotif hOk.2
  | settleWait => exact taskStep_wake rfl fun _ => .settledWait hOk.2
  | park t e =>
    exact taskStep_wake (l := k.modEp e _) rfl fun _ => .parked hOk.2.1 hOk.2.2.1 hOk.2.2.2.1
  | parkNotif t n =>
    exact taskStep_wake (l := k.modNotif n _) rfl fun _ =>
      .parkedNotif hOk.2.1 hOk.2.2.1 hOk.2.2.2.1
  | parkWait t tid =>
    rcases k.waiter_task tid i fun _ => some t with ⟨waiter, hTask⟩
    unfold Move.apply Kernel.parkWait
    rw [wake_task]
    split
    · rename_i hEq
      subst hEq
      have hTcb := congrArg Task.tcb hTask
      dsimp only [task] at hTcb
      rw [hTcb]
      exact .parkedWait waiter hOk.2.1 hOk.2.2
    · rw [hTask]
      exact .fields _ waiter id
  | unpark => exact unpark_taskStep hOk.2
  | wakeWait => exact taskStep_wake rfl fun _ => .backWait hOk
  | setBadge => exact .same
  | wakeNotif n =>
    rcases hOk with ⟨N, _, hWaiter⟩
    exact taskStep_wake (l := k.modNotif n _) rfl fun _ =>
      .wokenNotif (parkedWaiter_eq_some.mp hWaiter).2.2
  | answer q t =>
    exact taskStep_wake (l := (k.logReply q t).unlinkEp t) rfl
      fun _ => .answered hOk.2.2.1 hOk.2.2.2.1
  | consumeReply q =>
    exact taskStep_same (setCap_task i (sameTasks_capConsumeSlot k.cap q capslotReply))
  | makeEp e | makeNotif n => exact .same
  | destroyEp =>
    rcases Option.isSome_iff_exists.mp hOk.2 with ⟨E, hEp⟩
    simp only [Move.apply, destroyDynEndpoint, hEp]
    exact wakeNamed_taskStep fun hNamed hAlive => .lostEp hEp hNamed hAlive
  | destroyNotif =>
    rcases Option.isSome_iff_exists.mp hOk.2 with ⟨N, hNotif⟩
    simp only [Move.apply, destroyDynNotification, hNotif]
    exact wakeNamed_taskStep fun hNamed hAlive => .lostNotif hNotif hNamed hAlive

end Steps

end Horus
