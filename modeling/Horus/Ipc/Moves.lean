import Horus.Ipc.Steps

/-
  What an operation of the kernel can do, as a sequence of
  elementary moves.

  The moves are the updates that the system calls are made of,
  with what is known when they are carried out (`Move.Ok`).
  An invariant then needs one lemma for each move instead of
  one for each system call, and a condition on operations
  becomes a guard on a few of the moves.
-/

namespace Horus

inductive Move where
  | cap (op : Op)
  | birth (op : Op) (id : Nat)
  | bury (id : Nat) (scratch : Scratch)
  | intendRecv (t e buf maxLen : Nat)
  | intendCall (t rep buf : Nat) (recvSlot : Option Nat) (invSlot invSerial : Nat)
  | intendNotif (t n : Nat)
  | intendWait (t tid : Nat)
  | abortCall (t : Nat)
  | saveFrame (t : Nat) (f : Frame)
  | patch (t rax : Nat)
  | patchBoth (t rax rbx : Nat)
  | tell (e w cur : Nat) (inv : IpcInvoker)
  | grantReply (w sender senderGen : Nat) (call : Option Nat)
  | deliver (e w : Nat) (m : EpMsg) (r : Receipt)
  | enqueue (e : Nat) (m : EpMsg)
  | take (e : Nat)
  | receive (e : Nat) (m : EpMsg) (r : Receipt)
  | dropBlock (t : Nat)
  | settle (t : Nat)
  | settleNotif (t : Nat)
  | settleWait (t : Nat)
  | park (t e : Nat)
  | parkNotif (t n : Nat)
  | parkWait (t tid : Nat)
  | unpark (t : Nat)
  | forget (w : Nat)
  | wakeWait (w : Nat)
  | setBadge (n : Nat) (b : BitVec 32)
  | wakeNotif (n w : Nat)
  | answer (q t : Nat)
  | consumeReply (q : Nat)
  | makeEp (e : Nat)
  | makeNotif (n : Nat)
  | destroyEp (e : Nat)
  | destroyNotif (n : Nat)

def Move.apply (k : Kernel) : Move → Kernel
  | .cap op => k.setSys (exec k.sys op).2
  | .birth op id => (k.setSys (exec k.sys op).2).resetTask id
  | .bury id scratch => k.bury id scratch
  | .intendRecv t e buf maxLen => k.intendRecv t e buf maxLen
  | .intendCall t rep buf recvSlot invSlot invSerial =>
    k.intendCall t rep buf recvSlot invSlot invSerial
  | .intendNotif t n => k.intendNotif t n
  | .intendWait t tid => k.intendWait t tid
  | .abortCall t => k.abortCall t
  | .saveFrame t f => k.saveFrame t f
  | .patch t rax => k.patch t rax
  | .patchBoth t rax rbx => k.patchBoth t rax rbx
  | .tell e w cur inv => k.tell e w cur inv
  | .grantReply w sender senderGen call => k.grantReply w sender senderGen call
  | .deliver e w m r => k.deliver e w m r
  | .enqueue e m => k.enqueue e m
  | .take e => k.take e
  | .receive e m r => k.receive e m r
  | .dropBlock t => k.dropBlock t
  | .settle t => k.settle t
  | .settleNotif t => k.settleNotif t
  | .settleWait t => k.settleWait t
  | .park t e => k.park t e
  | .parkNotif t n => k.parkNotif t n
  | .parkWait t tid => k.parkWait t tid
  | .unpark t => (unpublishLink k t).wakeWait t
  | .forget w => k.modTcb w fun x => { x with waiter := none }
  | .wakeWait w => k.wakeWait w
  | .setBadge n b => k.setBadge n b
  | .wakeNotif n w => k.wakeNotif n w
  | .answer q t => k.answer q t
  | .consumeReply q => k.consumeReply q
  | .makeEp e => k.setEp e (some Endpoint.fresh)
  | .makeNotif n => k.setNotif n (some Notification.fresh)
  | .destroyEp e => destroyDynEndpoint k e
  | .destroyNotif n => destroyDynNotification k n

----
-- When a Move Is Made
----

/- A task slot that can hold a user task. -/
def Kernel.Slot (k : Kernel) (t : Nat) : Prop := 0 < t ∧ t < k.cap.maxTasks

/- `m` is a message that the running task `cur` sends. -/
structure Sends (k : Kernel) (cur : Nat) (m : EpMsg) : Prop where
  slot : k.Slot cur
  sender : m.sender = some cur
  senderGen : m.senderGen = k.gen cur
  call : m.call = callOf (k.tcbs cur).inside

/- The endpoint `e` exists and has a message; `m` is next. -/
def Kernel.Next (k : Kernel) (e : Nat) (m : EpMsg) : Prop :=
  ∃ E, k.eps e = some E ∧ 0 < E.q.count ∧ E.q.front = m

/- The message that a reply capability is installed for. -/
def Kernel.RepliesTo (k : Kernel) (sender senderGen : Nat) (call : Option Nat) : Prop :=
  ∃ m : EpMsg, m.sender = some sender ∧ m.senderGen = senderGen ∧ m.call = call ∧
      (Sends k sender m ∨ ∃ e, k.Next e m)

/- The reply capability of `q` names the incarnation of `t`. -/
def Kernel.MayAnswer (k : Kernel) (q t : Nat) : Prop :=
  ∃ c, k.replyCap q = some c ∧ c.object % 2 ^ 16 = t ∧ c.object / 2 ^ 16 = k.gen t

def Move.Ok (k : Kernel) : Move → Prop
  | .cap op =>
    op.plain = true ∧ enabled k.cap op = true ∧
      (∀ pid sender gen, op ≠ .installReplyFor pid sender gen)
  | .birth op id => op.creates = some id ∧ enabled k.cap op = true
  | .bury id _ => k.Slot id ∧ k.state id ≠ .dead
  | .intendRecv t e _ _ => k.canCall t = true ∧ (k.eps e).isSome = true
  | .intendCall t rep _ _ _ _ => k.canCall t = true ∧ replyEpForTask t = some rep
  | .intendNotif t _ | .intendWait t _ => k.canCall t = true
  | .abortCall t =>
    k.state t = .runnable ∧ (k.tcbs t).pendingBlock = some .ipc ∧
      (callOf (k.tcbs t).inside).isSome = true
  | .saveFrame _ _ | .patch _ _ | .patchBoth _ _ _
  | .forget _ => True
  | .tell _ w _ _ => k.state w = .blockedIpc ∧ (k.tcbs w).ipcRecvBlock = true
  | .grantReply w sender senderGen call =>
    k.Slot w ∧ k.state w ≠ .dead ∧ k.Slot sender ∧ k.RepliesTo sender senderGen call
  | .deliver e w _ _ =>
    (∃ E, k.eps e = some E ∧ k.parkedReceiver E = some w) ∧ (k.tcbs w).ipcRecvBlock = false
  | .enqueue e m =>
    (∃ E, k.eps e = some E ∧ E.q.count < epQueueSlots ∧ k.parkedReceiver E = none) ∧
      ∃ cur, Sends k cur m
  | .take e => ∃ m, k.Next e m
  | .receive e m _ => k.Next e m
  | .dropBlock t => k.Slot t ∧ (k.tcbs t).pendingBlock.isSome = true
  | .settle t => k.Slot t ∧ (k.tcbs t).pendingBlock = some .ipc
  | .settleNotif t => k.Slot t ∧ (k.tcbs t).pendingBlock = some .notif
  | .settleWait t => k.Slot t ∧ (k.tcbs t).pendingBlock = some .wait
  | .park t e =>
    k.Slot t ∧ (k.tcbs t).pendingBlock = some .ipc ∧ (k.tcbs t).blockedOn = some e ∧
      (k.tcbs t).savedKsp.isSome = true ∧ ∃ E, k.eps e = some E ∧ E.q.count = 0
  | .parkNotif t n =>
    k.Slot t ∧ (k.tcbs t).pendingBlock = some .notif ∧ (k.tcbs t).blockedOnNotif = some n ∧
      (k.tcbs t).savedKsp.isSome = true ∧ ∃ N, k.notifs n = some N ∧ N.pendingBadge = 0
  | .parkWait t _ =>
    k.Slot t ∧ (k.tcbs t).pendingBlock = some .wait ∧ (k.tcbs t).savedKsp.isSome = true
  | .unpark t =>
    k.Slot t ∧ (k.state t = .blockedIpc ∨ k.state t = .blockedNotif ∨ k.state t = .blockedWait)
  | .wakeWait w => k.state w = .blockedWait
  | .setBadge n b => ∃ N, k.notifs n = some N ∧ (b ≠ 0 → k.parkedWaiter N = none)
  | .wakeNotif n w => ∃ N, k.notifs n = some N ∧ k.parkedWaiter N = some w
  | .answer q t =>
    k.canCall q = true ∧ k.Slot t ∧ k.state t = .blockedIpc ∧
      (k.tcbs t).ipcRecvBlock = false ∧ k.MayAnswer q t
  | .consumeReply q => k.cap.running q = true
  | .makeEp e => dynEp e = true ∧ k.eps e = none
  | .makeNotif n => dynNotif n = true ∧ k.notifs n = none
  | .destroyEp e => dynEp e = true ∧ (k.eps e).isSome = true
  | .destroyNotif n => dynNotif n = true ∧ (k.notifs n).isSome = true

/- Runs of moves that also meet the guard `G`. -/
def MoveRun (G : Kernel → Move → Prop) : Kernel → Kernel → Prop :=
  Lib.Run Move.apply (fun k move => move.Ok k ∧ G k move)

variable {G : Kernel → Move → Prop} {k : Kernel}

theorem moveRun_refl : MoveRun G k k := Lib.Run.refl k

variable {k' : Kernel}

theorem MoveRun.trans {k'' : Kernel}
    (hRun : MoveRun G k k') (hRun' : MoveRun G k' k'') : MoveRun G k k'' :=
  Lib.Run.trans hRun hRun'

theorem moveRun_step (move : Move) (hOk : move.Ok k) (hG : G k move)
    (hRest : MoveRun G (move.apply k) k') : MoveRun G k k' :=
  Lib.Run.step move ⟨hOk, hG⟩ hRest

theorem moveRun_single (move : Move)
    (hOk : move.Ok k) (hG : G k move) : MoveRun G k (move.apply k) :=
  moveRun_step move hOk hG moveRun_refl

/- The moves that a guard may speak about. -/
def Move.guarded : Move → Bool
  | .cap _ | .birth _ _ | .intendRecv _ _ _ _
  | .intendCall _ _ _ _ _ _ | .deliver _ _ _ _ | .take _
  | .receive _ _ _ | .park _ _ | .parkNotif _ _
  | .destroyEp _ | .destroyNotif _ => true
  | _ => false

def Unguarded (G : Kernel → Move → Prop) : Prop := ∀ k move, move.guarded = false → G k move

section Permits

variable (G : Kernel → Move → Prop) (k : Kernel)

/- A send may hand its message over. -/
def SendPermits (cur e : Nat) (user : List UInt8) (len : Nat)
    (inv : IpcInvoker) (room : Nat) : Prop :=
  ∀ E w data, k.eps e = some E → k.parkedReceiver E = some w →
    copyFromUser user (handOffLen k w (min len ipcMsgMax)) = some data →
    ∀ k', G k' (.deliver e w (k.message cur (user.take (min len ipcMsgMax)) inv)
        (handOffReceipt k cur E w inv data room))

/- A receive may take the next message. -/
def RecvPermits (cur e maxLen room : Nat) : Prop :=
  ∀ m, k.Next e m → (recvFaults m maxLen room = true → G k (.take e)) ∧
    (recvFaults m maxLen room = false → ∀ k', G k' (.receive e m (recvReceipt k cur m maxLen)))

/- A block may be published. -/
structure PublishPermits (cur room : Nat) : Prop where
  park : ∀ e, (k.tcbs cur).blockedOn = some e →
    (k.tcbs cur).pendingBlock = some .ipc → G k (.park cur e)
  parkNotif : ∀ n, (k.tcbs cur).blockedOnNotif = some n → (k.tcbs cur).pendingBlock = some .notif →
    G k (.parkNotif cur n)
  receive : ∀ e m, (k.tcbs cur).blockedOn = some e →
    (k.tcbs cur).pendingBlock = some .ipc → k.Next e m →
    ∀ k', G k' (.receive e m (inlineReceipt k cur m room))

/- What an operation needs of the guard. -/
def KernelPermits : KernelOp → Prop
  | .cap op =>
    match op.creates with
    | some id => G k (.birth op id)
    | none => G k (.cap op)
  | .send cur slot user len room =>
    ∀ e inv serial, ipcEpAndInvoker k cur slot Right.write = some (e, inv, serial) →
      SendPermits G k cur e user len inv room
  | .ipcReply cur slot user len room =>
    ∀ e, ipcEpFromSlot k cur slot Right.write = some e →
      SendPermits G k cur e user len ipcNoInvoker room
  | .call cur slot user len buf recvSlot _ room =>
    ∀ e inv serial, ipcEpAndInvoker k cur slot Right.write = some (e, inv, serial) →
      ∀ inv' rep, G k (.intendCall cur rep buf recvSlot slot serial) ∧
        SendPermits G (k.intendCall cur rep buf recvSlot slot serial) cur e user len inv' room
  | .recv cur slot maxLen room =>
    ∀ e, ipcEpFromSlot k cur slot Right.read = some e → RecvPermits G k cur e maxLen room
  | .recvBlock cur slot buf maxLen room =>
    ∀ e, ipcEpFromSlot k cur slot Right.read = some e → G k (.intendRecv cur e buf maxLen) ∧
      RecvPermits G k cur e maxLen room
  | .replyTo _ _ _ _ _ =>
    ∀ k' pid invSlot invSerial e dest rights token, G k' (.cap
          (.replyMint pid invSlot invSerial e dest rights token))
  | .publish cur f room _ => PublishPermits G (k.saveFrame cur f) cur room
  | .retypeEp cur dest e => ∀ k', G k' (.cap (.retype cur dest .endpoint e))
  | .retypeNotif cur dest n => ∀ k', G k' (.cap (.retype cur dest .notification n))
  | .collectEp e => G k (.destroyEp e)
  | .collectNotif n => G k (.destroyNotif n)
  | _ => True

end Permits

end Horus
