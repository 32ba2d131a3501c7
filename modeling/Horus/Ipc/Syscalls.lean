import Horus.Ipc.Updates

/-
  The system calls of `syscall_ipc.c`, with the parts of
  `scheduler.c`, `syscall.c` and `untyped.c` that block and
  wake tasks.

  A call that blocks only records that it will: the task is
  parked later by `ipcBlockSwitch`, and other tasks can come
  in between. The user's memory is an argument. `user` is what
  can be read at the caller's pointer, `room` is how many
  bytes can be written at the receiver's.
-/

namespace Horus

def ipcEpFromSlot (k : Kernel) (cur slot : Nat) (need : Rights) : Option Nat :=
  match capLookupIpcObject k.cap cur slot .endpoint need epIndexMax with
  | none => none
  | some e => if (k.eps e).isNone then none else some e

def ipcNotifFromSlot (k : Kernel) (cur slot : Nat) (need : Rights) : Option Nat :=
  match capLookupIpcObject k.cap cur slot .notification need notifIndexMax with
  | none => none
  | some n => if (k.notifs n).isNone then none else some n

/-
  `ipc_ep_and_invoker`: the endpoint, what is attested about
  the capability, and its serial.
-/
def ipcEpAndInvoker (k : Kernel) (cur slot : Nat)
    (need : Rights) : Option (Nat × IpcInvoker × Nat) :=
  match capLookup k.cap cur slot (some .endpoint) need with
  | none => none
  | some a =>
  let c := k.cap.mem a
  if epIndexMax ≤ c.object then none
  else if (k.eps c.object).isNone then none
  else some (c.object, { ipcNoInvoker with token := c.token, rights := c.rights }, c.serial)

/- The task that a send on the endpoint hands its message to. -/
def Kernel.parkedReceiver (k : Kernel) (E : Endpoint) : Option Nat :=
  (k.inRange E.blockedWaiter).filter fun w => k.state w = .blockedIpc && E.q.count = 0

/- How much of a message of `len` bytes is handed to `w`. -/
def handOffLen (k : Kernel) (w len : Nat) : Nat :=
  if (k.tcbs w).ipcRecvBlock then min len (k.tcbs w).ipcRecvMax else len

/- What a hand-off leaves with the waiter. -/
def handOffReceipt (k : Kernel) (cur : Nat) (E : Endpoint) (w : Nat)
    (inv : IpcInvoker) (data : List UInt8) (room : Nat) : Receipt :=
  let recvWait := (k.tcbs w).ipcRecvBlock
  { receiver := w
    receiverGen := k.gen w
    maxLen := (k.tcbs w).declaredMax
    data := k.stored w data room
    sender := if recvWait then some cur else E.lastSender
    senderGen := if recvWait then k.gen cur else E.lastSenderGen
    inv := if recvWait then inv else E.lastInvoker }

/-
  The first half of `sys_ipc_send`: the message goes straight
  to the waiter. Only a receiver, not a caller that waits for
  its reply, learns who sent it and gets a reply capability;
  when that cannot be installed the send fails, but the mode
  of the waiter has already been cleared.
-/
def handOff (k : Kernel) (cur e : Nat) (E : Endpoint) (w : Nat)
    (user : List UInt8) (len : Nat) (inv : IpcInvoker) (room : Nat) : Int × Kernel :=
  match copyFromUser user (handOffLen k w len) with
  | none => (-1, k)
  | some data =>
  let m := k.message cur (user.take len) inv
  let r := handOffReceipt k cur E w inv data room
  if (k.tcbs w).savedKsp.isNone then (-1, k)
  else
    let patched := k.patch w data.length
    if (k.tcbs w).ipcRecvBlock then
      let told := patched.tell e w cur inv
      let replied := told.grantReply w cur (k.gen cur) m.call
      if (capInstallReplyFor told.cap w cur (k.gen cur)).1 then (0, replied.deliver e w m r)
      else (-1, replied)
    else (0, patched.deliver e w m r)

/-
  `sys_ipc_send`. The check of slot 3 compares a capability
  with itself, since nothing comes between.
-/
def sysIpcSend (k : Kernel) (cur e : Nat) (user : List UInt8) (len : Nat)
    (inv : IpcInvoker) (room : Nat) : Int × Kernel :=
  match k.eps e with
  | none => (-1, k)
  | some E =>
  match k.parkedReceiver E with
  | some w => handOff k cur e E w user (min len ipcMsgMax) inv room
  | none =>
  if epQueueSlots ≤ E.q.count then (-2, k)
  else
    match copyFromUser user (min len ipcMsgMax) with
    | none => (-1, k)
    | some data => (0, k.enqueue e (k.message cur data inv))

def hIpcSend (k : Kernel) (cur slot : Nat) (user : List UInt8) (len room : Nat) : Int × Kernel :=
  match ipcEpAndInvoker k cur slot Right.write with
  | none => (-1, k)
  | some (e, inv, _) => sysIpcSend k cur e user len inv room

/- `h_ipc_reply`: a send that attests no capability. -/
def hIpcReply (k : Kernel) (cur slot : Nat) (user : List UInt8) (len room : Nat) : Int × Kernel :=
  match ipcEpFromSlot k cur slot Right.write with
  | none => (-1, k)
  | some e => sysIpcSend k cur e user len ipcNoInvoker room

def replyEpForTask (t : Nat) : Option Nat :=
  if t = 0 ∨ 256 ≤ t then none
  else if maxEndpoints ≤ replyEpBase + t then none
  else some (replyEpBase + t)

/- The attestation of a call that may carry a capability. -/
def carriedInvoker (k : Kernel) (cur e : Nat) (inv : IpcInvoker) : Option Nat → Option IpcInvoker
  | none => some inv
  | some slot =>
    match ipcEpAndInvoker k cur slot 0 with
    | none => none
    | some (e', inv', _) =>
    if e' ≠ e then none
    else some { inv with carried := true, carryToken := inv'.token, carryRights := inv'.rights }

/- The slot for a returned capability can be used. -/
def recvSlotOk (k : Kernel) (cur : Nat) : Option Nat → Bool
  | none => true
  | some slot =>
    kernelReservedCaps ≤ slot && slot < (k.cap.tasks cur).cspaceSz && slot ≠ capslotReply

/- `ipc_call_common`; `IPC_NO_CAP` is `none`. -/
def ipcCallCommon (k : Kernel) (cur slot : Nat) (user : List UInt8)
    (len buf : Nat) (recvSlot carrySlot : Option Nat) (room : Nat) : Int × Kernel :=
  match ipcEpAndInvoker k cur slot Right.write with
  | none => (-1, k)
  | some (e, inv, serial) =>
  match carriedInvoker k cur e inv carrySlot with
  | none => (-1, k)
  | some inv =>
  if !recvSlotOk k cur recvSlot then (-22, k)
  else
    match replyEpForTask cur with
    | none => (-1, k)
    | some rep =>
      let intent := k.intendCall cur rep buf recvSlot slot serial
      let sent := sysIpcSend intent cur e user len inv room
      if sent.1 < 0 then (sent.1, sent.2.abortCall cur) else (0, sent.2)

/- `cap_install_object` of the caller's reply capability. -/
def Kernel.grantOwnReply (k : Kernel) (cur sender senderGen : Nat) (call : Option Nat) : Kernel :=
  k.granted cur call (capInstallObject k.cap cur capslotReply .reply
      (packTask sender senderGen) Right.write .recvReply)

/- The copy to the receiver faults. -/
def recvFaults (m : EpMsg) (maxLen room : Nat) : Bool :=
  let len := epDequeueLen m (asInt maxLen)
  0 < len && !copyToUser room len.toNat

def recvReceipt (k : Kernel) (cur : Nat) (m : EpMsg) (maxLen : Nat) : Receipt :=
  receiptOf m cur (k.gen cur) maxLen (epDequeueData m (asInt maxLen))

/-
  `sys_ipc_recv`. The message leaves the queue before it is
  copied to the receiver.
-/
def sysIpcRecv (k : Kernel) (cur e maxLen room : Nat) : Int × Kernel :=
  match k.eps e with
  | none => (-1, k)
  | some E =>
  if E.q.count = 0 then (-2, k)
  else
    let m := E.q.front
    if recvFaults m maxLen room then (-1, k.take e)
    else
      let taken := k.receive e m (recvReceipt k cur m maxLen)
      (epDequeueLen m (asInt maxLen), match k.inRange m.sender with
        | none => taken
        | some sender => taken.grantOwnReply cur sender m.senderGen m.call)

def hIpcRecv (k : Kernel) (cur slot maxLen room : Nat) : Int × Kernel :=
  match ipcEpFromSlot k cur slot Right.read with
  | none => (-1, k)
  | some e => sysIpcRecv k cur e maxLen room

def hIpcRecvBlock (k : Kernel) (cur slot buf maxLen room : Nat) : Int × Kernel :=
  match ipcEpFromSlot k cur slot Right.read with
  | none => (-1, k)
  | some e =>
  match k.eps e with
  | none => (-1, k)
  | some E =>
    if E.q.count = 0 then (0, k.intendRecv cur e buf maxLen) else sysIpcRecv k cur e maxLen room

/- The reply capability of a task, as `cap_lookup` finds it. -/
def Kernel.replyCap (k : Kernel) (cur : Nat) : Option Capability :=
  (capLookup k.cap cur capslotReply (some .reply) Right.write).map k.cap.mem

/- The last part of `ipc_reply_common`: wake the caller. -/
def replyDeliver (k : Kernel) (cur t : Nat) (data : List UInt8) : Int × Kernel :=
  if (k.tcbs t).savedKsp.isNone then (-1, k)
  else (0, ((k.patch t data.length).answer cur t).consumeReply cur)

/-
  `ipc_reply_common`; `mint` holds the rights and the token of
  `SYS_IPC_REPLY_CAP`. A reply to a task that is not waiting
  for one is dropped together with the capability.
-/
def ipcReplyCommon (k : Kernel) (cur slot : Nat) (user : List UInt8)
    (len : Nat) (mint : Option (Rights × Nat)) : Int × Kernel :=
  match ipcEpFromSlot k cur slot Right.read, k.replyCap cur with
  | none, _ => (-1, k)
  | some _, none => (-1, k)
  | some e, some c =>
  let t := c.object % 2 ^ 16
  if t = 0 ∨ k.cap.maxTasks ≤ t ∨ k.state t = .dead ∨ k.gen t ≠ c.object / 2 ^ 16 then
    (0, k.consumeReply cur)
  else if k.state t ≠ .blockedIpc ∨ (k.tcbs t).ipcRecvBlock then
    if (k.tcbs t).pendingBlock = some .ipc ∧ !(k.tcbs t).ipcRecvBlock then (-2, k)
    else (0, k.consumeReply cur)
  else
    match copyFromUser user (min len ipcMsgMax) with
    | none => (-1, k)
    | some data =>
    match mint with
    | none => replyDeliver k cur t data
    | some (rights, token) =>
    match (k.tcbs t).ipcCapRecvSlot with
    | none => (-1, k)
    | some dest =>
    let minted := capReplyMintInto k.cap t (k.tcbs t).ipcInvSlot
        (k.tcbs t).ipcInvSerial e dest rights
        token
    if minted.1 then replyDeliver (k.setCap minted.2) cur t data else (-1, k.setCap minted.2)

/- The task that a notify on the notification wakes. -/
def Kernel.parkedWaiter (k : Kernel) (N : Notification) : Option Nat :=
  (k.inRange N.blockedWaiter).filter fun w => k.state w = .blockedNotif

def sysNotify (k : Kernel) (n : Nat) (badge : BitVec 32) : Int × Kernel :=
  match k.notifs n with
  | none => (-1, k)
  | some N =>
    let b := N.pendingBadge ||| badge
    match k.parkedWaiter N with
    | none => (0, k.setBadge n b)
    | some w => (0, (k.patchBoth w 0 b.toNat).wakeNotif n w)

/- `sys_wait_notify`: the result, the badge and the state. -/
def sysWaitNotify (k : Kernel) (cur n : Nat) : Int × BitVec 32 × Kernel :=
  match k.notifs n with
  | none => (-1, 0, k)
  | some N =>
    if N.pendingBadge ≠ 0 then (0, N.pendingBadge, k.setBadge n 0) else (0, 0, k.intendNotif cur n)

def sysPollNotify (k : Kernel) (n : Nat) : Int × BitVec 32 × Kernel :=
  match k.notifs n with
  | none => (-1, 0, k)
  | some N => if N.pendingBadge ≠ 0 then (0, N.pendingBadge, k.setBadge n 0) else (-2, 0, k)

/- A handler that first looks a notification up. -/
def throughNotif {α : Type} (k : Kernel) (cur slot : Nat) (need : Rights)
    (refused : α) (call : Nat → α) : α :=
  match ipcNotifFromSlot k cur slot need with
  | none => refused
  | some n => call n

def hNotify (k : Kernel) (cur slot : Nat) (badge : BitVec 32) : Int × Kernel :=
  throughNotif k cur slot Right.write (-1, k) fun n => sysNotify k n badge

def hWaitNotify (k : Kernel) (cur slot : Nat) : Int × BitVec 32 × Kernel :=
  throughNotif k cur slot Right.read (-1, 0, k) fun n => sysWaitNotify k cur n

def hPollNotify (k : Kernel) (cur slot : Nat) : Int × BitVec 32 × Kernel :=
  throughNotif k cur slot Right.read (-1, 0, k) fun n => sysPollNotify k n

def hWait (k : Kernel) (cur tid : Nat) : Int × Kernel :=
  if k.cap.maxTasks ≤ tid ∨ tid = cur then (-1, k)
  else if !taskTcbHeld k.cap cur tid Right.read then (-1, k)
  else if k.state tid = .dead then (0, k)
  else (0, k.intendWait cur tid)

/- The first task whose waiter is `t` forgets it. -/
def Kernel.unlinkTask (k : Kernel) (t : Nat) : Kernel :=
  match firstIndex (fun w => 0 < w && (k.tcbs w).waiter = some t) k.cap.maxTasks with
  | none => k
  | some w => k.modTcb w fun x => { x with waiter := none }

/- `signal_interrupt_wait`, with `SYS_ERR_INTR` as a register. -/
def signalInterruptWait (k : Kernel) (t : Nat) : Kernel :=
  if (k.tcbs t).savedKsp.isNone then k else ((k.patch t (2 ^ 32 - 4)).unlinkTask t).wakeWait t

----
-- Publishing a Block
----

/- The longest message that a published block takes. -/
def inlineMax (x : IpcTcb) : Int := if x.ipcRecvBlock then asInt x.ipcRecvMax else ipcMsgMax

/- What it leaves with the receiver. -/
def inlineReceipt (k : Kernel) (cur : Nat) (m : EpMsg) (room : Nat) : Receipt :=
  let x := k.tcbs cur
  receiptOf m cur (k.gen cur) x.declaredMax (k.stored cur (epDequeueData m (inlineMax x)) room)

/-
  The queue was not empty: the block ends at once. A fault of
  the copy and a reply capability that cannot be installed
  both go unnoticed here.
-/
def completeInline (k : Kernel) (cur e : Nat) (E : Endpoint) (room : Nat) : Kernel :=
  let m := E.q.front
  let len := epDequeueLen m (inlineMax (k.tcbs cur))
  let done := ((k.receive e m (inlineReceipt k cur m room)).patch cur (asUint32 len)).settle cur
  match k.inRange m.sender with
  | none => done
  | some sender =>
    if (k.tcbs cur).ipcRecvBlock then done.grantReply cur sender m.senderGen m.call else done

def publishIpc (k : Kernel) (cur room : Nat) : Bool × Kernel :=
  match (k.tcbs cur).blockedOn with
  | none => (false, k.dropBlock cur)
  | some e =>
  match k.eps e with
  | none => (false, k.dropBlock cur)
  | some E => if E.q.count = 0 then (true, k.park cur e) else (false, completeInline k cur e E room)

def publishWait (k : Kernel) (cur : Nat) : Bool × Kernel :=
  match (k.tcbs cur).blockedOn with
  | none => (false, (k.patch cur 0).settleWait cur)
  | some tid =>
    if k.cap.maxTasks ≤ tid ∨ k.state tid = .dead ∨ k.gen tid ≠ (k.tcbs cur).blockedOnGen then
      (false, (k.patch cur 0).settleWait cur)
    else (true, k.parkWait cur tid)

def publishNotif (k : Kernel) (cur : Nat) : Bool × Kernel :=
  match (k.tcbs cur).blockedOnNotif with
  | none => (false, k.dropBlock cur)
  | some n =>
  match k.notifs n with
  | none => (false, k.dropBlock cur)
  | some N =>
    if N.pendingBadge = 0 then (true, k.parkNotif cur n)
    else (false, ((k.setBadge n 0).patchBoth cur 0 N.pendingBadge.toNat).settleNotif cur)

/- `ipc_publish_pending_block`: whether the task now waits. -/
def ipcPublishPendingBlock (k : Kernel) (cur room : Nat) : Bool × Kernel :=
  if cur = 0 ∨ k.cap.maxTasks ≤ cur then (false, k)
  else
    match (k.tcbs cur).pendingBlock with
    | none => (false, k)
    | some kind =>
    if (k.tcbs cur).savedKsp.isNone then (false, k.dropBlock cur)
    else
      match kind with
      | .ipc => publishIpc k cur room
      | .wait => publishWait k cur
      | .notif => publishNotif k cur

/- What `ipc_unpublish_block` undoes, by the state of the task. -/
def unpublishLink (k : Kernel) (cur : Nat) : Kernel :=
  match k.state cur with
  | .blockedIpc =>
    (k.unlinkEp cur).modTcb cur fun x => { x with blockedOn := none, ipcRecvBlock := false }
  | .blockedWait =>
    (match (k.tcbs cur).blockedOn with
    | none => k
    | some tid =>
      if tid < k.cap.maxTasks ∧ (k.tcbs tid).waiter = some cur then
        k.modTcb tid fun x => { x with waiter := none }
      else k).modTcb cur fun x => { x with blockedOn := none }
  | .blockedNotif => k.unlinkNotif cur
  | _ => k

def ipcUnpublishBlock (k : Kernel) (cur : Nat) : Kernel :=
  if cur = 0 ∨ k.cap.maxTasks ≤ cur then k else (unpublishLink k cur).wakeWait cur

/-
  `ipc_block_switch`: the frame is saved, the block published.
  `alone` is the case of a single processor that has no other
  task to run.
-/
def ipcBlockSwitch (k : Kernel) (cur : Nat) (f : Frame) (room : Nat) (alone : Bool) : Kernel :=
  let r := ipcPublishPendingBlock (k.saveFrame cur f) cur room
  if r.1 && alone then ipcUnpublishBlock r.2 cur else r.2

/- A task that the destroyed object names is made runnable. -/
def Kernel.wakeNamed (k : Kernel) (waiter : Option Nat) (f : IpcTcb → IpcTcb) : Kernel :=
  match k.inRange waiter with
  | none => k
  | some w => if k.state w = .dead then k else (k.setState w .runnable).modTcb w f

def destroyDynEndpoint (k : Kernel) (e : Nat) : Kernel :=
  match k.eps e with
  | none => k
  | some E =>
    (k.wakeNamed E.blockedWaiter fun x => { x with blockedOn := none, inside := none }).setEp e none

def destroyDynNotification (k : Kernel) (n : Nat) : Kernel :=
  match k.notifs n with
  | none => k
  | some N =>
    (k.wakeNamed N.blockedWaiter fun x =>
      { x with blockedOnNotif := none, inside := none }).setNotif n none

/- What `task_teardown` does to the slot beside its cspace. -/
def Kernel.bury (k : Kernel) (id : Nat) (scratch : Scratch) : Kernel :=
  (k.setSys (taskTeardown k.sys id scratch)).modTcb id fun x =>
    { x with savedKsp := none, waiter := x.waiter.filter fun w => !decide (w < k.cap.maxTasks) }

/- `task_teardown`: the waiter is woken once the task is dead. -/
def ipcTeardown (k : Kernel) (id : Nat) (scratch : Scratch) : Kernel :=
  if k.state id = .dead then k
  else
    match (k.tcbs id).waiter with
    | none => k.bury id scratch
    | some w =>
    if w < k.cap.maxTasks ∧ (k.bury id scratch).state w = .blockedWait ∧
        ((k.bury id scratch).tcbs w).blockedOn = some id ∧
        ((k.bury id scratch).tcbs w).blockedOnGen = k.gen id then
      (k.bury id scratch).wakeWait w
    else k.bury id scratch

/- What `create_task` does to the slot beside its cspace. -/
def Kernel.resetTask (k : Kernel) (id : Nat) : Kernel :=
  k.modTcb id fun x =>
    { x with
      pendingBlock := none
      savedKsp := none
      ipcCapRecvSlot := none
      inside := none
      replyTag := none }

end Horus
