import Horus.Ipc.State

/-
  The elementary updates that the system calls of
  `syscall_ipc.c` are made of: a message is queued or taken, a
  task intends to block, is parked, or is woken.

  The user's memory is not part of the state. What can be read
  at a pointer is a list of bytes, and a buffer is the number
  of bytes that can be written to it.
-/

namespace Horus

/- `copy_from_user` of `n` bytes, or a fault. -/
def copyFromUser (user : List UInt8) (n : Nat) : Option (List UInt8) :=
  if n ≤ user.length then some (user.take n) else none

/- `copy_to_user` of `n` bytes succeeds. -/
def copyToUser (room n : Nat) : Bool := n ≤ room

/- The conversion of a `size_t` or `uint32_t` to `int`. -/
def asInt (n : Nat) : Int :=
  if n % 2 ^ 32 < 2 ^ 31 then (n % 2 ^ 32 : Nat) else (n % 2 ^ 32 : Nat) - 2 ^ 32

/- The conversion of an `int` to `uint32_t`. -/
def asUint32 (n : Int) : Nat := (n % 2 ^ 32).toNat

/- The length that `ep_dequeue` returns. -/
def epDequeueLen (m : EpMsg) (max : Int) : Int := if max < m.data.length then max else m.data.length

/- The bytes that `ep_dequeue` copies. -/
def epDequeueData (m : EpMsg) (max : Int) : List UInt8 := m.data.take (epDequeueLen m max).toNat

/- The number of the call that a task is in. -/
def callOf : Option Inside → Option Nat
  | some (.call n) => some n
  | _ => none

/- The maximum a blocked task asked for. -/
def IpcTcb.declaredMax (x : IpcTcb) : Nat :=
  match x.inside with
  | some (.recvBlock maxLen) => maxLen
  | _ => ipcMsgMax

/- What a receiver obtains of a message, given its bytes. -/
def receiptOf (m : EpMsg) (receiver receiverGen maxLen : Nat) (data : List UInt8) : Receipt :=
  { receiver := receiver
    receiverGen := receiverGen
    maxLen := maxLen
    data := data
    sender := m.sender
    senderGen := m.senderGen
    inv := m.inv }

namespace Kernel

section Updates

variable (k : Kernel)

/- The message that the running task sends. -/
def message (cur : Nat) (data : List UInt8) (inv : IpcInvoker) : EpMsg :=
  { data := data.take ipcMsgMax
    sender := some cur
    senderGen := if 0 < cur ∧ cur < k.cap.maxTasks then k.gen cur else 0
    inv := inv
    call := callOf (k.tcbs cur).inside }

/- The bytes that reach the buffer of a blocked task. -/
def stored (w : Nat) (data : List UInt8) (room : Nat) : List UInt8 :=
  if (k.tcbs w).ipcReplyBuf ≠ 0 ∧ copyToUser room data.length then data else []

/- `ep_enqueue`. -/
def enqueue (e : Nat) (m : EpMsg) : Kernel :=
  k.modEp e fun E => { E with q := E.q.push epQueueSlots m, sent := E.sent ++ [m] }

/- `ep_dequeue`, with nothing reported to the receiver. -/
def take (e : Nat) : Kernel := k.modEp e fun E => { E with q := E.q.pop epQueueSlots EpMsg.blank }

/- `ep_dequeue`, with the sender reported. -/
def receive (e : Nat) (m : EpMsg) (r : Receipt) : Kernel :=
  k.modEp e fun E =>
    { E.note m.sender m.senderGen m.inv with
      q := E.q.pop epQueueSlots EpMsg.blank
      got := E.got ++ [r] }

def saveFrame (t : Nat) (f : Frame) : Kernel := k.modTcb t fun x => { x with savedKsp := some f }

/- A waker writes to the saved frame, if there is one. -/
def patch (t rax : Nat) : Kernel :=
  k.modTcb t fun x => { x with savedKsp := x.savedKsp.map fun f => { f with rax := rax } }

def patchBoth (t rax rbx : Nat) : Kernel :=
  k.modTcb t fun x => { x with savedKsp := x.savedKsp.map fun _ => { rax := rax, rbx := rbx } }

/- The sender is reported and the waiter's mode is cleared. -/
def tell (e w cur : Nat) (inv : IpcInvoker) : Kernel :=
  (k.modEp e fun E =>
    E.note (some cur) (k.gen cur) inv).modTcb w fun x => { x with ipcRecvBlock := false }

/- A hand-off is complete: the waiter runs. -/
def deliver (e w : Nat) (m : EpMsg) (r : Receipt) : Kernel :=
  ((k.modEp e fun E =>
    { E with
      blockedWaiter := none
      sent := E.sent ++ [m]
      got := E.got ++ [r] }).setState w .runnable).modTcb w
    fun x => { x with blockedOn := none, inside := none }

/- A reply capability is in place, or could not be installed. -/
def granted (w : Nat) (call : Option Nat) (r : Bool × CapState) : Kernel :=
  if r.1 then (k.setCap r.2).modTcb w fun x => { x with replyTag := some ⟨w, k.gen w, call⟩ }
  else k.setCap r.2

/- `cap_install_reply_for`. -/
def grantReply (w sender senderGen : Nat) (call : Option Nat) : Kernel :=
  k.granted w call (capInstallReplyFor k.cap w sender senderGen)

/- `cap_consume_slot` of the reply capability. -/
def consumeReply (cur : Nat) : Kernel := k.setCap (capConsumeSlot k.cap cur capslotReply).2

def intendRecv (t e buf maxLen : Nat) : Kernel :=
  k.modTcb t fun x =>
    { x with
      ipcReplyBuf := buf
      ipcRecvMax := maxLen % 2 ^ 32
      ipcRecvBlock := true
      blockedOn := some e
      pendingBlock := some .ipc
      inside := some (.recvBlock maxLen) }

/- Calls are numbered. -/
@[simps cap obj tcbs eps notifs completed]
def nextNumber : Kernel := { k with nextCall := k.nextCall + 1 }

def intendCall (t rep buf : Nat) (recvSlot : Option Nat) (invSlot invSerial : Nat) : Kernel :=
  k.nextNumber.modTcb t fun x =>
    { x with
      ipcCapRecvSlot := recvSlot
      ipcInvSlot := invSlot
      ipcInvSerial := invSerial
      ipcReplyBuf := buf
      blockedOn := some rep
      pendingBlock := some .ipc
      inside := some (.call k.nextCall) }

/- The request could not be sent, so the call returns. -/
def abortCall (t : Nat) : Kernel :=
  k.modTcb t fun x =>
    { x with
      pendingBlock := none
      blockedOn := none
      ipcReplyBuf := 0
      ipcCapRecvSlot := none
      inside := none }

def intendNotif (t n : Nat) : Kernel :=
  k.modTcb t fun x =>
    { x with blockedOnNotif := some n, pendingBlock := some .notif, inside := some .waitNotify }

def intendWait (t tid : Nat) : Kernel :=
  k.modTcb t fun x =>
    { x with
      blockedOn := some tid
      blockedOnGen := k.gen tid
      pendingBlock := some .wait
      inside := some .wait }

----
-- Parking and Waking
----

def park (t e : Nat) : Kernel :=
  ((k.modEp e fun E =>
    { E with blockedWaiter := some t }).setState t .blockedIpc).modTcb t fun x =>
    { x with pendingBlock := none, parkGen := k.gen t }

def parkNotif (t n : Nat) : Kernel :=
  ((k.modNotif n fun N =>
    { N with blockedWaiter := some t }).setState t .blockedNotif).modTcb t fun x =>
    { x with pendingBlock := none, parkGen := k.gen t }

def parkWait (t tid : Nat) : Kernel :=
  ((k.modTcb tid fun x =>
    { x with waiter := some t }).setState t .blockedWait).modTcb
      t fun x => { x with pendingBlock := none }

/- The block is given up; only the mode is cleared. -/
def dropBlock (t : Nat) : Kernel :=
  (k.setState t .runnable).modTcb t fun x =>
    { x with pendingBlock := none, ipcRecvBlock := false, inside := none }

/- The block ends with a message that was already queued. -/
def settle (t : Nat) : Kernel :=
  (k.setState t .runnable).modTcb t fun x =>
    { x with pendingBlock := none, blockedOn := none, ipcRecvBlock := false, inside := none }

/- The block ends with a badge that was already pending. -/
def settleNotif (t : Nat) : Kernel :=
  (k.setState t .runnable).modTcb t fun x => { x with pendingBlock := none, inside := none }

/- The block ends because the other task is dead. -/
def settleWait (t : Nat) : Kernel :=
  (k.setState t .runnable).modTcb t fun x =>
    { x with pendingBlock := none, blockedOn := none, inside := none }

/- The endpoint `t` is blocked on forgets it. -/
@[simps cap obj tcbs notifs nextCall completed]
def unlinkEp (t : Nat) : Kernel :=
  { k with
    eps := fun e =>
      if (k.tcbs t).blockedOn = some e then
        (k.eps e).map fun E =>
          if E.blockedWaiter = some t then { E with blockedWaiter := none } else E
      else k.eps e }

@[simps cap obj tcbs eps nextCall completed]
def unlinkNotif (t : Nat) : Kernel :=
  { k with
    notifs := fun n =>
      if (k.tcbs t).blockedOnNotif = some n then
        (k.notifs n).map fun N =>
          if N.blockedWaiter = some t then { N with blockedWaiter := none } else N
      else k.notifs n }

def setBadge (n : Nat) (b : BitVec 32) : Kernel :=
  k.modNotif n fun N => { N with pendingBadge := b }

def wakeNotif (n w : Nat) : Kernel :=
  ((k.modNotif n fun N =>
    { N with pendingBadge := 0, blockedWaiter := none }).setState w .runnable).modTcb w
    fun x => { x with inside := none }

/- A task that waits for another one runs again. -/
def wakeWait (w : Nat) : Kernel :=
  (k.setState w .runnable).modTcb w fun x => { x with inside := none }

/- The call that a reply of `q` to `t` completes. -/
@[simps cap obj tcbs eps notifs nextCall]
def logReply (q t : Nat) : Kernel :=
  { k with
    completed := match callOf (k.tcbs t).inside with
      | some n => ⟨n, q, k.gen q, (k.tcbs q).replyTag⟩ :: k.completed
      | none => k.completed }

/- A reply of `q` has reached `t`, which runs again. -/
def answer (q t : Nat) : Kernel :=
  (((k.logReply q t).unlinkEp t).setState t .runnable).modTcb t
    fun x => { x with blockedOn := none, inside := none }

section Reading

variable (t q i : Nat)

theorem unlinkEp_eps (e : Nat) : (k.unlinkEp t).eps e = if (k.tcbs t).blockedOn = some e then
        (k.eps e).map fun E =>
          if E.blockedWaiter = some t then { E with blockedWaiter := none } else E
      else k.eps e := rfl

@[simp] theorem unlinkEp_state : (k.unlinkEp t).state i = k.state i := rfl

@[simp] theorem logReply_state : (k.logReply q t).state i = k.state i := rfl

@[simp] theorem logReply_gen : (k.logReply q t).gen i = k.gen i := rfl

@[simp] theorem nextNumber_state :
    k.nextNumber.state i = k.state i := rfl

@[simp] theorem nextNumber_gen :
    k.nextNumber.gen i = k.gen i := rfl

end Reading

end Updates

end Kernel

end Horus
