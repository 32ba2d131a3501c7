import Horus.Kernel.Steps
import Horus.Lib.Ring

/-
  The state of inter-process communication (`kernel.h`,
  `syscall_ipc.c`): endpoints with their message queues,
  notifications, and what a task slot keeps while it blocks.

  Some fields are not in the source and no operation reads
  them. An endpoint keeps the messages whose send returned 0
  (`sent`) and what its receivers obtained (`got`). A task
  keeps the blocking call it is in (`inside`), its incarnation
  when it was parked (`parkGen`), and the message for which
  its reply capability was installed (`replyTag`). The kernel
  keeps the calls that a reply completed.
-/

namespace Horus

open Function

def epQueueSlots : Nat := 4
def ipcMsgMax : Nat := 256
def dynEpBase : Nat := maxEndpoints
def epIndexMax : Nat := dynEpBase + 256

/- What the kernel attests about the capability used. -/
structure IpcInvoker where
  token : Nat
  rights : Rights
  carried : Bool
  carryToken : Nat
  carryRights : Rights
deriving DecidableEq, Repr

def ipcNoInvoker : IpcInvoker :=
  { token := 0, rights := 0, carried := false, carryToken := 0, carryRights := 0 }

/-
  A queued message; sender -1 is `none`. `call` is the number
  of the call whose request it is.
-/
structure EpMsg where
  data : List UInt8
  sender : Option Nat
  senderGen : Nat
  inv : IpcInvoker
  call : Option Nat
deriving DecidableEq, Repr

/- What `ep_dequeue` leaves in the cell. -/
def EpMsg.blank : EpMsg :=
  { data := [], sender := none, senderGen := 0, inv := ipcNoInvoker, call := none }

/-
  What one receiver obtained: the bytes that reached its
  buffer, the maximum it asked for, and the sender as the
  endpoint reports it.
-/
structure Receipt where
  receiver : Nat
  receiverGen : Nat
  maxLen : Nat
  data : List UInt8
  sender : Option Nat
  senderGen : Nat
  inv : IpcInvoker
deriving DecidableEq, Repr

structure Endpoint where
  q : Lib.Ring EpMsg
  lastSender : Option Nat
  lastSenderGen : Nat
  lastInvoker : IpcInvoker
  blockedWaiter : Option Nat
  sent : List EpMsg
  got : List Receipt

namespace Endpoint

/- An endpoint as `scheduler_init` and `kobj_alloc` make it. -/
def fresh : Endpoint :=
  { q := Lib.Ring.empty EpMsg.blank
    lastSender := none
    lastSenderGen := 0
    lastInvoker := ipcNoInvoker
    blockedWaiter := none
    sent := []
    got := [] }

/- The sender of the message being serviced is reported. -/
def note (E : Endpoint) (sender : Option Nat) (senderGen : Nat) (inv : IpcInvoker) : Endpoint :=
  { E with lastSender := sender, lastSenderGen := senderGen, lastInvoker := inv }

/- The messages waiting, the oldest first. -/
def queue (E : Endpoint) : List EpMsg := E.q.toList epQueueSlots

end Endpoint

def maxNotifications : Nat := 64
def dynNotifBase : Nat := maxNotifications
def notifIndexMax : Nat := dynNotifBase + 256

structure Notification where
  pendingBadge : BitVec 32
  blockedWaiter : Option Nat
deriving DecidableEq, Repr

def Notification.fresh : Notification := { pendingBadge := 0, blockedWaiter := none }

/- The values of `pending_block` other than 0. -/
inductive Block where
  | ipc
  | notif
  | wait
deriving DecidableEq, Repr

/- The registers of a saved frame that a waker patches. -/
structure Frame where
  rax : Nat
  rbx : Nat
deriving DecidableEq, Repr

/- The blocking call a task is in. -/
inductive Inside where
  | call (n : Nat)
  | recvBlock (maxLen : Nat)
  | waitNotify
  | wait
deriving DecidableEq, Repr

/- Who received the message that a reply capability is for. -/
structure ReplyTag where
  receiver : Nat
  receiverGen : Nat
  call : Option Nat
deriving DecidableEq, Repr

/- The fields of a task slot that blocking uses; -1 is `none`. -/
structure IpcTcb where
  pendingBlock : Option Block
  blockedOn : Option Nat
  blockedOnGen : Nat
  blockedOnNotif : Option Nat
  waiter : Option Nat
  savedKsp : Option Frame
  ipcReplyBuf : Nat
  ipcRecvMax : Nat
  ipcRecvBlock : Bool
  ipcCapRecvSlot : Option Nat
  ipcInvSlot : Nat
  ipcInvSerial : Nat
  inside : Option Inside
  parkGen : Nat
  replyTag : Option ReplyTag
deriving DecidableEq, Repr

/- A slot as `scheduler_init` leaves it. -/
def IpcTcb.init : IpcTcb :=
  { pendingBlock := none
    blockedOn := none
    blockedOnGen := 0
    blockedOnNotif := none
    waiter := none
    savedKsp := none
    ipcReplyBuf := 0
    ipcRecvMax := 0
    ipcRecvBlock := false
    ipcCapRecvSlot := none
    ipcInvSlot := 0
    ipcInvSerial := 0
    inside := none
    parkGen := 0
    replyTag := none }

----
-- The Kernel
----

/- A call that a reply completed, and who replied. -/
structure Completion where
  call : Nat
  server : Nat
  serverGen : Nat
  tag : Option ReplyTag
deriving DecidableEq, Repr

structure Kernel where
  cap : CapState
  obj : ObjState
  tcbs : Nat → IpcTcb
  eps : Nat → Option Endpoint
  notifs : Nat → Option Notification
  nextCall : Nat
  completed : List Completion

namespace Kernel

@[simps cap obj]
def sys (k : Kernel) : Sys := { cap := k.cap, obj := k.obj }

@[simps cap obj tcbs eps notifs nextCall completed]
def setSys (k : Kernel) (s : Sys) : Kernel := { k with cap := s.cap, obj := s.obj }

@[simps cap obj tcbs eps notifs nextCall completed]
def setCap (k : Kernel) (c : CapState) : Kernel := { k with cap := c }

def state (k : Kernel) (t : Nat) : TaskState := (k.cap.tasks t).state

def gen (k : Kernel) (t : Nat) : Nat := (k.cap.tasks t).slotGen

@[simps obj tcbs eps notifs nextCall completed]
def setState (k : Kernel) (t : Nat) (st : TaskState) : Kernel :=
  { k with cap := k.cap.setTask t { k.cap.tasks t with state := st } }

@[simps cap obj eps notifs nextCall completed]
def modTcb (k : Kernel) (t : Nat) (f : IpcTcb → IpcTcb) : Kernel :=
  { k with tcbs := update k.tcbs t (f (k.tcbs t)) }

@[simps cap obj tcbs notifs nextCall completed]
def setEp (k : Kernel) (e : Nat) (E : Option Endpoint) : Kernel :=
  { k with eps := update k.eps e E }

@[simps cap obj tcbs notifs nextCall completed]
def modEp (k : Kernel) (e : Nat) (f : Endpoint → Endpoint) : Kernel :=
  { k with eps := update k.eps e ((k.eps e).map f) }

@[simps cap obj tcbs eps nextCall completed]
def setNotif (k : Kernel) (n : Nat) (N : Option Notification) : Kernel :=
  { k with notifs := update k.notifs n N }

@[simps cap obj tcbs eps nextCall completed]
def modNotif (k : Kernel) (n : Nat) (f : Notification → Notification) : Kernel :=
  { k with notifs := update k.notifs n ((k.notifs n).map f) }

/- `t > 0 && t < g_max_tasks`. -/
def inRange (k : Kernel) (t : Option Nat) : Option Nat :=
  t.filter fun t => 0 < t && t < k.cap.maxTasks

end Kernel

/- After boot the static objects exist and nothing is queued. -/
def kernelBoot (cfg : BootConfig) : Kernel :=
  { cap := (boot cfg).cap
    obj := (boot cfg).obj
    tcbs := fun _ => IpcTcb.init
    eps := fun e => if e < maxEndpoints then some Endpoint.fresh else none
    notifs := fun n => if n < maxNotifications then some Notification.fresh else none
    nextCall := 0
    completed := [] }

----
-- Reading After Writing
----

namespace Kernel

section Setters

variable (k : Kernel) (t i e j n : Nat) (st : TaskState)
    (x : IpcTcb → IpcTcb) (E : Option Endpoint) (f : Endpoint → Endpoint)
    (N : Option Notification) (g : Notification → Notification)

@[simp] theorem setState_state : (k.setState t st).state i = if i = t then st else k.state i := by
  by_cases hEq : i = t
  · subst hEq
    simp [setState, state, CapState.setTask]
  · simp [setState, state, CapState.setTask, hEq]

@[simp] theorem setState_gen : (k.setState t st).gen i = k.gen i := by
  by_cases hEq : i = t
  · subst hEq
    simp [setState, gen, CapState.setTask]
  · simp [setState, gen, CapState.setTask, hEq]

@[simp] theorem setState_cspace : ((k.setState t st).cap.tasks i).cspace =
      (k.cap.tasks i).cspace := by
  by_cases hEq : i = t
  · subst hEq
    simp [setState, CapState.setTask]
  · simp [setState, CapState.setTask, hEq]

@[simp] theorem setState_maxTasks : (k.setState t st).cap.maxTasks = k.cap.maxTasks := rfl

@[simp] theorem setState_mem : (k.setState t st).cap.mem = k.cap.mem := rfl

@[simp] theorem modTcb_tcbs : (k.modTcb t x).tcbs i = if i = t then x (k.tcbs t) else k.tcbs i := by
  simp [modTcb, update_apply]

@[simp] theorem setEp_eps : (k.setEp e E).eps j = if j = e then E else k.eps j := by
  simp [setEp, update_apply]

@[simp] theorem modEp_eps : (k.modEp e f).eps j = if j = e then (k.eps e).map f else k.eps j := by
  simp [modEp, update_apply]

@[simp] theorem setNotif_notifs : (k.setNotif n N).notifs j = if j = n then N else k.notifs j := by
  simp [setNotif, update_apply]

@[simp] theorem modNotif_notifs : (k.modNotif n g).notifs j =
      if j = n then (k.notifs n).map g else k.notifs j := by
  simp [modNotif, update_apply]

@[simp] theorem modTcb_state : (k.modTcb t x).state i = k.state i := rfl

@[simp] theorem modTcb_gen : (k.modTcb t x).gen i = k.gen i := rfl

@[simp] theorem modEp_state : (k.modEp e f).state i = k.state i := rfl

@[simp] theorem modEp_gen : (k.modEp e f).gen i = k.gen i := rfl

@[simp] theorem setNotif_state : (k.setNotif n N).state i = k.state i := rfl

@[simp] theorem modNotif_state : (k.modNotif n g).state i = k.state i := rfl

@[simp] theorem modNotif_gen : (k.modNotif n g).gen i = k.gen i := rfl

/- Two writes to a task around a change of its state. -/
theorem modTcb_setState_modTcb (x y : IpcTcb → IpcTcb) : ((k.modTcb t x).setState t st).modTcb t y =
      (k.setState t st).modTcb t (fun z => y (x z)) := by
  simp [modTcb, setState]

end Setters

theorem inRange_eq_some {k : Kernel} {o : Option Nat} {t : Nat} :
    k.inRange o = some t ↔ o = some t ∧ 0 < t ∧ t < k.cap.maxTasks := by
  simp [inRange, Option.filter_eq_some_iff]

end Kernel

end Horus
