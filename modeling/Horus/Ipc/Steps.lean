import Horus.Ipc.Syscalls
import Horus.Kernel.TaskTable

/-
  The kernel as a transition system: the capability operations
  together with communication, blocking, and the objects and
  tasks that go away.

  An operation stands for one completed call of one task. What
  a blocking call leaves to be done, `ipc_block_switch`, is an
  operation of its own, and operations of other tasks can come
  before it. It is also carried out for a task that was killed
  in between, because the processor that runs the call does
  not look again.
-/

namespace Horus

inductive KernelOp where
  | cap (op : Op)
  | send (cur slot : Nat) (user : List UInt8) (len room : Nat)
  | ipcReply (cur slot : Nat) (user : List UInt8) (len room : Nat)
  | call (cur slot : Nat) (user : List UInt8) (len buf : Nat)
      (recvSlot carrySlot : Option Nat) (room : Nat)
  | recv (cur slot maxLen room : Nat)
  | recvBlock (cur slot buf maxLen room : Nat)
  | replyTo (cur slot : Nat) (user : List UInt8) (len : Nat) (mint : Option (Rights × Nat))
  | publish (cur : Nat) (f : Frame) (room : Nat) (alone : Bool)
  | notify (cur slot : Nat) (badge : BitVec 32)
  | irqNotify (n : Nat) (badge : BitVec 32)
  | waitNotify (cur slot : Nat)
  | pollNotify (cur slot : Nat)
  | wait (cur tid : Nat)
  | interruptWait (t : Nat)
  | retypeEp (cur dest e : Nat)
  | retypeNotif (cur dest n : Nat)
  | collectEp (e : Nat)
  | collectNotif (n : Nat)

def boolResult (b : Bool) : Int := if b then 0 else -1

/- A capability operation, with what it does to task slots. -/
def capExec (k : Kernel) (op : Op) : Int × Kernel :=
  match op with
  | .teardown id scratch => (0, ipcTeardown k id scratch)
  | op =>
    let r := exec k.sys op
    (boolResult r.1, match op.creates with
      | none => k.setSys r.2
      | some id => (k.setSys r.2).resetTask id)

def kernelExec (k : Kernel) : KernelOp → Int × Kernel
  | .cap op => capExec k op
  | .send cur slot user len room => hIpcSend k cur slot user len room
  | .ipcReply cur slot user len room => hIpcReply k cur slot user len room
  | .call cur slot user len buf recvSlot carrySlot room =>
    ipcCallCommon k cur slot user len buf recvSlot carrySlot room
  | .recv cur slot maxLen room => hIpcRecv k cur slot maxLen room
  | .recvBlock cur slot buf maxLen room => hIpcRecvBlock k cur slot buf maxLen room
  | .replyTo cur slot user len mint => ipcReplyCommon k cur slot user len mint
  | .publish cur f room alone => (0, ipcBlockSwitch k cur f room alone)
  | .notify cur slot badge => hNotify k cur slot badge
  | .irqNotify n badge => sysNotify k n badge
  | .waitNotify cur slot => ((hWaitNotify k cur slot).1, (hWaitNotify k cur slot).2.2)
  | .pollNotify cur slot => ((hPollNotify k cur slot).1, (hPollNotify k cur slot).2.2)
  | .wait cur tid => hWait k cur tid
  | .interruptWait t => (0, signalInterruptWait k t)
  | .retypeEp cur dest e => capExec (k.setEp e (some Endpoint.fresh)) (.retype cur dest .endpoint e)
  | .retypeNotif cur dest n =>
    capExec (k.setNotif n (some Notification.fresh)) (.retype cur dest .notification n)
  | .collectEp e => (0, destroyDynEndpoint k e)
  | .collectNotif n => (0, destroyDynNotification k n)

/- A task that can make a system call. -/
def Kernel.canCall (k : Kernel) (cur : Nat) : Bool :=
  0 < cur && cur < k.cap.maxTasks && k.state cur = .runnable && (k.tcbs cur).pendingBlock.isNone

/-
  The capability operations that are calls of their own. The
  others are parts of communication.
-/
def Op.alone : Op → Bool
  | .installReplyFor _ _ _ => false
  | .consumeReply _ => false
  | .replyMint _ _ _ _ _ _ _ => false
  | .retype _ _ typ _ => typ = .frame
  | _ => true

/- `mark_reachable`: some capability names the object. -/
def Kernel.reachable (k : Kernel) (typ : CapType) (object : Nat) : Bool :=
  (slotAddrs (revokeSpaces k.cap)).any fun a =>
    let c := k.cap.mem a
    c.serial ≠ 0 && c.typ = typ && c.object = object

/- An object that can be carved and collected. -/
def dynEp (e : Nat) : Bool := dynEpBase ≤ e && e < epIndexMax

def dynNotif (n : Nat) : Bool := dynNotifBase ≤ n && n < notifIndexMax

def kernelEnabled (k : Kernel) : KernelOp → Bool
  | .cap op => enabled k.cap op && op.alone
  | .send cur _ _ _ _ => k.canCall cur
  | .ipcReply cur _ _ _ _ => k.canCall cur
  | .call cur _ _ _ _ _ _ _ => k.canCall cur
  | .recv cur _ _ _ => k.canCall cur
  | .recvBlock cur _ _ _ _ => k.canCall cur
  | .replyTo cur _ _ _ _ => k.canCall cur
  | .publish cur _ _ _ => 0 < cur && cur < k.cap.maxTasks && (k.tcbs cur).pendingBlock.isSome
  | .notify cur _ _ => k.canCall cur
  | .irqNotify _ _ => true
  | .waitNotify cur _ => k.canCall cur
  | .pollNotify cur _ => k.canCall cur
  | .wait cur _ => k.canCall cur
  | .interruptWait t => k.state t = .blockedWait
  | .retypeEp cur _ e => k.canCall cur && dynEp e && (k.eps e).isNone
  | .retypeNotif cur _ n => k.canCall cur && dynNotif n && (k.notifs n).isNone
  | .collectEp e => dynEp e && !k.reachable .endpoint e
  | .collectNotif n => dynNotif n && !k.reachable .notification n

/- Runs whose every operation also meets the condition `C`. -/
def KernelRun (C : Kernel → KernelOp → Prop) : Kernel → Kernel → Prop :=
  Lib.Run (fun k op => (kernelExec k op).2) (fun k op => kernelEnabled k op = true ∧ C k op)

def kernelExecAll (k : Kernel) (ops : List KernelOp) : Kernel :=
  Lib.runAll (fun k op => (kernelExec k op).2) k ops

def KernelAllowed (C : Kernel → KernelOp → Prop) (k : Kernel) (ops : List KernelOp) : Prop :=
  Lib.AllOk (fun k op => (kernelExec k op).2) (fun k op => kernelEnabled k op = true ∧ C k op) k ops

instance KernelAllowed.decidable (C : Kernel → KernelOp → Prop) [∀ k op, Decidable (C k op)]
    (k : Kernel) (ops : List KernelOp) : Decidable (KernelAllowed C k ops) :=
  inferInstanceAs (Decidable (Lib.AllOk _ _ k ops))

theorem kernelRun_execAll {C : Kernel → KernelOp → Prop}
    {k : Kernel} (ops : List KernelOp) (hAllowed : KernelAllowed C k ops) :
    KernelRun C k (kernelExecAll k ops) :=
  Lib.run_runAll ops hAllowed

end Horus
