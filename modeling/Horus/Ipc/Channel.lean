import Horus.Ipc.Modes
import Mathlib.Data.List.Forall2

/-
  An endpoint as a channel: what was sent is what was received
  followed by what is queued, in order and each message once.

  A message reaches its receiver in three ways: through the
  queue, by a hand-off to a receiver that is parked, and when
  a block is published on a queue that is not empty. It is lost
  when the copy to the receiver faults, when the maximum is
  taken for a negative length, and when it is handed to a task
  that is not in a blocking receive.

  Main declarations:
    * `EpStep`, `Move.epStep`
    * `Delivers`, `Endpoint.Channel`
    * `faithful`
    * `endpoint_is_channel`
-/

namespace Horus

open Kernel

variable {t e n maxLen room w cur len : Nat} {move : Move} {m : EpMsg}
    {user data : List UInt8} {inv : IpcInvoker}

----
-- What a Move Does to an Endpoint
----

inductive EpStep (k : Kernel) (e : Nat) : Move → Endpoint → Prop where
  | same {move : Move} {E E' : Endpoint} (hEp : k.eps e = some E) (hQueue : E'.q = E.q)
      (hSent : E'.sent = E.sent)
      (hGot : E'.got = E.got) :
      EpStep k e move E'
  | made : EpStep k e (.makeEp e) Endpoint.fresh
  | enqueued {m : EpMsg} {E : Endpoint} (hEp : k.eps e = some E)
      (hRoom : E.q.count < epQueueSlots) :
      EpStep k e (.enqueue e m) { E with q := E.q.push epQueueSlots m, sent := E.sent ++ [m] }
  | delivered {w : Nat} {m : EpMsg} {r : Receipt} {E : Endpoint} (hEp : k.eps e = some E)
      (hEmpty : E.q.count = 0) :
      EpStep k e (.deliver e w m r)
        { E with blockedWaiter := none, sent := E.sent ++ [m], got := E.got ++ [r] }
  | taken {E' : Endpoint} : EpStep k e (.take e) E'
  | received {m : EpMsg} {r : Receipt} {E : Endpoint} (hEp : k.eps e = some E)
      (hSome : 0 < E.q.count)
      (hFront : E.q.front = m) :
      EpStep k e (.receive e m r)
        { E.note m.sender m.senderGen m.inv with
          q := E.q.pop epQueueSlots EpMsg.blank
          got := E.got ++ [r] }

section EpStep

variable {k l : Kernel} {e j : Nat} {E' : Endpoint} {move : Move}

theorem epStep_keep (hEp : l.eps e = some E') (hSame : l.eps e = k.eps e) : EpStep k e move E' :=
  .same (hSame.symm.trans hEp) rfl rfl rfl

variable {f : Endpoint → Endpoint}

/- A move that writes to one endpoint. -/
theorem epStep_modEp (hEp : (k.modEp j f).eps e = some E')
    (hStep : ∀ E, e = j → k.eps e = some E → EpStep k e move (f E)) : EpStep k e move E' := by
  rw [modEp_eps] at hEp
  split at hEp
  · rename_i hEq
    subst hEq
    rcases Option.map_eq_some_iff.mp hEp with ⟨E, hOld, rfl⟩
    exact hStep E rfl hOld
  · exact .same hEp rfl rfl rfl

theorem epStep_unlink (hEp : (k.unlinkEp t).eps e = some E') : EpStep k e move E' := by
  rw [unlinkEp_eps] at hEp
  split at hEp
  · rcases Option.map_eq_some_iff.mp hEp with ⟨E, hOld, rfl⟩
    apply EpStep.same hOld <;> split <;> rfl
  · exact .same hEp rfl rfl rfl

theorem wakeNamed_eps (k : Kernel) (w : Option Nat) (f : IpcTcb → IpcTcb) :
    (k.wakeNamed w f).eps = k.eps := by
  unfold wakeNamed
  split
  · rfl
  · split <;> rfl

theorem Move.epStep (move : Move) (hOk : move.Ok k)
    (hEp : (move.apply k).eps e = some E') : EpStep k e move E' := by
  cases move with
  | tell i | park t i => 
    exact epStep_modEp (k := k) (j := i) hEp fun _ _ hOld => .same hOld rfl rfl rfl
  | grantReply => exact epStep_keep hEp (congrFun (grantReply_eps _ _ _ _ _) e)
  | deliver i =>
    rcases hOk.1 with ⟨E, hHere, hWaiter⟩
    have hEmpty := (parkedReceiver_eq_some.mp hWaiter).2.2.2
    refine epStep_modEp (k := k) (j := i) hEp ?_
    rintro E₁ rfl hOld
    cases Option.some.inj (hHere.symm.trans hOld)
    exact .delivered hOld hEmpty
  | enqueue i =>
    rcases hOk.1 with ⟨E, hHere, hRoom, _⟩
    refine epStep_modEp (k := k) (j := i) hEp ?_
    rintro E₁ rfl hOld
    cases Option.some.inj (hHere.symm.trans hOld)
    exact .enqueued hOld hRoom
  | take i =>
    refine epStep_modEp (k := k) (j := i) hEp ?_
    rintro E rfl _
    exact .taken
  | receive i =>
    rcases hOk with ⟨E, hHere, hSome, hFront⟩
    refine epStep_modEp (k := k) (j := i) hEp ?_
    rintro E₁ rfl hOld
    cases Option.some.inj (hHere.symm.trans hOld)
    exact .received hOld hSome hFront
  | unpark t =>
    have hEp : (unpublishLink k t).eps e = some E' := hEp
    unfold unpublishLink at hEp
    split at hEp
    · exact epStep_unlink hEp
    · split at hEp
      · exact epStep_keep hEp rfl
      · split at hEp <;> exact epStep_keep hEp rfl
    · exact epStep_keep hEp rfl
    · exact epStep_keep hEp rfl
  | answer q t => exact epStep_unlink (k := k) (t := t) hEp
  | makeEp i =>
    have hEp : (k.setEp i (some Endpoint.fresh)).eps e = some E' := hEp
    rw [setEp_eps] at hEp
    rcases eq_or_ne e i with rfl | hEq
    · rw [if_pos rfl] at hEp
      rw [← Option.some.inj hEp]
      exact .made
    · rw [if_neg hEq] at hEp
      exact .same hEp rfl rfl rfl
  | destroyEp i =>
    have hEp : (destroyDynEndpoint k i).eps e = some E' := hEp
    unfold destroyDynEndpoint at hEp
    split at hEp
    · exact .same hEp rfl rfl rfl
    rw [setEp_eps, wakeNamed_eps] at hEp
    split at hEp
    · cases hEp
    · exact .same hEp rfl rfl rfl
  | destroyNotif n =>
    have hEp : (destroyDynNotification k n).eps e = some E' := hEp
    unfold destroyDynNotification at hEp
    split at hEp
    · exact .same hEp rfl rfl rfl
    · rw [setNotif_eps, wakeNamed_eps] at hEp
      exact .same hEp rfl rfl rfl
  | _ => exact epStep_keep hEp rfl

end EpStep

/- The receiver has what was sent and knows who sent it. -/
structure Delivers (m : EpMsg) (r : Receipt) : Prop where
  data : r.data = m.data.take r.maxLen
  sender : r.sender = m.sender
  senderGen : r.senderGen = m.senderGen
  inv : r.inv = m.inv

structure Endpoint.Channel (E : Endpoint) : Prop where
  fits : E.q.Fits epQueueSlots
  log : ∃ done, E.sent = done ++ E.queue ∧ List.Forall₂ Delivers done E.got

/- What a move hands over arrives. -/
def ArrivalGuard : Move → Prop
  | .deliver _ _ m r | .receive _ m r => Delivers m r
  | .take _ => False
  | .intendRecv _ _ _ maxLen => maxLen < 2 ^ 31
  | _ => True

theorem channel_fresh : Endpoint.fresh.Channel where
  fits := Lib.Ring.fits_empty _ (by decide)
  log := ⟨[], rfl, .nil⟩

variable {k : Kernel}

theorem Endpoint.Channel.step {E' : Endpoint}
    (hChannel : ∀ E, k.eps e = some E → E.Channel) (hG : ArrivalGuard move)
    (hStep : EpStep k e move E') : E'.Channel := by
  cases hStep with
  | same hEp hQueue hSent hGot =>
    rcases hChannel _ hEp with ⟨hFits, hLog⟩
    refine ⟨by rw [hQueue]; exact hFits, ?_⟩
    unfold Endpoint.queue
    rw [hQueue, hSent, hGot]
    exact hLog
  | made => exact channel_fresh
  | enqueued hEp hRoom =>
    rcases hChannel _ hEp with ⟨hFits, done, hSent, hGot⟩
    refine ⟨hFits.push _ hRoom, done, ?_, hGot⟩
    simp only [hSent, Endpoint.queue, Lib.Ring.toList_push _ hRoom, List.append_assoc]
  | @delivered w m r E hEp hEmpty =>
    rcases hChannel _ hEp with ⟨hFits, done, hSent, hGot⟩
    have hNone : E.queue = [] := Lib.Ring.toList_eq_nil hEmpty
    refine ⟨hFits, done ++ [m], ?_, List.rel_append hGot (.cons hG .nil)⟩
    change E.sent ++ [m] = done ++ [m] ++ E.queue
    rw [hSent, hNone, List.append_nil, List.append_nil]
  | taken => exact hG.elim
  | @received m r E hEp hSome hFront =>
    rcases hChannel _ hEp with ⟨hFits, done, hSent, hGot⟩
    have hPop : E.queue = m :: (E.q.pop epQueueSlots EpMsg.blank).toList
          epQueueSlots := by
      rw [← hFront]
      exact Lib.Ring.toList_pop hFits EpMsg.blank hSome
    refine ⟨hFits.pop _, done ++ [m], ?_, List.rel_append hGot (.cons hG .nil)⟩
    change E.sent = done ++ [m] ++ (E.q.pop epQueueSlots EpMsg.blank).toList epQueueSlots
    rw [hSent, hPop, List.append_assoc]
    rfl

/- The maximum a receiver asked for is the one it is given. -/
def Task.Bounded (x : Task) : Prop :=
  ∀ n, x.tcb.inside = some (.recvBlock n) → x.tcb.ipcRecvMax = n ∧ n < 2 ^ 31

/- A task about to block without the flag is no receiver. -/
def Task.Asking (x : Task) : Prop :=
  x.tcb.pendingBlock = some .ipc → x.tcb.ipcRecvBlock = false →
    ∀ n, x.tcb.inside ≠ some (.recvBlock n)

variable {x y : Task}

theorem Task.Bounded.step (hBounded : x.Bounded) (hG : ArrivalGuard move)
    (hStep : TaskStep k t x move y) : y.Bounded := by
  cases hStep with
  | @intendRecv e buf maxLen hIdle =>
    intro n hInside
    cases hInside
    have hMax : maxLen < 2 ^ 31 := hG
    exact ⟨Nat.mod_eq_of_lt (by omega), hMax⟩
  | same | fields | died | told | granted | parked
  | parkedNotif | parkedWait => exact hBounded
  | _ => nofun

theorem Task.Asking.step (hAsking : x.Asking) (hRests : x.Blocked → x.Rests t)
    (hStep : TaskStep k t x move y) : y.Asking := by
  cases hStep with
  | same | fields | died | granted => exact hAsking
  | told hBlocked =>
    intro hPending
    have hIdle := (hRests (by rw [Blocked, hBlocked]; decide)).idle
    rw [hIdle] at hPending
    cases hPending
  | _ => simp [Asking]

----
-- What Arrives
----

theorem asInt_of_lt (hSmall : n < 2 ^ 31) : asInt n = n := by
  have hMod : n % 2 ^ 32 = n := Nat.mod_eq_of_lt (by omega)
  unfold asInt
  rw [hMod, if_pos hSmall]

theorem epDequeueLen_natCast (m : EpMsg) (n : Nat) :
    epDequeueLen m n = (min n m.data.length : Nat) := by
  unfold epDequeueLen
  split <;> omega

theorem epDequeueData_natCast (m : EpMsg) (n : Nat) : epDequeueData m n = m.data.take n := by
  unfold epDequeueData
  rw [epDequeueLen_natCast]
  exact List.take_eq_take_min.symm

/- A receive with room for the message. -/
theorem recv_delivers (k : Kernel) (cur : Nat) (m : EpMsg) (hSmall : maxLen < 2 ^ 31) :
    Delivers m (recvReceipt k cur m maxLen) where
  data := by
    unfold recvReceipt receiptOf
    rw [asInt_of_lt hSmall, epDequeueData_natCast]
  sender := rfl
  senderGen := rfl
  inv := rfl

theorem recvFaults_of_le (hSmall : maxLen < 2 ^ 31) (hRoom : min maxLen m.data.length ≤ room) :
    recvFaults m maxLen room = false := by
  unfold recvFaults
  rw [asInt_of_lt hSmall, epDequeueLen_natCast]
  have hCopy : copyToUser room (min maxLen m.data.length) = true := decide_eq_true hRoom
  simp only [Int.toNat_natCast, hCopy, Bool.not_true, Bool.and_false]

theorem copyFromUser_eq_some (hCopy : copyFromUser user n = some data) : data = user.take n := by
  unfold copyFromUser at hCopy
  split at hCopy
  · exact (Option.some.inj hCopy).symm
  · cases hCopy

/- The bytes reach a buffer that has room for them. -/
theorem stored_eq (hBuf : (k.tcbs w).ipcReplyBuf ≠ 0) (hRoom : data.length ≤ room) :
    k.stored w data room = data := by
  unfold stored
  rw [if_pos]
  exact ⟨hBuf, decide_eq_true hRoom⟩

/- The block of a receiver or of a caller ends at once. -/
theorem inline_delivers
    (hReceiver : (k.tcbs cur).ipcRecvBlock = true → (k.tcbs cur).inside =
        some (.recvBlock (k.tcbs cur).ipcRecvMax) ∧
      (k.tcbs cur).ipcRecvMax < 2 ^ 31)
    (hCaller : (k.tcbs cur).ipcRecvBlock = false → ∀ n, (k.tcbs cur).inside ≠ some (.recvBlock n))
    (hBuf : (k.tcbs cur).ipcReplyBuf ≠ 0)
    (hRoom : min (k.tcbs cur).declaredMax m.data.length ≤ room) :
    Delivers m (inlineReceipt k cur m room) where
  data := by
    have hMax : inlineMax (k.tcbs cur) = (k.tcbs cur).declaredMax := by
      unfold inlineMax IpcTcb.declaredMax
      cases hFlag : (k.tcbs cur).ipcRecvBlock with
      | true =>
        rcases hReceiver hFlag with ⟨hInside, hSmall⟩
        rw [if_pos rfl, asInt_of_lt hSmall, hInside]
      | false =>
      rw [if_neg nofun]
      split
      · rename_i n hInside
        exact absurd hInside (hCaller hFlag n)
      · rfl
    unfold inlineReceipt receiptOf
    dsimp only
    rw [hMax, epDequeueData_natCast, stored_eq hBuf]
    rw [List.length_take]
    exact hRoom
  sender := rfl
  senderGen := rfl
  inv := rfl

/- A hand-off to a parked receiver. -/
theorem handOff_delivers {E : Endpoint} (hCur : k.Slot cur)
    (hLen : len ≤ ipcMsgMax) (hFlag : (k.tcbs w).ipcRecvBlock = true)
    (hInside : (k.tcbs w).inside = some (.recvBlock (k.tcbs w).ipcRecvMax))
    (hBuf : (k.tcbs w).ipcReplyBuf ≠ 0) (hRoom : handOffLen k w len ≤ room)
    (hCopy : copyFromUser user (handOffLen k w len) = some data) :
    Delivers (k.message cur (user.take len) inv) (handOffReceipt k cur E w inv data room) := by
  have hData := copyFromUser_eq_some hCopy
  have hShort : data.length ≤ room := by
    rw [hData, List.length_take]
    omega
  have hMax : handOffLen k w len = min len (k.tcbs w).ipcRecvMax := by
    unfold handOffLen
    rw [if_pos hFlag]
  constructor
  · unfold handOffReceipt message IpcTcb.declaredMax
    rw [stored_eq hBuf hShort, hInside, hData]
    dsimp only
    rw [List.take_take, List.take_take]
    congr 1
    omega
  · simp [handOffReceipt, hFlag, message]
  · simp only [handOffReceipt, hFlag, message, if_true]
    exact (if_pos hCur).symm
  · simp [handOffReceipt, hFlag, message]

----
-- Runs
----

/-
  Whoever a send on `e` would hand its message to is in a
  blocking receive with room for it.
-/
def handOffFits (k : Kernel) (e len room : Nat) : Bool :=
  (k.eps e).all fun E =>
    (k.parkedReceiver E).all fun w =>
      (k.tcbs w).ipcRecvBlock && (k.tcbs w).ipcReplyBuf ≠ 0 &&
        handOffLen k w (min len ipcMsgMax) ≤ room

/- There is room for what is taken of the next message. -/
def takeFits (k : Kernel) (e maxLen room : Nat) : Bool :=
  (k.eps e).all fun E => E.q.count = 0 || min maxLen E.q.front.data.length ≤ room

/- An object's waiter, if it lives, is no receiver. -/
def waiterClear (k : Kernel) (waiter : Option Nat) : Bool :=
  (k.inRange waiter).all fun w => k.state w = .dead || !(k.tcbs w).ipcRecvBlock

/-
  Nothing is copied where there is no room, no maximum is
  2 ^ 31 or more, messages are handed only to receivers, and
  no flag of a receiver is left behind.
-/
def faithful (k : Kernel) : KernelOp → Bool
  | .cap op => op.creates.all fun id => !(k.tcbs id).ipcRecvBlock
  | .send cur slot _ len room =>
    (ipcEpAndInvoker k cur slot Right.write).all fun r => handOffFits k r.1 len room
  | .ipcReply cur slot _ len room =>
    (ipcEpFromSlot k cur slot Right.write).all fun e => handOffFits k e len room
  | .call cur slot _ len _ _ _ room =>
    (ipcEpAndInvoker k cur slot Right.write).all fun r => handOffFits k r.1 len room
  | .recv cur slot maxLen room
  | .recvBlock cur slot _ maxLen room =>
    maxLen < 2 ^ 31 && (ipcEpFromSlot k cur slot Right.read).all fun e => takeFits k e maxLen room
  | .publish cur _ room _ =>
    (k.tcbs cur).pendingBlock ≠ some .ipc ||
    (k.tcbs cur).blockedOn.all fun e =>
      (k.eps e).all fun E => E.q.count = 0 || (k.tcbs cur).ipcReplyBuf ≠ 0 &&
        min (if (k.tcbs cur).ipcRecvBlock then
            (k.tcbs cur).ipcRecvMax
          else ipcMsgMax)
          E.q.front.data.length ≤ room
  | .collectEp e => (k.eps e).all fun E => waiterClear k E.blockedWaiter
  | .collectNotif n => (k.notifs n).all fun N => waiterClear k N.blockedWaiter
  | _ => true

def ChannelGuard (k : Kernel) (move : Move) : Prop := FlagGuard k move ∧ ArrivalGuard move

/- What holds of every task along such runs. -/
structure Task.Receives (t : Nat) (x : Task) : Prop where
  rests : x.Blocked → x.Rests t
  receiving : x.Receiving
  bounded : x.Bounded
  asking : x.Asking

/- A flag means a receiver with its own maximum. -/
theorem Task.Receives.receiver (hTask : x.Receives t) (hFlag : x.tcb.ipcRecvBlock = true)
    (hHere : x.state ≠ .dead ∨ x.tcb.pendingBlock.isSome = true) :
    x.tcb.inside = some (.recvBlock x.tcb.ipcRecvMax) ∧ x.tcb.ipcRecvMax < 2 ^ 31 := by
  rcases (hTask.receiving hFlag hHere).1 with ⟨n, hInside⟩
  rcases hTask.bounded n hInside with ⟨hMax, hSmall⟩
  rw [hMax]
  exact ⟨hInside, hSmall⟩

theorem handOffFits_iff :
    handOffFits k e len room = true ↔ ∀ E w, k.eps e = some E → k.parkedReceiver E = some w →
        (k.tcbs w).ipcRecvBlock = true ∧ (k.tcbs w).ipcReplyBuf ≠ 0 ∧
          handOffLen k w (min len ipcMsgMax) ≤ room := by
  simp only [handOffFits, Option.all_eq_true, Bool.and_eq_true, decide_eq_true_eq, and_assoc]
  constructor
  · exact fun hFits E w hEp => hFits E hEp w
  · exact fun hFits E hEp w => hFits E w hEp

theorem send_permits (hCur : k.Slot cur)
    (hReceiver : ∀ w, k.state w = .blockedIpc → (k.tcbs w).ipcRecvBlock = true →
      (k.tcbs w).inside = some (.recvBlock (k.tcbs w).ipcRecvMax))
    (hFits : handOffFits k e len room = true) :
    SendPermits ChannelGuard k cur e user len inv room := by
  intro E w data hEp hWaiter hCopy k'
  refine ⟨trivial, ?_⟩
  have hBlocked := (parkedReceiver_eq_some.mp hWaiter).2.2.1
  rcases handOffFits_iff.mp hFits E w hEp hWaiter with ⟨hFlag, hBuf, hRoom⟩
  exact handOff_delivers hCur (Nat.min_le_right _ _) hFlag
    (hReceiver w hBlocked hFlag) hBuf hRoom hCopy

theorem recv_permits (hSmall : maxLen < 2 ^ 31) (hFits : takeFits k e maxLen room = true) :
    RecvPermits ChannelGuard k cur e maxLen room := by
  rintro m ⟨E, hEp, hSome, rfl⟩
  simp only [takeFits, hEp, Option.all_some, Bool.or_eq_true, decide_eq_true_eq] at hFits
  have hRoom : min maxLen E.q.front.data.length ≤ room := by
    rcases hFits with hNone | hRoom
    · omega
    · exact hRoom
  have hFine := recvFaults_of_le hSmall hRoom
  constructor
  · intro hFault
    rw [hFine] at hFault
    cases hFault
  · exact fun _ _ => ⟨trivial, recv_delivers k cur _ hSmall⟩

theorem publish_permits {f : Frame} {alone : Bool} (hTask : (k.task cur).Receives cur)
    (hFits : faithful k (.publish cur f room alone) = true) :
    PublishPermits ChannelGuard (k.saveFrame cur f) cur room := by
  have hOwn : (k.saveFrame cur f).tcbs cur = { k.tcbs cur with savedKsp := some f } := by
    simp [saveFrame]
  constructor
  · exact fun _ _ _ => ⟨trivial, trivial⟩
  · exact fun _ _ _ => ⟨trivial, trivial⟩
  rintro e m hOn hPending ⟨E, hEp, hSome, rfl⟩ k'
  refine ⟨trivial, ?_⟩
  rw [hOwn] at hOn hPending
  have hEp : k.eps e = some E := hEp
  have hOn : (k.tcbs cur).blockedOn = some e := hOn
  have hPending : (k.tcbs cur).pendingBlock = some .ipc := hPending
  have hNone : E.q.count ≠ 0 := Nat.pos_iff_ne_zero.mp hSome
  simp only [faithful, hPending, hOn, hEp, Option.all_some,
    ne_eq, not_true_eq_false, decide_false, Bool.false_or,
    hNone, Bool.and_eq_true, decide_eq_true_eq] at hFits
  rcases hFits with ⟨hBuf, hRoom⟩
  have hHere : (k.task cur).state ≠ .dead ∨ (k.task cur).tcb.pendingBlock.isSome = true :=
    .inr (Option.isSome_of_eq_some hPending)
  apply inline_delivers
  · rw [hOwn]
    exact fun hFlag => hTask.receiver hFlag hHere
  · rw [hOwn]
    exact hTask.asking hPending
  · rw [hOwn]
    exact hBuf
  have hMax : ({ k.tcbs cur with savedKsp := some f } : IpcTcb).declaredMax =
      if (k.tcbs cur).ipcRecvBlock then (k.tcbs cur).ipcRecvMax
      else ipcMsgMax := by
    unfold IpcTcb.declaredMax
    split
    · rename_i n hInside
      cases hFlag : (k.tcbs cur).ipcRecvBlock with
      | true => exact ((hTask.bounded n hInside).1).symm
      | false => exact absurd hInside (hTask.asking hPending hFlag n)
    · rename_i hOther
      rw [if_neg]
      intro hFlag
      exact hOther _ (hTask.receiver hFlag hHere).1
  rw [hOwn, hMax]
  exact hRoom

theorem waiterClear_spec {waiter : Option Nat} (hClear : waiterClear k waiter = true)
    (hNamed : k.inRange waiter = some w) (hAlive : k.state w ≠ .dead) :
    (k.tcbs w).ipcRecvBlock = false := by
  simp only [waiterClear, hNamed, Option.all_some, Bool.or_eq_true, decide_eq_true_eq,
    Bool.not_eq_true'] at hClear
  rcases hClear with hDead | hFlag
  · exact absurd hDead hAlive
  · exact hFlag

theorem faithful_permits {op : KernelOp} (hTasks : ∀ t, (k.task t).Receives t)
    (hEnabled : kernelEnabled k op = true) (hFits : faithful k op = true) :
    KernelPermits ChannelGuard k op := by
  have hReceiver : ∀ w, k.state w = .blockedIpc → (k.tcbs w).ipcRecvBlock = true →
      (k.tcbs w).inside = some (.recvBlock (k.tcbs w).ipcRecvMax) := by
    intro w hBlocked hFlag
    refine ((hTasks w).receiver hFlag (.inl ?_)).1
    exact ne_of_eq_of_ne hBlocked nofun
  cases op with
  | cap =>
    simp only [KernelPermits]
    split
    · rename_i id hCreates
      simp only [faithful, hCreates, Option.all_some, Bool.not_eq_true'] at hFits
      exact ⟨hFits, trivial⟩
    · exact ⟨trivial, trivial⟩
  | send =>
    intro e inv serial hLookup
    simp only [faithful, hLookup, Option.all_some] at hFits
    exact send_permits (canCall_iff.mp hEnabled).1 hReceiver hFits
  | ipcReply =>
    intro e hLookup
    simp only [faithful, hLookup, Option.all_some] at hFits
    exact send_permits (canCall_iff.mp hEnabled).1 hReceiver hFits
  | call cur slot _ _ buf recvSlot =>
    intro e inv serial hLookup inv' rep
    simp only [faithful, hLookup, Option.all_some] at hFits
    rcases canCall_iff.mp hEnabled with ⟨hSlot, hRun, _⟩
    -- the caller itself is not parked
    have hKeep : ∀ w, k.state w = .blockedIpc → (k.intendCall cur rep buf recvSlot slot
          serial).tcbs w = k.tcbs w := by
      intro w hBlocked
      have hNe : w ≠ cur := by
        rintro rfl
        rw [hRun] at hBlocked
        cases hBlocked
      simp [intendCall, hNe]
    refine ⟨⟨trivial, trivial⟩, send_permits hSlot ?_ ?_⟩
    · intro w hBlocked
      rw [hKeep w hBlocked]
      exact hReceiver w hBlocked
    rw [handOffFits_iff] at hFits ⊢
    intro E w hEp hWaiter
    have hBlocked := (parkedReceiver_eq_some.mp hWaiter).2.2.1
    unfold handOffLen
    rw [hKeep w hBlocked]
    exact hFits E w hEp hWaiter
  | recv =>
    intro e hLookup
    simp only [faithful, hLookup, Option.all_some, Bool.and_eq_true, decide_eq_true_eq] at hFits
    exact recv_permits hFits.1 hFits.2
  | recvBlock =>
    intro e hLookup
    simp only [faithful, hLookup, Option.all_some, Bool.and_eq_true, decide_eq_true_eq] at hFits
    exact ⟨⟨trivial, hFits.1⟩, recv_permits hFits.1 hFits.2⟩
  | publish cur => exact publish_permits (hTasks cur) hFits
  | collectEp =>
    refine ⟨?_, trivial⟩
    intro E w hEp hNamed hAlive
    simp only [faithful, hEp, Option.all_some] at hFits
    exact waiterClear_spec hFits hNamed hAlive
  | collectNotif =>
    refine ⟨?_, trivial⟩
    intro N w hNotif hNamed hAlive
    simp only [faithful, hNotif, Option.all_some] at hFits
    exact waiterClear_spec hFits hNamed hAlive
  | _ => simp [KernelPermits, ChannelGuard, FlagGuard, ArrivalGuard]

theorem channels_run {cfg : BootConfig}
    (hRun : KernelRun (fun k op => faithful k op = true) (kernelBoot cfg) k) :
    (∀ t, (k.task t).Receives t) ∧ ∀ e E, k.eps e = some E → E.Channel := by
  refine (KernelRun.invariant (G := ChannelGuard) (fun k => (∀ t, (k.task t).Receives t) ∧
      ∀ e E, k.eps e = some E → E.Channel) ?_ ?_ ?_ hRun ?_).2
  · intro k move hOpen
    cases move with
    | birth | destroyEp | destroyNotif | deliver | receive | take
    | intendRecv => cases hOpen
    | _ => exact ⟨trivial, trivial⟩
  · intro k op _ hI hEnabled hFits
    exact faithful_permits hI.1 hEnabled hFits
  · rintro k move hBase ⟨hTasks, hChannels⟩ hOk ⟨hFlag, hArrives⟩
    constructor
    · intro t
      have hStep := move.taskStep hOk t
      have hTask := hTasks t
      exact ⟨Task.Rests.step hBase hTask.rests hStep, hTask.receiving.step hTask.rests hFlag hStep,
        hTask.bounded.step hArrives hStep,
        hTask.asking.step hTask.rests hStep⟩
    · intro e E' hEp
      exact Endpoint.Channel.step (hChannels e) hArrives (move.epStep hOk hEp)
  · constructor
    · intro t
      exact ⟨fun hBlocked => absurd hBlocked (not_blocked_boot cfg t), Task.receiving_of_clear rfl,
        nofun, nofun⟩
    · intro e E hEp
      simp only [kernelBoot] at hEp
      split at hEp
      · cases hEp
        exact channel_fresh
      · cases hEp

----
-- Main Result
----

/- The log of sends on an endpoint, if it exists. -/
def Kernel.sentOn (k : Kernel) (e : Nat) : Option (List EpMsg) := (k.eps e).map Endpoint.sent

/- A message is logged where it is sent. -/
theorem deliver_sentOn (k : Kernel) (e w : Nat) (m : EpMsg) (r : Receipt)
    (i : Nat) : (k.deliver e w m r).sentOn i =
      if i = e then (k.sentOn i).map fun sent => sent ++ [m]
      else k.sentOn i := by
  simp only [sentOn, deliver, modTcb_eps, setState_eps, modEp_eps]
  split
  · rename_i hEq
    subst hEq
    simp [Option.map_map, Function.comp_def]
  · rfl

theorem enqueue_sentOn (k : Kernel) (e : Nat) (m : EpMsg) (i : Nat) : (k.enqueue e m).sentOn i =
      if i = e then (k.sentOn i).map fun sent => sent ++ [m]
      else k.sentOn i := by
  simp only [sentOn, enqueue, modEp_eps]
  split
  · rename_i hEq
    subst hEq
    simp [Option.map_map, Function.comp_def]
  · rfl

/- What is told to a waiter is not logged. -/
theorem sentOn_tell (k : Kernel) (e w cur n : Nat) (inv : IpcInvoker)
    (sender senderGen : Nat) (call : Option Nat) (i : Nat) :
    (((k.patch w n).tell e w cur inv).grantReply w sender senderGen
      call).sentOn i = k.sentOn i := by
  unfold sentOn
  rw [grantReply_eps]
  unfold Kernel.tell
  simp only [modTcb_eps, modEp_eps]
  split
  · rename_i hEq
    subst hEq
    simp [Option.map_map, Function.comp_def, Endpoint.note, patch]
  · rfl

theorem handOff_sent (k : Kernel) (cur e : Nat) (E : Endpoint) (w : Nat)
    (user : List UInt8) (len : Nat) (inv : IpcInvoker) (room i : Nat) :
    (handOff k cur e E w user len inv room).2.sentOn i =
      if (handOff k cur e E w user len inv room).1 = 0 ∧ i = e then
        (k.sentOn i).map fun sent => sent ++ [k.message cur (user.take len) inv]
      else k.sentOn i := by
  unfold handOff
  split
  · simp
  dsimp only
  split
  · simp
  split
  · split
    · rw [deliver_sentOn, sentOn_tell]
      simp
    · rw [sentOn_tell]
      simp
  · rw [deliver_sentOn]
    simp [sentOn, patch]

/- A send is logged if and only if it returns 0. -/
theorem sysIpcSend_sent (k : Kernel) (cur e : Nat) (user : List UInt8) (len : Nat)
    (inv : IpcInvoker) (room i : Nat) : (sysIpcSend k cur e user len inv room).2.sentOn i =
      if (sysIpcSend k cur e user len inv room).1 = 0 ∧ i = e then
        (k.sentOn i).map fun sent => sent ++ [k.message cur (user.take (min len ipcMsgMax)) inv]
      else k.sentOn i := by
  cases hEp : k.eps e with
  | none => simp [sysIpcSend, hEp]
  | some E =>
  cases hWaiter : k.parkedReceiver E with
  | some w =>
    have hSend : sysIpcSend k cur e user len inv room =
        handOff k cur e E w user (min len ipcMsgMax) inv
          room := by
      simp only [sysIpcSend, hEp, hWaiter]
    rw [hSend]
    exact handOff_sent k cur e E w user _ inv room i
  | none =>
  by_cases hFull : epQueueSlots ≤ E.q.count
  · simp [sysIpcSend, hEp, hWaiter, hFull]
  cases hCopy : copyFromUser user (min len ipcMsgMax) with
  | none => simp [sysIpcSend, hEp, hWaiter, hFull, hCopy]
  | some data =>
  have hSend : sysIpcSend k cur e user len inv room =
      (0, k.enqueue e (k.message cur data inv)) := by
    simp [sysIpcSend, hEp, hWaiter, hFull, hCopy]
  rw [hSend]
  rw [enqueue_sentOn, copyFromUser_eq_some hCopy]
  simp

/- A receive that fails has left every endpoint as it was. -/
theorem recv_error_keeps (hSmall : maxLen < 2 ^ 31) (hFits : takeFits k e maxLen room = true)
    (hError : (sysIpcRecv k cur e maxLen room).1 < 0) :
    (sysIpcRecv k cur e maxLen room).2.eps = k.eps := by
  unfold sysIpcRecv at hError ⊢
  split
  · rfl
  rename_i E hEp
  rw [hEp] at hError
  dsimp only at hError
  split
  · rfl
  rename_i hSome
  rw [if_neg hSome] at hError
  simp only [takeFits, hEp, Option.all_some, Bool.or_eq_true,
    decide_eq_true_eq, hSome, false_or] at hFits
  have hFine := recvFaults_of_le hSmall hFits
  rw [hFine] at hError
  simp only [Bool.false_eq_true, if_false, asInt_of_lt hSmall, epDequeueLen_natCast] at hError
  omega

theorem endpoint_is_channel (cfg : BootConfig) (k : Kernel)
    (hRun : KernelRun (fun k op => faithful k op = true) (kernelBoot cfg) k) :
    (∀ e E, k.eps e = some E → ∃ done, E.sent = done ++ E.queue ∧
        List.Forall₂ Delivers done E.got) ∧
    (∀ cur slot maxLen room, faithful k (.recv cur slot maxLen room) = true →
      (hIpcRecv k cur slot maxLen room).1 < 0 →
      (hIpcRecv k cur slot maxLen room).2.eps = k.eps) ∧
    (∀ cur slot buf maxLen room, faithful k (.recvBlock cur slot buf maxLen room) = true →
      (hIpcRecvBlock k cur slot buf maxLen room).1 < 0 →
      (hIpcRecvBlock k cur slot buf maxLen room).2.eps = k.eps) ∧
    (∀ cur e user len inv room i, (sysIpcSend k cur e user len inv room).2.sentOn i =
        if (sysIpcSend k cur e user len inv room).1 = 0 ∧ i = e then
          (k.sentOn i).map fun sent => sent ++ [k.message cur (user.take (min len ipcMsgMax)) inv]
        else k.sentOn i) := by
  refine ⟨?_, ?_, ?_, sysIpcSend_sent k⟩
  · intro e E hEp
    exact ((channels_run hRun).2 e E hEp).log
  · intro cur slot maxLen room hFits hError
    simp only [faithful, Bool.and_eq_true, decide_eq_true_eq] at hFits
    unfold hIpcRecv at hError ⊢
    cases hLookup : ipcEpFromSlot k cur slot Right.read with
    | none => rfl
    | some =>
      rw [hLookup] at hError hFits
      exact recv_error_keeps hFits.1 hFits.2 hError
  · intro cur slot buf maxLen room hFits hError
    simp only [faithful, Bool.and_eq_true, decide_eq_true_eq] at hFits
    unfold hIpcRecvBlock at hError ⊢
    cases hLookup : ipcEpFromSlot k cur slot Right.read with
    | none => rfl
    | some e =>
    rw [hLookup] at hError hFits
    dsimp only at hError ⊢
    cases hEp : k.eps e with
    | none => rfl
    | some =>
    rw [hEp] at hError
    dsimp only at hError ⊢
    split
    · rfl
    · rename_i hSome
      rw [if_neg hSome] at hError
      exact recv_error_keeps hFits.1 hFits.2 hError

/-
  Task 1 blocks in a receive of two bytes; task 2 sends it
  three and then sends a second message, which is queued.
-/
def twoMessages : List KernelOp :=
  [.cap (.createTask 1 .kernel), .cap (.installFromRoot 1 30 13 4),
    .recvBlock 1 30 4096 2 2, .publish 1 ⟨0, 0⟩ 2 false,
    .cap (.createTask 2 .kernel),
    .cap (.installFromRoot 2 30 13 4),
    .send 2 30 [1, 2, 3] 3 2, .send 2 30 [4] 1 0]

theorem endpoint_is_channel_twoMessages :
    ∃ E, (kernelExecAll (kernelBoot smallMachine) twoMessages).eps 4 = some E ∧
      E.got.map Receipt.data = [[1, 2]] ∧ E.queue.map EpMsg.data = [[4]] ∧
      ∃ done, E.sent = done ++ E.queue ∧ List.Forall₂ Delivers done E.got := by
  have hRun : KernelRun (fun k op => faithful k op = true) (kernelBoot smallMachine)
      (kernelExecAll (kernelBoot smallMachine) twoMessages) :=
    kernelRun_execAll twoMessages (by decide +kernel)
  have hData : ((kernelExecAll (kernelBoot smallMachine) twoMessages).eps 4).map
        (fun E => (E.got.map Receipt.data, E.queue.map EpMsg.data)) = some ([[1, 2]], [[4]]) := by
    decide +kernel
  rcases Option.map_eq_some_iff.mp hData with ⟨E, hEp, hBoth⟩
  rcases Prod.mk.inj hBoth with ⟨hGot, hQueue⟩
  exact ⟨E, hEp, hGot, hQueue, (endpoint_is_channel smallMachine _ hRun).1 4 E hEp⟩

/- Task 2 sends to endpoint 4, where task 1 can receive. -/
def oneMessage : List KernelOp :=
  [.cap (.createTask 1 .kernel), .cap (.installFromRoot 1 30 13 4), .cap (.createTask 2 .kernel),
    .cap (.installFromRoot 2 30 13 4),
    .send 2 30 [1, 2, 3] 3 0]

/- A receive whose copy faults loses the message. -/
theorem faulting_recv_loses_message :
    ∃ k, KernelRun (fun _ _ => True) (kernelBoot smallMachine) k ∧
      kernelEnabled k (.recv 1 30 256 0) = true ∧
      (k.eps 4).map (fun E => E.queue.map EpMsg.data) = some [[1, 2, 3]] ∧
      (kernelExec k (.recv 1 30 256 0)).1 = -1 ∧ ((kernelExec k (.recv 1 30 256 0)).2.eps 4).map
        (fun E => (E.sent.length, E.got, E.queue)) = some (1, [], []) := by
  refine ⟨kernelExecAll (kernelBoot smallMachine) oneMessage, kernelRun_execAll oneMessage ?_, ?_⟩
  · decide +kernel
  · decide +kernel

end Horus
