import Horus.Ipc.TaskSteps
import Horus.Lib.Parking

/-
  Blocking in the kernel as parking: tasks wait on endpoints
  and notifications, each of which has one `blocked_waiter`.

  Every move of the kernel is a few turns of a parking lot.
  Two facts about lots carry over. A message is handed only to
  a task that waits where it was sent, as long as no task is
  created in a slot that an object still names. A task that
  waits is the waiter of its object, as long as no task blocks
  where another is blocked.
-/

namespace Horus

open Kernel
open Function (eq_update_iff update update_eq_self update_of_ne)
open Lib (Phase Lot Turn)

/- What a task can be blocked on. -/
inductive Obj where
  | ep (e : Nat)
  | notif (n : Nat)
deriving DecidableEq, Repr

def phaseOf (st : TaskState) (x : IpcTcb) : Phase Obj :=
  match st with
  | .dead => .gone
  | .runnable => .active
  | .blockedIpc => .parked (x.blockedOn.map .ep)
  | .blockedNotif => .parked (x.blockedOnNotif.map .notif)
  | .blockedWait => .away

namespace Kernel

def present (k : Kernel) : Obj → Bool
  | .ep e => (k.eps e).isSome
  | .notif n => (k.notifs n).isSome

def stock (k : Kernel) : Obj → Bool
  | .ep e => (k.eps e).any fun E => E.q.count ≠ 0
  | .notif n => (k.notifs n).any fun N => N.pendingBadge ≠ 0

def link (k : Kernel) : Obj → Option Nat
  | .ep e => (k.eps e).bind fun E => k.inRange E.blockedWaiter
  | .notif n => (k.notifs n).bind fun N => k.inRange N.blockedWaiter

def lot (k : Kernel) : Lot Nat Obj :=
  { phase := fun t => phaseOf (k.state t) (k.tcbs t)
    pending := fun t => (k.tcbs t).pendingBlock.isSome
    present := k.present
    stock := k.stock
    link := k.link }

----
-- Updates of the Lot
----

section Updates

variable (k : Kernel) (t : Nat) (st : TaskState) (f : IpcTcb → IpcTcb)

theorem lot_modTcb : (k.modTcb t f).lot =
      { k.lot with
        phase := update k.lot.phase t (phaseOf (k.state t) (f (k.tcbs t)))
        pending := update k.lot.pending t (f (k.tcbs t)).pendingBlock.isSome } := by
  apply Lot.ext
  · exact eq_update_iff.mpr ⟨by simp [lot], fun i hNe => by simp [lot, hNe]⟩
  · exact eq_update_iff.mpr ⟨by simp [lot], fun i hNe => by simp [lot, hNe]⟩
  · rfl
  · rfl
  · rfl

theorem lot_setState : (k.setState t st).lot =
      { k.lot with phase := update k.lot.phase t (phaseOf st (k.tcbs t)) } := by
  apply Lot.ext
  · exact eq_update_iff.mpr ⟨by simp [lot], fun i hNe => by simp [lot, hNe]⟩
  · rfl
  · rfl
  · rfl
  · rfl

theorem lot_setEp (e : Nat) (E : Option Endpoint) : (k.setEp e E).lot =
      { k.lot with
        present := update k.lot.present (.ep e) E.isSome
        stock := update k.lot.stock (.ep e) (E.any fun E => E.q.count ≠ 0)
        link := update k.lot.link (.ep e) (E.bind fun E => k.inRange E.blockedWaiter) } := by
  apply Lot.ext
  · rfl
  · rfl
  all_goals
    refine eq_update_iff.mpr ⟨?_, fun o hNe => ?_⟩
    · simp [lot, present, stock, link, inRange]
    · cases o <;> simp_all [lot, present, stock, link, inRange]

theorem lot_setNotif (n : Nat) (N : Option Notification) : (k.setNotif n N).lot =
      { k.lot with
        present := update k.lot.present (.notif n) N.isSome
        stock := update k.lot.stock (.notif n) (N.any fun N => N.pendingBadge ≠ 0)
        link := update k.lot.link (.notif n) (N.bind fun N => k.inRange N.blockedWaiter) } := by
  apply Lot.ext
  · rfl
  · rfl
  all_goals
    refine eq_update_iff.mpr ⟨?_, fun o hNe => ?_⟩
    · simp [lot, present, stock, link, inRange]
    · cases o <;> simp_all [lot, present, stock, link, inRange]

theorem lot_modEp (e : Nat) (g : Endpoint → Endpoint) : (k.modEp e g).lot =
      { k.lot with
        stock := update k.lot.stock (.ep e) ((k.eps e).any fun E => (g E).q.count ≠ 0)
        link := update k.lot.link (.ep e) ((k.eps e).bind fun E =>
              k.inRange (g E).blockedWaiter) } := by
  have hSame : (k.eps e).isSome = k.lot.present (.ep e) := rfl
  change (k.setEp e ((k.eps e).map g)).lot = _
  rw [lot_setEp, Option.isSome_map, hSame, update_eq_self, Option.any_map, Option.bind_map]
  rfl

theorem lot_modNotif (n : Nat) (g : Notification → Notification) : (k.modNotif n g).lot =
      { k.lot with
        stock := update k.lot.stock (.notif n) ((k.notifs n).any fun N => (g N).pendingBadge ≠ 0)
        link := update k.lot.link (.notif n) ((k.notifs n).bind fun N =>
              k.inRange (g N).blockedWaiter) } := by
  have hSame : (k.notifs n).isSome = k.lot.present (.notif n) := rfl
  change (k.setNotif n ((k.notifs n).map g)).lot = _
  rw [lot_setNotif, Option.isSome_map, hSame, update_eq_self, Option.any_map, Option.bind_map]
  rfl

/- Fields that the lot does not show. -/
theorem lot_keepTcb (hPhase : phaseOf (k.state t) (f (k.tcbs t)) = phaseOf (k.state t) (k.tcbs t))
    (hPending : (f (k.tcbs t)).pendingBlock = (k.tcbs t).pendingBlock) :
    (k.modTcb t f).lot = k.lot := by
  have hOld : phaseOf (k.state t) (k.tcbs t) = k.lot.phase t := rfl
  have hOld' : (k.tcbs t).pendingBlock.isSome = k.lot.pending t := rfl
  rw [lot_modTcb, hPhase, hPending, hOld, hOld', update_eq_self, update_eq_self]

/- A task runs and keeps what it has pending. -/
theorem lot_wake (hKeep : (f (k.tcbs t)).pendingBlock = (k.tcbs t).pendingBlock) :
    ((k.setState t .runnable).modTcb t f).lot =
      { k.lot with phase := update k.lot.phase t .active } := by
  have hOld : (k.tcbs t).pendingBlock.isSome = k.lot.pending t := rfl
  rw [lot_modTcb, lot_setState]
  simp [hKeep, hOld, phaseOf]

/- An endpoint that keeps its waiter and its queue. -/
theorem lot_keepEp (e : Nat) (g : Endpoint → Endpoint)
    (hKeep : ∀ E, (g E).q = E.q ∧ (g E).blockedWaiter = E.blockedWaiter) :
    (k.modEp e g).lot = k.lot := by
  have hStock : ((k.eps e).any fun E => (g E).q.count ≠ 0) = k.lot.stock (.ep e) := by
    simp only [hKeep]
    rfl
  have hLink : ((k.eps e).bind fun E =>
      k.inRange (g E).blockedWaiter) = k.lot.link (.ep e) := by
    simp only [hKeep]
    rfl
  rw [lot_modEp, hStock, hLink, update_eq_self, update_eq_self]

/- Capabilities are not part of the lot. -/
theorem lot_setSys {k : Kernel} {s : Sys} (hSame : SameTasks k.cap s.cap) :
    (k.setSys s).lot = k.lot := by
  have hState : ∀ t, (k.setSys s).state t = k.state t := by
    simp [state, hSame.tasks]
  apply Lot.ext
  · simp [lot, hState]
  · rfl
  · rfl
  · rfl
  · funext o
    cases o <;> simp [lot, link, inRange, hSame.maxTasks]

theorem lot_setCap {k : Kernel} {c : CapState} (hSame : SameTasks k.cap c) :
    (k.setCap c).lot = k.lot :=
  lot_setSys (s := { cap := c, obj := k.obj }) hSame

theorem lot_grantReply (w sender senderGen : Nat) (call : Option Nat) :
    (k.grantReply w sender senderGen call).lot = k.lot := by
  have hSame := lot_setCap (sameTasks_capInstallReplyFor k.cap w sender senderGen)
  unfold grantReply granted
  split
  · rw [lot_keepTcb _ _ _ (by cases k.state w <;> rfl) rfl]
    exact hSame
  · exact hSame

/- One entry of a table forgets its waiter `t`. -/
theorem link_unlink {X : Type} {k : Kernel} {t : Nat} (hSlot : k.Slot t)
    (waiter : X → Option Nat) (clear : X → X)
    (hClear : ∀ x, waiter (clear x) = none) (x : Option X) :
    (x.bind fun y => k.inRange (waiter (if waiter y = some t then clear y else y))) =
      if (x.bind fun y => k.inRange (waiter y)) = some t then none
      else x.bind fun y => k.inRange (waiter y) := by
  cases x with
  | none => rfl
  | some y =>
  simp only [Option.bind_some]
  by_cases hNamed : waiter y = some t
  · rw [if_pos hNamed, hClear, if_pos]
    · rfl
    · exact inRange_eq_some.mpr ⟨hNamed, hSlot⟩
  · rw [if_neg hNamed, if_neg]
    exact fun hEq => hNamed (inRange_eq_some.mp hEq).1

/- Whom a task will wake when it dies. -/
theorem lot_waiter (w : Option Nat → Option Nat) :
    (k.modTcb t fun x => { x with waiter := w x.waiter }).lot =
      k.lot :=
  lot_keepTcb k t _ (by cases k.state t <;> rfl) rfl

/- The object of a blocked task forgets it. -/
theorem lot_unlinkEp {k : Kernel} {t : Nat} (hSlot : k.Slot t)
    (hBlocked : k.state t = .blockedIpc) : (k.unlinkEp t).lot =
      { k.lot with link := k.lot.unlink t } := by
  have hPhase : k.lot.phase t = .parked ((k.tcbs t).blockedOn.map .ep) := by
    simp [lot, hBlocked, phaseOf]
  cases hOn : (k.tcbs t).blockedOn with rw [hOn] at hPhase
  | none => simp [Lot.unlink_nowhere hPhase, unlinkEp, hOn]
  | some e =>
    have hMod : k.unlinkEp t = k.modEp e fun E =>
        if E.blockedWaiter = some t then { E with blockedWaiter := none } else E := by
      unfold unlinkEp modEp
      congr 1
      exact eq_update_iff.mpr ⟨by simp [hOn], fun i hNe => by simp [hOn, hNe.symm]⟩
    have hStock : ((k.eps e).any fun E => (if E.blockedWaiter = some t then
        { E with blockedWaiter := none } else E).q.count ≠ 0) = k.lot.stock (.ep e) := by
      simp only [apply_ite Endpoint.q, ite_self]
      rfl
    rw [hMod, lot_modEp, hStock, update_eq_self, Lot.unlink_parked hPhase,
      link_unlink hSlot Endpoint.blockedWaiter _ (fun _ => rfl)]
    rfl

theorem lot_unlinkNotif {k : Kernel} {t : Nat} (hSlot : k.Slot t)
    (hBlocked : k.state t = .blockedNotif) : (k.unlinkNotif t).lot =
      { k.lot with link := k.lot.unlink t } := by
  have hPhase : k.lot.phase t = .parked ((k.tcbs t).blockedOnNotif.map .notif) := by
    simp [lot, hBlocked, phaseOf]
  cases hOn : (k.tcbs t).blockedOnNotif with rw [hOn] at hPhase
  | none => simp [Lot.unlink_nowhere hPhase, unlinkNotif, hOn]
  | some n =>
    have hMod : k.unlinkNotif t = k.modNotif n fun N =>
        if N.blockedWaiter = some t then { N with blockedWaiter := none } else N := by
      unfold unlinkNotif modNotif
      congr 1
      exact eq_update_iff.mpr ⟨by simp [hOn], fun i hNe => by simp [hOn, hNe.symm]⟩
    have hStock : ((k.notifs n).any fun N => (if N.blockedWaiter = some t then
        { N with blockedWaiter := none } else N).pendingBadge ≠ 0) = k.lot.stock (.notif n) := by
      simp only [apply_ite Notification.pendingBadge, ite_self]
      rfl
    rw [hMod, lot_modNotif, hStock, update_eq_self, Lot.unlink_parked hPhase,
      link_unlink hSlot Notification.blockedWaiter _ (fun _ => rfl)]
    rfl

end Updates

end Kernel

----
-- Moves as Turns
----

/- Turns that also meet the guard `H`. -/
def TurnRun (H : Lot Nat Obj → Turn Nat Obj → Prop) : Lot Nat Obj → Lot Nat Obj → Prop :=
  Lib.Run Turn.apply (fun L turn => turn.Ok L ∧ H L turn)

/- The turns that a guard may speak about. -/
def GuardsParking (H : Lot Nat Obj → Turn Nat Obj → Prop) : Prop :=
  ∀ L turn, (∀ t o, turn ≠ .park t o) → (∀ t alive, turn ≠ .born t alive) → H L turn

/- What a move needs of the guard. -/
structure Move.Parks (H : Lot Nat Obj → Turn Nat Obj → Prop) (k : Kernel) (move : Move) : Prop where
  birth : ∀ op id alive, move = .birth op id → H k.lot (.born id alive)
  park : ∀ t e, move = .park t e → H k.lot (.park t (.ep e))
  parkNotif : ∀ t n, move = .parkNotif t n → H k.lot (.park t (.notif n))

variable {L L' : Lot Nat Obj} {w e n id : Nat} {o : Obj} {E : Endpoint} {N : Notification}

section Turns

variable {H : Lot Nat Obj → Turn Nat Obj → Prop} {k : Kernel}

theorem turnRun_same (hSame : L' = L) : TurnRun H L L' := by
  rw [hSame]
  exact Lib.Run.refl L

theorem turnRun_single (turn : Turn Nat Obj)
    (hOk : turn.Ok L) (hH : H L turn) (hEq : L' = turn.apply L) : TurnRun H L L' := by
  rw [hEq]
  exact Lib.Run.single turn ⟨hOk, hH⟩

theorem TurnRun.trans {L'' : Lot Nat Obj} (hRun : TurnRun H L L')
    (hRun' : TurnRun H L' L'') : TurnRun H L L'' :=
  Lib.Run.trans hRun hRun'

variable (hFree : GuardsParking H)

include hFree

/- A runnable task records that it will block. -/
theorem intend_turn {t : Nat} {f : IpcTcb → IpcTcb} (hCall : k.canCall t = true)
    (hSome : ((f (k.tcbs t)).pendingBlock).isSome = true) : TurnRun H k.lot (k.modTcb t f).lot := by
  rcases canCall_iff.mp hCall with ⟨_, hRun, hIdle⟩
  have hPhase : k.lot.phase t = .active := by
    simp [lot, hRun, phaseOf]
  refine turnRun_single (.intend t) ⟨hPhase, ?_⟩ (hFree _ _ nofun nofun) ?_
  · simp [lot, hIdle]
  · rw [lot_modTcb, hSome, hRun]
    simp only [phaseOf, ← hPhase, update_eq_self, Turn.apply]

/- A block that was pending ends and the task runs. -/
theorem resume_turn {t : Nat} {f : IpcTcb → IpcTcb}
    (hPending : (k.tcbs t).pendingBlock.isSome = true)
    (hClear : (f (k.tcbs t)).pendingBlock = none) :
    TurnRun H k.lot ((k.setState t .runnable).modTcb t f).lot := by
  refine turnRun_single (.resume t) hPending (hFree _ _ nofun nofun) ?_
  rw [lot_modTcb, lot_setState]
  simp [hClear, phaseOf, Turn.apply]

/- A task that waits for another task runs. -/
theorem back_turn {t : Nat} {f : IpcTcb → IpcTcb} (hBlocked : k.state t = .blockedWait)
    (hKeep : (f (k.tcbs t)).pendingBlock = (k.tcbs t).pendingBlock) :
    TurnRun H k.lot ((k.setState t .runnable).modTcb t f).lot := by
  refine turnRun_single (.back t) ?_ (hFree _ _ nofun nofun) ?_
  · simp [Turn.Ok, lot, hBlocked, phaseOf]
  · exact lot_wake k t f hKeep

/- A blocked task is woken by its own name. -/
theorem pull_turn {t : Nat} {f : IpcTcb → IpcTcb} {p : Option Obj} (hParked : L.phase t = .parked p)
    (hLot : k.lot = { L with link := L.unlink t })
    (hKeep : (f (k.tcbs t)).pendingBlock = (k.tcbs t).pendingBlock) :
    TurnRun H L ((k.setState t .runnable).modTcb t f).lot := by
  refine turnRun_single (.pull t) ⟨p, hParked⟩ (hFree _ _ nofun nofun) ?_
  rw [lot_wake k t f hKeep, hLot]
  rfl

/- The task that an object names runs. -/
theorem hand_turn {f : IpcTcb → IpcTcb} (hNamed : L.link o = some w) (hAlive : L.phase w ≠ .gone)
    (hLot : k.lot = { L with link := update L.link o none })
    (hKeep : (f (k.tcbs w)).pendingBlock = (k.tcbs w).pendingBlock) :
    TurnRun H L ((k.setState w .runnable).modTcb w f).lot := by
  refine turnRun_single (.hand o w) ⟨hNamed, hAlive⟩ (hFree _ _ nofun nofun) ?_
  rw [lot_wake k w f hKeep, hLot]
  rfl

/- A queue grows or shrinks; its waiter stays. -/
theorem restockEp_turn {g : Endpoint → Endpoint}
    (hEp : k.eps e = some E) (hKeep : (g E).blockedWaiter = E.blockedWaiter)
    (hOk : (g E).q.count ≠ 0 → E.q.count ≠ 0 ∨ k.parkedReceiver E = none) :
    TurnRun H k.lot (k.modEp e g).lot := by
  refine turnRun_single (.restock (.ep e) ((g E).q.count ≠ 0)) ?_ (hFree _ _ nofun nofun) ?_
  · intro hSome
    rcases hOk (of_decide_eq_true hSome) with hOld | hNobody
    · simp [lot, stock, hEp, hOld]
    right
    rintro ⟨hEmpty, t, hLink, hPhase⟩
    simp only [lot, stock, link, hEp, Option.any_some, Option.bind_some,
      decide_eq_false_iff_not, not_not] at hEmpty hLink hPhase
    have hBlocked : k.state t = .blockedIpc := by
      cases hState : k.state t <;> simp_all [phaseOf]
    have hThere : k.parkedReceiver E = some t := parkedReceiver_eq_some.mpr
        ⟨(inRange_eq_some.mp hLink).1, (inRange_eq_some.mp hLink).2, hBlocked, hEmpty⟩
    rw [hNobody] at hThere
    cases hThere
  · have hSame : k.inRange (g E).blockedWaiter = k.lot.link (.ep e) := by
      rw [hKeep]
      simp [lot, link, hEp]
    rw [lot_modEp]
    simp only [hEp, Option.any_some, Option.bind_some, hSame, update_eq_self, Turn.apply]

/- A badge is added or taken; the waiter stays. -/
theorem setBadge_turn {b : BitVec 32}
    (hNotif : k.notifs n = some N) (hOk : b ≠ 0 → k.parkedWaiter N = none) :
    TurnRun H k.lot (k.setBadge n b).lot := by
  refine turnRun_single (.restock (.notif n) (b ≠ 0)) ?_ (hFree _ _ nofun nofun) ?_
  · intro hSome
    right
    rintro ⟨hEmpty, t, hLink, hPhase⟩
    simp only [lot, link, hNotif, Option.bind_some] at hLink hPhase
    have hBlocked : k.state t = .blockedNotif := by
      cases hState : k.state t <;> simp_all [phaseOf]
    have hThere : k.parkedWaiter N = some t :=
      parkedWaiter_eq_some.mpr ⟨(inRange_eq_some.mp hLink).1,
          (inRange_eq_some.mp hLink).2, hBlocked⟩
    rw [hOk (of_decide_eq_true hSome)] at hThere
    cases hThere
  · have hSame : k.inRange N.blockedWaiter = k.lot.link (.notif n) := by
      simp [lot, link, hNotif]
    unfold setBadge
    rw [lot_modNotif]
    simp only [hNotif, Option.any_some, Option.bind_some, hSame, update_eq_self, Turn.apply]

/- A collected object lets its waiter go first. -/
theorem wakeNamed_turn {w : Option Nat} {f : IpcTcb → IpcTcb} (hLink : k.lot.link o = k.inRange w)
    (hKeep : ∀ x, (f x).pendingBlock = x.pendingBlock)
    (hLot : L =
      { (k.wakeNamed w f).lot with
        present := update (k.wakeNamed w f).lot.present o false
        stock := update (k.wakeNamed w f).lot.stock o false
        link := update (k.wakeNamed w f).lot.link o none }) :
    TurnRun H k.lot L := by
  have hRemove : ∀ L' : Lot Nat Obj, (∀ t, L'.link o = some t → L'.phase t = .gone) →
      L = (Turn.remove o).apply L' → TurnRun H L' L :=
    fun L' hOk hEq => turnRun_single (.remove o) hOk (hFree _ _ nofun nofun) hEq
  unfold wakeNamed at hLot
  cases hRange : k.inRange w with
  | none =>
    rw [hRange] at hLot hLink
    apply hRemove
    · intro t hNamed
      rw [hLink] at hNamed
      cases hNamed
    · exact hLot
  | some w =>
  rw [hRange] at hLot hLink
  dsimp only at hLot
  split at hLot
  · rename_i hDead
    apply hRemove
    · intro t hNamed
      rw [hLink] at hNamed
      cases hNamed
      simp [lot, hDead, phaseOf]
    · exact hLot
  · have hHere : k.lot.phase w ≠ .gone := by
      cases hState : k.state w <;> simp_all [lot, phaseOf]
    refine (turnRun_single (.hand o w) ⟨hLink, hHere⟩
      (hFree _ _ nofun nofun) rfl).trans (hRemove _ ?_ ?_)
    · intro t hNamed
      simp [Turn.apply] at hNamed
    · rw [hLot, lot_wake k w f (hKeep _)]
      simp [Turn.apply]

/- A pending block becomes a wait on an object. -/
omit hFree in
theorem park_turn {t : Nat} {st : TaskState} {f : IpcTcb → IpcTcb} (hPending : L.pending t = true)
    (hPresent : L.present o = true) (hStock : L.stock o = false) (hH : H L (.park t o))
    (hLot : k.lot = { L with link := update L.link o (some t) })
    (hPhase : phaseOf st (f (k.tcbs t)) = .parked (some o))
    (hClear : (f (k.tcbs t)).pendingBlock = none) :
    TurnRun H L ((k.setState t st).modTcb t f).lot := by
  refine turnRun_single (.park t o) ⟨hPending, hPresent, hStock⟩ hH ?_
  have hState : (k.setState t st).state t = st := by simp
  rw [lot_modTcb, lot_setState, hState]
  simp [hLot, hPhase, hClear, Turn.apply]

omit hFree in
theorem birth_turn {op : Op} (hCreates : op.creates = some id) (hEnabled : enabled k.cap op = true)
    (hH : ∀ alive, H k.lot (.born id alive)) : TurnRun H k.lot
      ((k.setSys (exec k.sys op).2).resetTask id).lot := by
  have hNew := exec_creates k.sys op id hCreates
  have hDead := creates_dead hCreates hEnabled
  have hOther : ∀ t, t ≠ id → (k.setSys (exec k.sys op).2).state t = k.state t := by
    intro t hNe
    exact congrArg Tcb.state (hNew.other.tasks t hNe)
  refine turnRun_single (.born id ((k.setSys (exec k.sys op).2).state id = .runnable)) ?_ (hH _) ?_
  · simp [Turn.Ok, lot, hDead, phaseOf]
  apply Lot.ext
  · funext t
    rcases eq_or_ne t id with rfl | hEq
    · have hState : (k.setSys (exec k.sys op).2).state t = .runnable ∨
          (k.setSys (exec k.sys op).2).state t = .dead :=
        hNew.state
      rcases hState with hState | hState <;> simp [resetTask, lot, Turn.apply, hState, phaseOf]
    · simp [resetTask, lot, Turn.apply, hEq, hOther]
  · exact eq_update_iff.mpr ⟨by simp [resetTask, lot], fun t hNe => by simp [resetTask, lot, hNe]⟩
  · rfl
  · rfl
  funext o
  have hMax : (exec k.sys op).2.cap.maxTasks = k.cap.maxTasks := hNew.other.maxTasks
  cases o <;> simp [resetTask, lot, link, inRange, Turn.apply, hMax]

theorem bury_turn {scratch : Scratch} (hAlive : k.state id ≠ .dead) :
    TurnRun H k.lot (k.bury id scratch).lot := by
  rcases taskTeardown_tasks k.sys id scratch hAlive with ⟨hTasks, hMax⟩
  have hState : ∀ t, (k.setSys (taskTeardown k.sys id scratch)).state t =
        if t = id then .dead else k.state t := by
    intro t
    simp only [state, setSys_cap, hTasks]
    rcases eq_or_ne t id with rfl | hEq
    · simp
    · rw [if_neg hEq, update_of_ne hEq]
      rfl
  refine turnRun_single (.die id) trivial (hFree _ _ (by simp) (by simp)) ?_
  unfold bury
  apply Lot.ext
  · exact eq_update_iff.mpr ⟨by simp [lot, hState, phaseOf],
      fun t hNe => by simp [lot, hState, hNe]⟩
  · funext t
    rcases eq_or_ne t id with rfl | hEq
    · simp [lot, Turn.apply]
    · simp [lot, Turn.apply, hEq]
  · rfl
  · rfl
  · funext o
    cases o <;> simp [lot, link, inRange, Turn.apply, hMax]

/- A pending block becomes a wait for another task. -/
theorem leave_turn {t : Nat} {f : IpcTcb → IpcTcb}
    (hPending : (k.tcbs t).pendingBlock.isSome = true)
    (hClear : (f (k.tcbs t)).pendingBlock = none) : TurnRun H k.lot
      ((k.setState t .blockedWait).modTcb t f).lot := by
  refine turnRun_single (.leave t) hPending (hFree _ _ nofun nofun) ?_
  rw [lot_modTcb, lot_setState]
  simp [hClear, phaseOf, Turn.apply]

theorem deliver_turn {m : EpMsg} {r : Receipt}
    (hEp : k.eps e = some E) (hWaiter : k.parkedReceiver E = some w) :
    TurnRun H k.lot (k.deliver e w m r).lot := by
  rcases parkedReceiver_eq_some.mp hWaiter with ⟨hNamed, hSlot, hBlocked, _⟩
  have hStock : decide (E.q.count ≠ 0) = k.lot.stock (.ep e) := by
    simp [lot, stock, hEp]
  refine hand_turn hFree (o := .ep e) ?_ ?_ ?_ rfl
  · simp only [lot, link, hEp, Option.bind_some]
    exact inRange_eq_some.mpr ⟨hNamed, hSlot⟩
  · simp [lot, hBlocked, phaseOf]
  rw [lot_modEp]
  simp only [hEp, Option.any_some, Option.bind_some, hStock, update_eq_self]
  rfl

theorem wakeNotif_turn (hNotif : k.notifs n = some N) (hWaiter : k.parkedWaiter N = some w) :
    TurnRun H k.lot (k.wakeNotif n w).lot := by
  rcases parkedWaiter_eq_some.mp hWaiter with ⟨hNamed, hSlot, hBlocked⟩
  refine (turnRun_single (.restock (.notif n) false) nofun (hFree _ _ nofun nofun) rfl).trans ?_
  refine hand_turn hFree (o := .notif n) ?_ ?_ ?_ rfl
  · simp only [Turn.apply, lot, link, hNotif, Option.bind_some]
    exact inRange_eq_some.mpr ⟨hNamed, hSlot⟩
  · simp [Turn.apply, lot, hBlocked, phaseOf]
  · rw [lot_modNotif]
    simp [hNotif, Turn.apply, inRange]

/- The block of a lone task is undone. -/
theorem unpark_turn {t : Nat} (hSlot : k.Slot t)
    (hBlocked : k.state t = .blockedIpc ∨ k.state t = .blockedNotif ∨ k.state t = .blockedWait) :
    TurnRun H k.lot ((unpublishLink k t).wakeWait t).lot := by
  unfold unpublishLink wakeWait
  rcases hBlocked with hState | hState | hState
  · simp only [hState, modTcb_setState_modTcb]
    refine pull_turn hFree (p := (k.tcbs t).blockedOn.map .ep) ?_ (lot_unlinkEp hSlot hState) rfl
    simp [lot, hState, phaseOf]
  · simp only [hState]
    refine pull_turn hFree (p := (k.tcbs t).blockedOnNotif.map .notif) ?_
      (lot_unlinkNotif hSlot hState) rfl
    simp [lot, hState, phaseOf]
  · simp only [hState, modTcb_setState_modTcb]
    split
    · exact back_turn hFree hState rfl
    split
    · rw [← lot_waiter k _ fun _ => none]
      exact back_turn hFree hState rfl
    · exact back_turn hFree hState rfl

/- Every move is a few turns. -/
theorem Move.turns (move : Move) (hOk : move.Ok k)
    (hParks : move.Parks H k) : TurnRun H k.lot (move.apply k).lot := by
  cases move with
  | cap op => exact turnRun_same (lot_setSys (exec_sameTasks k.sys op hOk.1))
  | birth op id => exact birth_turn hOk.1 hOk.2 (fun alive => hParks.birth op id alive rfl)
  | bury => exact bury_turn hFree hOk.2
  | intendRecv => exact intend_turn hFree hOk.1 rfl
  | intendCall => exact intend_turn hFree (k := k.nextNumber) hOk.1 rfl
  | intendNotif | intendWait => exact intend_turn hFree hOk rfl
  | abortCall t =>
    refine turnRun_single (.cancel t) ?_ (hFree _ _ nofun nofun) ?_
    · simp [Turn.Ok, lot, hOk.2.1]
    have hPhase : phaseOf .runnable (k.tcbs t) = k.lot.phase t := by
      simp [lot, hOk.1]
    unfold Move.apply Kernel.abortCall
    rw [lot_modTcb, hOk.1]
    simp only [phaseOf] at hPhase ⊢
    rw [hPhase, update_eq_self]
    rfl
  | saveFrame t | patch t | patchBoth t | forget t =>
    exact turnRun_same (lot_keepTcb k t _ (by cases k.state t <;> rfl) rfl)
  | tell e w =>
    unfold Move.apply Kernel.tell
    apply turnRun_same
    rw [lot_keepTcb _ w _ (by cases k.state w <;> rfl) rfl]
    exact lot_keepEp k e _ fun _ => ⟨rfl, rfl⟩
  | grantReply w sender senderGen call =>
    exact turnRun_same (lot_grantReply k w sender senderGen call)
  | deliver =>
    rcases hOk.1 with ⟨E, hEp, hWaiter⟩
    exact deliver_turn hFree hEp hWaiter
  | enqueue =>
    rcases hOk.1 with ⟨E, hEp, _, hNobody⟩
    exact restockEp_turn hFree hEp rfl fun _ => .inr hNobody
  | take =>
    rcases hOk with ⟨_, E, hEp, hSome, _⟩
    exact restockEp_turn hFree hEp rfl fun _ => .inl (Nat.pos_iff_ne_zero.mp hSome)
  | receive =>
    rcases hOk with ⟨E, hEp, hSome, _⟩
    exact restockEp_turn hFree hEp rfl fun _ => .inl (Nat.pos_iff_ne_zero.mp hSome)
  | dropBlock => exact resume_turn hFree hOk.2 rfl
  | settle | settleNotif | settleWait =>
    exact resume_turn hFree (Option.isSome_of_eq_some hOk.2) rfl
  | park t e =>
    rcases hOk with ⟨hSlot, hPending, hOn, _, E, hEp, hEmpty⟩
    refine park_turn (o := .ep e) ?_ ?_ ?_ (hParks.park t e rfl) ?_ ?_ rfl
    · simp [lot, hPending]
    · simp [lot, present, hEp]
    · simp [lot, stock, hEp, hEmpty]
    · have hStock : decide (E.q.count ≠ 0) = k.lot.stock (.ep e) := by
        simp [lot, stock, hEp]
      rw [lot_modEp]
      simp only [hEp, Option.any_some, Option.bind_some, hStock, update_eq_self,
        inRange_eq_some.mpr ⟨rfl, hSlot⟩]
    · simp [phaseOf, hOn]
  | parkNotif t n =>
    rcases hOk with ⟨hSlot, hPending, hOn, _, N, hNotif, hEmpty⟩
    refine park_turn (o := .notif n) ?_ ?_ ?_ (hParks.parkNotif t n rfl) ?_ ?_ rfl
    · simp [lot, hPending]
    · simp [lot, present, hNotif]
    · simp [lot, stock, hNotif, hEmpty]
    · have hStock : decide (N.pendingBadge ≠ 0) = k.lot.stock (.notif n) := by
        simp [lot, stock, hNotif]
      rw [lot_modNotif]
      simp only [hNotif, Option.any_some, Option.bind_some, hStock, update_eq_self,
        inRange_eq_some.mpr ⟨rfl, hSlot⟩]
    · simp [phaseOf, hOn]
  | parkWait t tid =>
    rcases hOk with ⟨_, hPending, _⟩
    have hSome := Option.isSome_of_eq_some hPending
    have hKeep := lot_waiter k tid fun _ => some t
    rw [← hKeep]
    refine leave_turn hFree ?_ rfl
    rcases eq_or_ne t tid with rfl | hEq
    · simpa using hSome
    · simpa [hEq] using hSome
  | unpark => exact unpark_turn hFree hOk.1 hOk.2
  | wakeWait => exact back_turn hFree hOk rfl
  | setBadge =>
    rcases hOk with ⟨N, hNotif, hNobody⟩
    exact setBadge_turn hFree hNotif hNobody
  | wakeNotif =>
    rcases hOk with ⟨N, hNotif, hWaiter⟩
    exact wakeNotif_turn hFree hNotif hWaiter
  | answer q t =>
    rcases hOk with ⟨_, hSlot, hBlocked, _⟩
    refine pull_turn hFree (L := k.lot) (p := (k.tcbs t).blockedOn.map .ep) ?_ ?_ rfl
    · simp [lot, hBlocked, phaseOf]
    · exact lot_unlinkEp (k := k.logReply q t) hSlot hBlocked
  | consumeReply q =>
    exact turnRun_same (lot_setCap (sameTasks_capConsumeSlot k.cap q capslotReply))
  | makeEp e =>
    refine turnRun_single (.make (.ep e)) ?_ (hFree _ _ nofun nofun) ?_
    · simp [Turn.Ok, lot, present, hOk.2]
    · exact lot_setEp k e (some Endpoint.fresh)
  | makeNotif n =>
    refine turnRun_single (.make (.notif n)) ?_ (hFree _ _ nofun nofun) ?_
    · simp [Turn.Ok, lot, present, hOk.2]
    · exact lot_setNotif k n (some Notification.fresh)
  | destroyEp e =>
    rcases Option.isSome_iff_exists.mp hOk.2 with ⟨E, hEp⟩
    simp only [Move.apply, destroyDynEndpoint, hEp]
    refine wakeNamed_turn hFree (o := .ep e) (w := E.blockedWaiter)
      (f := fun x => { x with blockedOn := none, inside := none })
      ?_ (fun _ => rfl) ?_
    · simp [lot, link, hEp]
    · exact lot_setEp _ e none
  | destroyNotif n =>
    rcases Option.isSome_iff_exists.mp hOk.2 with ⟨N, hNotif⟩
    simp only [Move.apply, destroyDynNotification, hNotif]
    refine wakeNamed_turn hFree (o := .notif n) (w := N.blockedWaiter) (f := fun x =>
        { x with blockedOnNotif := none, inside := none })
      ?_ (fun _ => rfl) ?_
    · simp [lot, link, hNotif]
    · exact lot_setNotif _ n none

end Turns

end Horus
