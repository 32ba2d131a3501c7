import Horus.Ipc.Channel
import Horus.Kernel.Records

/-
  Who can complete a call.

  A reply capability names a task slot and its generation, not
  the message it was installed for, and it stays with the
  receiver until it is used. So a reply to an old message can
  complete a later call. It cannot when a task calls only
  while no reply capability and no queued message of its own
  is left, and no reply capability is granted away.

  Main declarations:
    * `SameCaps`, `Move.sameCaps`
    * `Kernel.HoldsReply`, `ReplyKinds`, `ReplyStep`
    * `Kernel.Answers`, `Kernel.Settled`, `RepliesSettled`
    * `Replies`, `replies_run`
    * `reply_completes_own_call`
-/

namespace Horus

open Kernel
open Function

variable {c : Capability} {s s' : CapState} {q e t senderGen sender : Nat}
    {m : EpMsg} {E : Endpoint} {call : Option Nat}

structure SameCaps (k l : Kernel) : Prop where
  mem : l.cap.mem = k.cap.mem
  next : l.cap.nextSerial = k.cap.nextSerial
  cspace : ∀ t, (l.cap.tasks t).cspace = (k.cap.tasks t).cspace

section SameCaps

variable {k l : Kernel}

theorem sameCaps_of_cap (hCap : l.cap = k.cap) : SameCaps k l :=
  ⟨by rw [hCap], by rw [hCap], fun _ => by rw [hCap]⟩

theorem sameCaps_of_state (t : Nat) (st : TaskState)
    (hCap : l.cap = (k.setState t st).cap) : SameCaps k l := by
  refine ⟨by rw [hCap]; rfl, by rw [hCap]; rfl, fun i => ?_⟩
  rw [hCap]
  simp only [setState, CapState.setTask]
  rcases eq_or_ne i t with rfl | hEq
  · rw [update_self]
  · rw [update_of_ne hEq]

theorem sameCaps_wakeNamed (w : Option Nat) (f : IpcTcb → IpcTcb) :
    SameCaps k (k.wakeNamed w f) := by
  unfold wakeNamed
  split
  · exact sameCaps_of_cap rfl
  split
  · exact sameCaps_of_cap rfl
  · exact sameCaps_of_state _ .runnable rfl

theorem unpublishLink_cap (k : Kernel) (t : Nat) : (unpublishLink k t).cap = k.cap := by
  unfold unpublishLink
  split
  · rfl
  · split
    · rfl
    · split <;> rfl
  · rfl
  · rfl

/- The moves that write capability slots. -/
def Move.writesCaps : Move → Bool
  | .cap _ | .birth _ _ | .bury _ _ | .grantReply _ _ _ _
  | .consumeReply _ => true
  | _ => false

theorem Move.sameCaps (k : Kernel) (move : Move)
    (hOther : move.writesCaps = false) : SameCaps k (move.apply k) := by
  cases move with
  | cap | birth | bury | grantReply | consumeReply => cases hOther
  | deliver _ w | wakeWait w | wakeNotif n w | answer q w => exact sameCaps_of_state w .runnable rfl
  | dropBlock t | settle t | settleNotif t | settleWait t => exact sameCaps_of_state t .runnable rfl
  | park t => exact sameCaps_of_state t .blockedIpc rfl
  | parkNotif t => exact sameCaps_of_state t .blockedNotif rfl
  | parkWait t => exact sameCaps_of_state t .blockedWait rfl
  | unpark t =>
    refine sameCaps_of_state t .runnable ?_
    change ((unpublishLink k t).setState t .runnable).cap = _
    unfold setState
    rw [unpublishLink_cap]
  | destroyEp e =>
    change SameCaps k (destroyDynEndpoint k e)
    unfold destroyDynEndpoint
    split
    · exact sameCaps_of_cap rfl
    · have hWake := sameCaps_wakeNamed (k := k)
      exact ⟨(hWake _ _).mem, (hWake _ _).next, (hWake _ _).cspace⟩
  | destroyNotif n =>
    change SameCaps k (destroyDynNotification k n)
    unfold destroyDynNotification
    split
    · exact sameCaps_of_cap rfl
    · have hWake := sameCaps_wakeNamed (k := k)
      exact ⟨(hWake _ _).mem, (hWake _ _).next, (hWake _ _).cspace⟩
  | _ => exact sameCaps_of_cap rfl

end SameCaps

----
-- Reply Capabilities
----

def Kernel.HoldsReply (k : Kernel) (q : Nat) (c : Capability) : Prop :=
  ∃ space, (k.cap.tasks q).cspace = some space ∧
    k.cap.mem ⟨space, capslotReply⟩ = c ∧ c.typ = .reply

/- No reply capability can be minted or found in the root. -/
def ReplyKinds (s : CapState) : Prop :=
  ∀ a, (s.mem a).typ = .reply → a.space ≠ rootSpace ∧ (s.mem a).rights = Right.write

/- An operation that does not grant a reply capability. -/
def NoReplyGrant (s : CapState) : Op → Prop
  | .grant cur _ _ src | .grantInto cur _ _ src _ =>
    ∀ space, (s.tasks cur).cspace = some space → (s.mem ⟨space, src⟩).typ ≠ .reply
  | _ => True

/- No operation but the installation makes one. -/
theorem ReplyKinds.makes {s : Sys} (hKinds : ReplyKinds s.cap) {op : Op}
    (hEnabled : enabled s.cap op = true) (hGrant : NoReplyGrant s.cap op)
    (hInstall : ∀ pid sender gen, op ≠ .installReplyFor pid sender gen) (hMakes : op.Makes s c) : c.typ ≠ .reply := by
  intro hTyp
  have hMint : ∀ b, (s.cap.mem b).typ = .reply →
      hasRights (s.cap.mem b).rights Right.mint ≠ true := by
    intro b hB
    rw [(hKinds b hB).2]
    decide
  have hBirth : ∀ id, ¬ BirthCap id c := by
    intro id hBorn
    unfold BirthCap at hBorn
    rw [hTyp] at hBorn
    simp at hBorn
  cases op with
  | createTask id | spawnAborted id => exact hBirth id hMakes
  | fork _ child =>
    rcases hMakes with hBorn | ⟨_, b, _, _, hCloned, hCopy⟩
    · exact hBirth child hBorn
    · rw [hCopy.typ] at hTyp
      simp [cloned, hTyp] at hCloned
  | installFromRoot => exact (hKinds _ (hMakes.1 ▸ hTyp)).1 rfl
  | retype =>
    simp only [enabled, Bool.and_eq_true] at hEnabled
    rw [hMakes.1] at hTyp
    rw [hTyp] at hEnabled
    exact absurd hEnabled.2 (by decide)
  | childTcb =>
    rw [show c.typ = .tcb from hMakes] at hTyp
    cases hTyp
  | installReplyFor pid sender gen => exact hInstall pid sender gen rfl
  | mint | transfer =>
    rcases hMakes with ⟨b, _, _, hRight, hCopy⟩
    exact hMint b (hCopy.typ ▸ hTyp) hRight
  | mintToken | replyMint =>
    rcases hMakes with ⟨b, _, _, hEp, hCopy⟩
    rw [hCopy.typ, hEp] at hTyp
    cases hTyp
  | grant | grantInto =>
    rcases hMakes with ⟨⟨space, _⟩, hOwns, rfl, _, hCopy⟩
    exact hGrant space hOwns.space (hCopy.typ ▸ hTyp)
  | childPipeEnd =>
    rcases hMakes with ⟨_, b, _, _, hPipe, hCopy⟩
    rw [hCopy.typ, hPipe] at hTyp
    cases hTyp
  | pipe =>
    rw [hMakes.1] at hTyp
    cases hTyp
  | untypedSplit =>
    rw [show c.typ = .untyped from hMakes] at hTyp
    cases hTyp
  | schedSplit =>
    rw [hMakes.1] at hTyp
    cases hTyp
  | _ => exact hMakes

/- A reply capability that was there before, up to its badge. -/
def OldReplies (s s' : CapState) : Prop :=
  ∀ a, (s'.mem a).typ = .reply → SameRecord (s.mem a) (s'.mem a)

theorem ReplyKinds.keep (hKinds : ReplyKinds s) (hOld : OldReplies s s') : ReplyKinds s' := by
  intro a hTyp
  have hSame := hOld a hTyp
  have hBefore := hKinds a (hSame.typ ▸ hTyp)
  exact ⟨hBefore.1, hSame.rights.trans hBefore.2⟩

theorem Writes.oldReplies {P : Capability → Prop}
    (hWrites : Writes P s s') (hMade : ∀ c, P c → c.typ ≠ .reply) : OldReplies s s' := by
  intro a hTyp
  rcases hWrites a with hSame | hNull | hNew
  · rw [hSame]
    exact SameRecord.refl _
  · rw [hNull] at hTyp
    cases hTyp
  · exact absurd hTyp (hMade _ hNew)

/- The installation of a reply capability. -/
theorem capInstallReplyFor_cases (s : CapState) (pid sender senderGen : Nat) :
    ((capInstallReplyFor s pid sender senderGen).1 = false ∧
        (capInstallReplyFor s pid sender senderGen).2.mem = s.mem) ∨
      ((capInstallReplyFor s pid sender senderGen).1 = true ∧
        ∃ space serial, (s.tasks pid).cspace = some space ∧
          (capInstallReplyFor s pid sender senderGen).2.mem =
            update s.mem ⟨space, capslotReply⟩ (freshCap .reply Right.write
                (packTask sender senderGen) serial)) := by
  unfold capInstallReplyFor
  iterate 4
    split
    · exact .inl ⟨rfl, rfl⟩
  rename_i space hSpace
  split
  · exact .inl ⟨rfl, rfl⟩
  split
  · exact .inl ⟨rfl, rfl⟩
  · exact .inr ⟨rfl, space, _, hSpace, rfl⟩

----
-- What a Move Does to Reply Capabilities
----

variable {k : Kernel} {move : Move}

/- A slot keeps its capability space, but for a birth in it. -/
theorem Move.keepsSpace (hOk : move.Ok k) (hNot : ∀ op, move ≠ .birth op q) :
    ((move.apply k).cap.tasks q).cspace = (k.cap.tasks q).cspace := by
  cases move with
  | cap op => exact congrArg (fun f => (f q).cspace) (exec_sameTasks k.sys op hOk.1).tasks
  | birth op id =>
    have hNe : q ≠ id := by
      rintro rfl
      exact hNot op rfl
    exact congrArg Tcb.cspace ((exec_creates k.sys op id hOk.1).other.tasks q hNe)
  | bury id scratch =>
    have hTasks := (taskTeardown_tasks k.sys id scratch hOk.2).1
    change ((taskTeardown k.sys id scratch).cap.tasks q).cspace = _
    rw [hTasks]
    rcases eq_or_ne q id with rfl | hEq
    · rw [update_self]
      rfl
    · rw [update_of_ne hEq]
      rfl
  | grantReply w sender senderGen call =>
    have hSame := sameTasks_capInstallReplyFor k.cap w sender senderGen
    change ((k.granted w call _).cap.tasks q).cspace = _
    unfold granted
    split <;>
      exact congrArg (fun f => (f q).cspace) hSame.tasks
  | consumeReply cur =>
    exact congrArg (fun f => (f q).cspace) (sameTasks_capConsumeSlot k.cap cur capslotReply).tasks
  | _ => exact (Move.sameCaps k _ rfl).cspace q

/- The condition on grants, at the level of moves. -/
def GrantGuard (k : Kernel) : Move → Prop
  | .cap op => NoReplyGrant k.cap op
  | _ => True

section ReplyStep

variable {k : Kernel} {move : Move} (hBase : Base k) (hKinds : ReplyKinds k.cap) (hOk : move.Ok k)

include hBase hKinds hOk

theorem Move.oldReplies (hG : GrantGuard k move)
    (hNot : ∀ w sender senderGen call, move ≠ .grantReply w sender senderGen call) :
    OldReplies k.cap (move.apply k).cap := by
  have hExec : ∀ op, enabled k.cap op = true → NoReplyGrant k.cap op →
      (∀ pid sender gen, op ≠ .installReplyFor pid sender gen) →
      (∀ id scratch, op ≠ .teardown id scratch) →
      OldReplies k.cap (exec k.sys op).2.cap := by
    intro op hEnabled hGrant hInstall hLife
    refine (Tables.exec_writes (s := k.sys) hBase.tables op hEnabled hLife).oldReplies ?_
    intro c hMakes
    exact ReplyKinds.makes (s := k.sys) hKinds hEnabled hGrant hInstall hMakes
  cases move with
  | cap op =>
    refine hExec op hOk.2.1 hG hOk.2.2 ?_
    rintro id scratch rfl
    cases hOk.1
  | birth op id =>
    refine hExec op hOk.2 ?_ ?_ ?_
    · cases op <;> first | trivial | cases hOk.1
    · rintro pid sender gen rfl
      cases hOk.1
    · rintro id scratch rfl
      cases hOk.1
  | bury id scratch =>
    intro a hTyp
    rcases taskTeardown_records k.sys id scratch a with hNull | hSame
    · have hTyp : ((taskTeardown k.sys id scratch).cap.mem a).typ = .reply := hTyp
      rw [hNull] at hTyp
      cases hTyp
    · exact hSame
  | grantReply w sender senderGen call => exact absurd rfl (hNot w sender senderGen call)
  | consumeReply q =>
    exact Writes.oldReplies (P := fun _ => False) edits_capConsumeSlot.writes
      fun _ hNone => hNone.elim
  | _ =>
    intro a hTyp
    rw [(Move.sameCaps k _ rfl).mem]
    exact SameRecord.refl _

/-
  A reply capability that is held was held before, and a task
  that has just been born or buried holds none.
-/
theorem Move.holdsReply (hG : GrantGuard k move)
    (hDead : ∀ q c, k.state q = .dead → ¬ k.HoldsReply q c)
    (hNot : ∀ w sender senderGen call,
      move ≠ .grantReply w sender senderGen call) (hHeld : (move.apply k).HoldsReply q c) :
    (∃ c₀, k.HoldsReply q c₀ ∧ SameRecord c₀ c) ∧ (∀ op, move ≠ .birth op q) ∧
      ∀ scratch, move ≠ .bury q scratch := by
  have hOld := Move.oldReplies hBase hKinds hOk hG hNot
  rcases hHeld with ⟨space, hSpace, rfl, hTyp⟩
  have hSame := hOld _ hTyp
  have hBirth : ∀ op, move ≠ .birth op q := by
    rintro op rfl
    rcases Tables.exec_birth (s := k.sys) hBase.tables hOk.1 hOk.2 with ⟨source, hWrites, hOwn, _⟩
    have hTyp : ((exec k.sys op).2.cap.mem ⟨space, capslotReply⟩).typ = .reply := hTyp
    have hCreated : ((createTask k.cap q source).mem ⟨space, capslotReply⟩).typ = .reply := by
      rcases hWrites ⟨space, capslotReply⟩ with hSame | hNull | ⟨_, _, b, _, _, hCloned, hCopy⟩
      · exact (congrArg Capability.typ hSame.symm).trans hTyp
      · rw [hNull] at hTyp
        cases hTyp
      · simp only [cloned, decide_eq_true_eq] at hCloned
        exact absurd (hCopy.typ.symm.trans hTyp) hCloned.2.2.1
    rcases hBase.tables.createTask_slot q source (hOwn.symm.trans hSpace)
        (show capslotReplyEp < capslotReply by decide)
        (by decide) with
      hNull | ⟨hMem, hBefore⟩
    · rw [hNull] at hCreated
      cases hCreated
    · rw [hMem] at hCreated
      exact hDead q _ (creates_dead hOk.1 hOk.2) ⟨space, hBefore, rfl, hCreated⟩
  refine ⟨⟨_, ⟨space, ?_, rfl, ?_⟩, hSame⟩, hBirth, ?_⟩
  · rw [← hSpace]
    exact (Move.keepsSpace hOk hBirth).symm
  · exact hSame.typ.symm.trans hTyp
  rintro scratch rfl
  have hBefore := Move.keepsSpace hOk hBirth
  have hGone := Tables.taskTeardown_slot (s := k.sys)
    hBase.tables scratch (Nat.ne_of_gt hOk.1.1) hOk.2
    (hBefore.symm.trans hSpace)
    (show capslotReply < cnodeSize by decide)
  have hTyp : ((taskTeardown k.sys q scratch).cap.mem ⟨space, capslotReply⟩).typ = .reply := hTyp
  rw [hGone] at hTyp
  cases hTyp

end ReplyStep

section Calls

variable {k : Kernel} {t : Nat} {x y : Task} {move : Move}

namespace TaskStep

variable (hStep : TaskStep k t x move y) (hNot : ∀ op, move ≠ .birth op t)

include hStep hNot

theorem gen_eq : y.gen = x.gen := by
  cases hStep with
  | born => exact absurd rfl (hNot _)
  | _ => rfl

theorem tag_eq (hOther : ∀ sender senderGen call, move ≠ .grantReply t sender senderGen call) :
    y.tcb.replyTag = x.tcb.replyTag := by
  cases hStep with
  | born => exact absurd rfl (hNot _)
  | granted => exact absurd rfl (hOther _ _ _)
  | _ => rfl

theorem dead_of_dead
    (hOther : ∀ scratch, move ≠ .bury t scratch) (hDead : y.state = .dead) : x.state = .dead := by
  cases hStep with
  | born => exact absurd rfl (hNot _)
  | died => exact absurd rfl (hOther _)
  | same | fields | intendRecv | intendCall | intendNotif
  | intendWait | abortCall | told | granted => exact hDead
  | _ => cases hDead

end TaskStep

/- The task that begins a call. -/
def Move.caller : Move → Option Nat
  | .intendCall t _ _ _ _ _ => some t
  | _ => none

/- A call goes on, or it is the one being made. -/
theorem TaskStep.call_cases (hStep : TaskStep k t x move y) {n : Nat}
    (hCall : callOf y.tcb.inside = some n) :
    callOf x.tcb.inside = some n ∨ (n = k.nextCall ∧ move.caller = some t) := by
  cases hStep with
  | same | fields | died | told | granted | parked
  | parkedNotif | parkedWait => exact .inl hCall
  | intendCall =>
    right
    exact ⟨(Option.some.inj hCall).symm, rfl⟩
  | _ => cases hCall

/- Other moves leave the count and the record of calls alone. -/
theorem Move.calls_eq (move : Move) (hCall : move.caller = none)
    (hReply : ∀ q t, move ≠ .answer q t) : (move.apply k).nextCall = k.nextCall ∧
      (move.apply k).completed = k.completed := by
  have hWake : ∀ w f, (k.wakeNamed w f).nextCall = k.nextCall ∧
        (k.wakeNamed w f).completed = k.completed := by
    intro w f
    unfold wakeNamed
    split
    · exact ⟨rfl, rfl⟩
    · split <;> exact ⟨rfl, rfl⟩
  cases move with
  | intendCall => cases hCall
  | answer q t => exact absurd rfl (hReply q t)
  | grantReply =>
    unfold Move.apply Kernel.grantReply Kernel.granted
    dsimp only
    split <;> exact ⟨rfl, rfl⟩
  | unpark t =>
    change (unpublishLink k t).nextCall = _ ∧ (unpublishLink k t).completed = _
    unfold unpublishLink
    split
    · exact ⟨rfl, rfl⟩
    · split
      · exact ⟨rfl, rfl⟩
      · split <;> exact ⟨rfl, rfl⟩
    · exact ⟨rfl, rfl⟩
    · exact ⟨rfl, rfl⟩
  | destroyEp e =>
    change (destroyDynEndpoint k e).nextCall = _ ∧ (destroyDynEndpoint k e).completed = _
    unfold destroyDynEndpoint
    split
    · exact ⟨rfl, rfl⟩
    · exact hWake _ _
  | destroyNotif n =>
    change (destroyDynNotification k n).nextCall = _ ∧ (destroyDynNotification k n).completed = _
    unfold destroyDynNotification
    split
    · exact ⟨rfl, rfl⟩
    · exact hWake _ _
  | _ => exact ⟨rfl, rfl⟩

end Calls

/- A queue gains only the message that is sent to it. -/
theorem Move.queue_cases (hOk : move.Ok k)
    (hFits : ∀ e E, k.eps e = some E → E.q.Fits epQueueSlots) {E' : Endpoint} (hEp : (move.apply k).eps e = some E') :
    E'.q.Fits epQueueSlots ∧ ∀ m ∈ E'.queue,
        (∃ E, k.eps e = some E ∧ m ∈ E.queue) ∨ move = .enqueue e m := by
  have hPop : ∀ E : Endpoint, k.eps e = some E → 0 < E.q.count →
      ∀ m ∈ (E.q.pop epQueueSlots EpMsg.blank).toList epQueueSlots, m ∈ E.queue := by
    intro E hOld hSome m hMem
    unfold Endpoint.queue
    rw [Lib.Ring.toList_pop (hFits e E hOld) EpMsg.blank hSome]
    exact List.mem_cons_of_mem _ hMem
  cases move.epStep hOk hEp with
  | @same _ E _ hOld hQueue =>
    refine ⟨hQueue ▸ hFits e E hOld, fun m hMem => ?_⟩
    unfold Endpoint.queue at hMem
    rw [hQueue] at hMem
    exact .inl ⟨E, hOld, hMem⟩
  | made =>
    refine ⟨channel_fresh.fits, fun m hMem => ?_⟩
    cases hMem
  | @enqueued m E hOld hRoom =>
    refine ⟨(hFits e E hOld).push _ hRoom, fun m' hMem => ?_⟩
    simp only [Endpoint.queue, Lib.Ring.toList_push _ hRoom,
      List.mem_append, List.mem_singleton] at hMem
    rcases hMem with hMem | rfl
    · exact .inl ⟨E, hOld, hMem⟩
    · exact .inr rfl
  | @delivered w m r E hOld => exact ⟨hFits e E hOld, fun m hMem => .inl ⟨E, hOld, hMem⟩⟩
  | taken =>
    rcases hOk with ⟨m, E, hHere, hSome, _⟩
    have hEp : (k.take e).eps e = some E' := hEp
    simp only [Kernel.take, Kernel.modEp_eps, if_true, hHere,
      Option.map_some, Option.some.injEq] at hEp
    subst hEp
    exact ⟨(hFits e E hHere).pop _, fun m hMem => .inl ⟨E, hHere, hPop E hHere hSome m hMem⟩⟩
  | @received m r E hOld hSome =>
    exact ⟨(hFits e E hOld).pop _, fun m hMem => .inl ⟨E, hOld, hPop E hOld hSome m hMem⟩⟩

----
-- The Condition
----

/- The object names the current incarnation of `t`. -/
def Kernel.Answers (k : Kernel) (object t : Nat) : Prop :=
  object % 2 ^ 16 = t ∧ object / 2 ^ 16 = k.gen t

instance (k : Kernel) (object t : Nat) : Decidable (k.Answers object t) :=
  inferInstanceAs (Decidable (_ ∧ _))

/- The object of the reply capability that `q` holds. -/
def Kernel.replyObject (k : Kernel) (q : Nat) : Option Nat :=
  match (k.cap.tasks q).cspace with
  | none => none
  | some space =>
    let c := k.cap.mem ⟨space, capslotReply⟩
    if c.typ = .reply then some c.object else none

/-
  No reply capability names the incarnation of `t`, and none
  of its messages is queued.
-/
structure Kernel.Settled (k : Kernel) (t : Nat) : Prop where
  held : ∀ q < k.cap.maxTasks, k.state q ≠ .dead →
    (k.replyObject q).all (fun o => !decide (k.Answers o t)) = true
  queued : ∀ e < epIndexMax, ((k.eps e).all fun E =>
      E.queue.all fun m =>
        m.sender.all fun s => !decide (k.Answers (packTask s m.senderGen) t)) = true

/-
  A task calls only when it is settled, and no reply
  capability is granted.
-/
def RepliesSettled (k : Kernel) : KernelOp → Prop
  | .call cur _ _ _ _ _ _ _ => k.Settled cur
  | .cap op => NoReplyGrant k.cap op
  | _ => True

def SettledGuard (k : Kernel) : Move → Prop
  | .intendCall t _ _ _ _ _ => k.Settled t
  | .cap op => NoReplyGrant k.cap op
  | _ => True

theorem SettledGuard.grant (hG : SettledGuard k move) : GrantGuard k move := by
  cases move with
  | cap => exact hG
  | _ => trivial

theorem SettledGuard.caller (hG : SettledGuard k move) (hCaller : move.caller = some t) :
    k.Settled t := by
  cases move with cases hCaller
  | intendCall => exact hG

theorem Kernel.Settled.not_held (hSettled : k.Settled t) (hMax : q < k.cap.maxTasks)
    (hAlive : k.state q ≠ .dead) (hHeld : k.HoldsReply q c) : ¬ k.Answers c.object t := by
  rcases hHeld with ⟨space, hSpace, rfl, hTyp⟩
  have hObject : k.replyObject q = some (k.cap.mem ⟨space, capslotReply⟩).object := by
    simp only [replyObject, hSpace, hTyp, if_true]
  have hAll := hSettled.held q hMax hAlive
  rw [hObject] at hAll
  simpa using hAll

theorem Kernel.Settled.not_queued {s : Nat} (hSettled : k.Settled t) (hMax : e < epIndexMax)
    (hEp : k.eps e = some E) (hMem : m ∈ E.queue) (hSender : m.sender = some s) :
    ¬ k.Answers (packTask s m.senderGen) t := by
  have hAll := hSettled.queued e hMax
  rw [hEp] at hAll
  simp only [Option.all_some, List.all_eq_true] at hAll
  have hOne := hAll m hMem
  rw [hSender] at hOne
  simpa using hOne

/- A message of the running task names only the task itself. -/
theorem Sends.answers {cur : Nat} (hBase : Base k) (hSends : Sends k cur m)
    (hAnswers : k.Answers (packTask cur m.senderGen) t) : m.call = callOf (k.tcbs t).inside := by
  have hTask : cur = t := by
    have hLow := hAnswers.1
    have hMax := hSends.slot.2
    have hFew := hBase.few
    unfold packTask at hLow
    omega
  rw [← hTask]
  exact hSends.call

----
-- The Invariant
----

/- What names a task in a call is that call's request. -/
def Kernel.ForCall (k : Kernel) (object : Nat) (call : Option Nat) : Prop :=
  ∀ t n, k.Answers object t → callOf (k.tcbs t).inside = some n → call = some n

structure Replies (k : Kernel) : Prop where
  kinds : ReplyKinds k.cap
  dead : ∀ q c, k.state q = .dead → ¬ k.HoldsReply q c
  held : ∀ q c, k.HoldsReply q c → ∃ call,
    (k.tcbs q).replyTag = some ⟨q, k.gen q, call⟩ ∧ k.ForCall c.object call
  fits : ∀ e E, k.eps e = some E → E.q.Fits epQueueSlots
  queued : ∀ e E m s, k.eps e = some E → m ∈ E.queue → m.sender = some s →
    k.ForCall (packTask s m.senderGen) m.call

/- Calls are numbered apart, and each is completed once. -/
structure Numbered (k : Kernel) : Prop where
  fresh : ∀ t n, callOf (k.tcbs t).inside = some n → n < k.nextCall ∧ ∀ x ∈ k.completed, x.call ≠ n
  once : ∀ t t' n, callOf (k.tcbs t).inside = some n → callOf (k.tcbs t').inside = some n → t = t'
  done : ∀ x ∈ k.completed, x.call < k.nextCall ∧ x.tag = some ⟨x.server, x.serverGen, some x.call⟩
  nodup : (k.completed.map Completion.call).Nodup

theorem Numbered.keep {l : Kernel} (hNumbered : Numbered k) (hNext : l.nextCall = k.nextCall)
    (hCompleted : l.completed = k.completed) (hOld : ∀ t n, callOf (l.tcbs t).inside = some n →
      callOf (k.tcbs t).inside = some n) : Numbered l := by
  refine ⟨fun t n hCall => ?_, fun t t' n hCall hCall' => ?_, ?_, ?_⟩
  · rw [hNext, hCompleted]
    exact hNumbered.fresh t n (hOld t n hCall)
  · exact hNumbered.once t t' n (hOld t n hCall) (hOld t' n hCall')
  · rw [hNext, hCompleted]
    exact hNumbered.done
  · rw [hCompleted]
    exact hNumbered.nodup

section

variable (hBase : Base k)

include hBase

/- The message that a reply capability is installed for. -/
theorem Replies.repliesTo (hReplies : Replies k)
    (hTo : k.RepliesTo sender senderGen call) : k.ForCall (packTask sender senderGen) call := by
  rcases hTo with ⟨m, hSender, rfl, rfl, hSends | hNext⟩
  · intro t n hAnswers hCall
    rw [hSends.answers hBase hAnswers]
    exact hCall
  rcases hNext with ⟨e, E, hEp, hSome, rfl⟩
  have hMem : E.q.front ∈ E.queue := by
    unfold Endpoint.queue
    rw [Lib.Ring.toList_pop (hReplies.fits e E hEp) EpMsg.blank hSome]
    exact List.mem_cons_self
  exact hReplies.queued e E _ sender hEp hMem hSender

/- What the reply slots hold after an installation. -/
theorem grantReply_holds {w : Nat} (hHeld : (k.grantReply w sender senderGen call).HoldsReply q c) :
    (k.HoldsReply q c ∧ ((k.grantReply w sender senderGen call).tcbs
          q).replyTag = (k.tcbs q).replyTag) ∨
      (q = w ∧ c.object = packTask sender senderGen ∧ c.rights = Right.write ∧
        ((k.grantReply w sender senderGen call).tcbs q).replyTag = some ⟨w, k.gen w, call⟩) := by
  have hTasks := (sameTasks_capInstallReplyFor k.cap w sender senderGen).tasks
  rcases hHeld with ⟨space, hSpace, hMem, hTyp⟩
  unfold grantReply granted at hSpace hMem ⊢
  rcases capInstallReplyFor_cases k.cap w sender senderGen with
    ⟨hFail, hSame⟩ | ⟨hDone, space', serial, hOwn, hWrite⟩
  · rw [hFail] at hSpace hMem ⊢
    simp only [Bool.false_eq_true, if_false, setCap_cap] at hSpace hMem ⊢
    rw [hTasks] at hSpace
    rw [hSame] at hMem
    exact .inl ⟨⟨space, hSpace, hMem, hTyp⟩, rfl⟩
  rw [hDone] at hSpace hMem ⊢
  simp only [if_true, modTcb_cap, setCap_cap] at hSpace hMem ⊢
  rw [hTasks] at hSpace
  rw [hWrite] at hMem
  rcases eq_or_ne q w with rfl | hEq
  · obtain rfl := Option.some.inj (hSpace.symm.trans hOwn)
    rw [update_self] at hMem
    subst hMem
    exact .inr ⟨rfl, rfl, rfl, by simp⟩
  · rw [update_of_ne] at hMem
    · refine .inl ⟨⟨space, hSpace, hMem, hTyp⟩, ?_⟩
      simp [hEq]
    · intro hAddr
      rw [Addr.mk.injEq] at hAddr
      exact hEq (hBase.tables.own q w space hSpace (hAddr.1 ▸ hOwn))

/- The reply capability that a reply goes through. -/
theorem Kernel.MayAnswer.holds (hCall : k.canCall q = true) (hMay : k.MayAnswer q t) :
    ∃ c, k.HoldsReply q c ∧ k.Answers c.object t := by
  rcases canCall_iff.mp hCall with ⟨hSlot, hRun, _⟩
  rcases hMay with ⟨c, hCap, hTask, hGen⟩
  rcases Option.map_eq_some_iff.mp hCap with ⟨a, hLook, rfl⟩
  rcases hBase.tables.capLookup_eq_some (hSlot.running (by rw [hRun]; decide)) hLook with
    ⟨hOwns, hReply, _, _, _, hTyp⟩
  refine ⟨_, ⟨a.space, hOwns.space, ?_, hTyp _ rfl⟩, hTask, hGen⟩
  rw [← hReply]

theorem Numbered.answer (hReplies : Replies k)
    (hNumbered : Numbered k) (hOk : (Move.answer q t).Ok k) : Numbered (k.answer q t) := by
  have hEnded : callOf ((k.answer q t).tcbs t).inside = none := by
    simp [Kernel.answer, callOf]
  have hOld : ∀ i n, callOf ((k.answer q t).tcbs i).inside = some n →
      i ≠ t ∧ callOf (k.tcbs i).inside = some n := by
    intro i n hCall
    constructor
    · rintro rfl
      rw [hEnded] at hCall
      cases hCall
    · rcases ((Move.answer q t).taskStep hOk i).call_cases hCall with hBefore | ⟨_, hMove⟩
      · exact hBefore
      · cases hMove
  have hCompleted : (k.answer q t).completed = (k.logReply q t).completed := rfl
  cases hInside : callOf (k.tcbs t).inside with
  | none =>
    have hSame : (k.answer q t).completed = k.completed := by
      rw [hCompleted]
      simp only [Kernel.logReply, hInside]
    exact hNumbered.keep rfl hSame fun i n hCall => (hOld i n hCall).2
  | some m =>
    have hMore : (k.answer q t).completed = ⟨m, q, k.gen q, (k.tcbs q).replyTag⟩ ::
          k.completed := by
      rw [hCompleted]
      simp only [Kernel.logReply, hInside]
    have hFresh := hNumbered.fresh t m hInside
    have hTag : (k.tcbs q).replyTag = some ⟨q, k.gen q, some m⟩ := by
      rcases hOk.2.2.2.2.holds hBase hOk.1 with ⟨c, hHeld, hAnswers⟩
      rcases hReplies.held q c hHeld with ⟨call, hTag, hFor⟩
      rw [hTag, hFor t m hAnswers hInside]
    refine ⟨fun i n hCall => ?_, fun i j n hI hJ =>
      hNumbered.once i j n (hOld i n hI).2 (hOld j n hJ).2, ?_, ?_⟩
    · rcases hOld i n hCall with ⟨hNe, hBefore⟩
      have hOther := hNumbered.fresh i n hBefore
      rw [hMore]
      refine ⟨hOther.1, ?_⟩
      intro x hx
      rcases List.mem_cons.mp hx with rfl | hx
      · rintro rfl
        exact hNe (hNumbered.once i t m hBefore hInside)
      · exact hOther.2 x hx
    · rw [hMore]
      intro x hx
      rcases List.mem_cons.mp hx with rfl | hx
      · exact ⟨hFresh.1, hTag⟩
      · exact hNumbered.done x hx
    · rw [hMore, List.map_cons, List.nodup_cons]
      refine ⟨?_, hNumbered.nodup⟩
      intro hMem
      rcases List.mem_map.mp hMem with ⟨x, hx, hEq⟩
      exact hFresh.2 x hx hEq

end

section Step

variable {k : Kernel} {move : Move} (hBase : Base k) (hOk : move.Ok k)

include hOk

/- A call that a name refers to was there before the move. -/
theorem Move.forCall {object : Nat} (hFor : k.ForCall object call)
    (hNew : ∀ t, move.caller = some t → ¬ k.Answers object t) :
    (move.apply k).ForCall object call := by
  intro t n hAnswers hCall
  have hStep := move.taskStep hOk t
  have hBirth : ∀ op, move ≠ .birth op t := by
    rintro op rfl
    have hNone : (((Move.birth op t).apply k).tcbs t).inside =
        none := by
      simp [Move.apply, resetTask]
    rw [hNone] at hCall
    cases hCall
  have hGen : (move.apply k).gen t = k.gen t := hStep.gen_eq hBirth
  have hBefore : k.Answers object t := ⟨hAnswers.1, hAnswers.2.trans hGen⟩
  rcases hStep.call_cases hCall with hOld | ⟨_, hCaller⟩
  · exact hFor t n hBefore hOld
  · exact absurd hBefore (hNew t hCaller)

include hBase

namespace Replies

variable (hReplies : Replies k) (hG : SettledGuard k move)

include hReplies hG

theorem queued_move {s : Nat}
    (hEp : (move.apply k).eps e = some E) (hMem : m ∈ E.queue) (hSender : m.sender = some s) :
    (move.apply k).ForCall (packTask s m.senderGen) m.call := by
  rcases (Move.queue_cases hOk hReplies.fits hEp).2 m hMem with ⟨E₀, hOld, hThere⟩ | rfl
  · refine Move.forCall hOk (hReplies.queued e E₀ m s hOld hThere hSender) ?_
    intro t hCaller
    have hMax := hBase.eps e (by rw [hOld]; rfl)
    exact (hG.caller hCaller).not_queued hMax hOld hThere hSender
  · rcases hOk.2 with ⟨cur, hSends⟩
    have hCur : s = cur := Option.some.inj (hSender.symm.trans hSends.sender)
    subst hCur
    intro t n hAnswers hCall
    rw [hSends.answers hBase hAnswers]
    exact hCall

theorem held_move (hHeld : (move.apply k).HoldsReply q c) :
    ∃ call, ((move.apply k).tcbs q).replyTag = some ⟨q, (move.apply k).gen q, call⟩ ∧
      (move.apply k).ForCall c.object call := by
  have hStep := move.taskStep hOk q
  by_cases hGrant : ∃ w sender senderGen call, move = .grantReply w sender senderGen call
  · rcases hGrant with ⟨w, sender, senderGen, call, rfl⟩
    have hGen : ((Move.grantReply w sender senderGen
        call).apply k).gen q = k.gen q := hStep.gen_eq nofun
    rw [hGen]
    rcases grantReply_holds hBase hHeld with ⟨hBefore, hTag⟩ | ⟨rfl, hObject, _, hTag⟩
    · rcases hReplies.held q c hBefore with ⟨call', hOld, hFor⟩
      exact ⟨call', hTag.trans hOld, Move.forCall hOk hFor nofun⟩
    · refine ⟨call, hTag, ?_⟩
      rw [hObject]
      exact Move.forCall hOk (hReplies.repliesTo hBase hOk.2.2.2) nofun
  · push Not at hGrant
    rcases Move.holdsReply hBase hReplies.kinds hOk hG.grant hReplies.dead hGrant hHeld with
      ⟨⟨c₀, hBefore, hSame⟩, hBirth, _⟩
    rcases hReplies.held q c₀ hBefore with ⟨call, hOld, hFor⟩
    have hGen : (move.apply k).gen q = k.gen q := hStep.gen_eq hBirth
    have hTag := hStep.tag_eq hBirth (hGrant q)
    rw [hGen, hSame.object]
    refine ⟨call, hTag.trans hOld, ?_⟩
    refine Move.forCall hOk hFor ?_
    intro t hCaller
    have hAlive : k.state q ≠ .dead := fun hDead => hReplies.dead q c₀ hDead hBefore
    exact (hG.caller hCaller).not_held (hBase.tables.live q hAlive).2 hAlive hBefore

theorem dead_move (hDead : (move.apply k).state q = .dead) : ¬ (move.apply k).HoldsReply q c := by
  intro hHeld
  have hStep := move.taskStep hOk q
  by_cases hGrant : ∃ w sender senderGen call, move = .grantReply w sender senderGen call
  · rcases hGrant with ⟨w, sender, senderGen, call, rfl⟩
    have hBefore := hStep.dead_of_dead nofun nofun hDead
    rcases grantReply_holds hBase hHeld with ⟨hOld, _⟩ | ⟨rfl, _⟩
    · exact hReplies.dead q c hBefore hOld
    · exact hOk.2.1 hBefore
  · push Not at hGrant
    rcases Move.holdsReply hBase hReplies.kinds hOk hG.grant hReplies.dead hGrant hHeld with
      ⟨⟨c₀, hOld, _⟩, hBirth, hBury⟩
    exact hReplies.dead q c₀ (hStep.dead_of_dead hBirth hBury hDead) hOld

theorem kinds_move : ReplyKinds (move.apply k).cap := by
  by_cases hGrant : ∃ w sender senderGen call, move = .grantReply w sender senderGen call
  · rcases hGrant with ⟨w, sender, senderGen, call, rfl⟩
    have hMem : ((Move.grantReply w sender senderGen call).apply k).cap.mem =
        (capInstallReplyFor k.cap w sender senderGen).2.mem := by
      unfold Move.apply grantReply granted
      dsimp only
      split <;> rfl
    intro a
    rw [hMem]
    rcases capInstallReplyFor_cases k.cap w sender senderGen
      with ⟨_, hSame⟩ | ⟨_, space, serial, hOwn, hWrite⟩
    · rw [hSame]
      exact hReplies.kinds a
    rw [hWrite]
    by_cases hEq : a = ⟨space, capslotReply⟩
    · subst hEq
      rw [update_self]
      intro _
      have hPos := (hBase.tables.space w space hOwn).1
      exact ⟨Nat.ne_of_gt hPos, rfl⟩
    · rw [update_of_ne hEq]
      exact hReplies.kinds a
  · push Not at hGrant
    exact hReplies.kinds.keep (Move.oldReplies hBase hReplies.kinds hOk hG.grant hGrant)

theorem after : Replies (move.apply k) where
  kinds := hReplies.kinds_move hBase hOk hG
  dead := fun _ _ hDead => hReplies.dead_move hBase hOk hG hDead
  held := fun _ _ hHeld => hReplies.held_move hBase hOk hG hHeld
  fits := fun _ _ hEp => (Move.queue_cases hOk hReplies.fits hEp).1
  queued := fun _ _ _ _ hEp hMem hSender => hReplies.queued_move hBase hOk hG hEp hMem hSender

end Replies

theorem Numbered.after (hReplies : Replies k) (hNumbered : Numbered k) :
    Numbered (move.apply k) := by
  by_cases hReply : ∃ q t, move = .answer q t
  · rcases hReply with ⟨q, t, rfl⟩
    exact hNumbered.answer hBase hReplies hOk
  push Not at hReply
  have hCalls : ∀ t n, callOf ((move.apply k).tcbs t).inside = some n →
      callOf (k.tcbs t).inside = some n ∨ (n = k.nextCall ∧ move.caller = some t) :=
    fun t n hCall => (move.taskStep hOk t).call_cases hCall
  cases hMade : move.caller with
  | some t =>
    cases move with cases hMade
    | intendCall =>
    refine ⟨?_, ?_, ?_, hNumbered.nodup⟩
    · intro i n hCall
      rcases hCalls i n hCall with hOld | ⟨rfl, _⟩
      · have hFresh := hNumbered.fresh i n hOld
        exact ⟨Nat.lt_succ_of_lt hFresh.1, hFresh.2⟩
      · exact ⟨Nat.lt_succ_self _, fun x hx => Nat.ne_of_lt (hNumbered.done x hx).1⟩
    · intro i j n hI hJ
      rcases hCalls i n hI with hOld | ⟨hNew, hCaller⟩ <;>
        rcases hCalls j n hJ with hOld' | ⟨hNew', hCaller'⟩
      · exact hNumbered.once i j n hOld hOld'
      · have hLt := (hNumbered.fresh i n hOld).1
        omega
      · have hLt := (hNumbered.fresh j n hOld').1
        omega
      · exact Option.some.inj (hCaller.symm.trans hCaller')
    · intro x hx
      have hDone := hNumbered.done x hx
      exact ⟨Nat.lt_succ_of_lt hDone.1, hDone.2⟩
  | none =>
    rcases Move.calls_eq (k := k) move hMade hReply with ⟨hNext, hCompleted⟩
    refine hNumbered.keep hNext hCompleted ?_
    intro t n hCall
    rcases hCalls t n hCall with hBefore | ⟨_, hCaller⟩
    · exact hBefore
    · rw [hMade] at hCaller
      cases hCaller

end Step

----
-- Main Result
----

theorem settled_permits {op : KernelOp}
    (hCond : RepliesSettled k op) : KernelPermits SettledGuard k op := by
  cases op with
  | cap =>
    simp only [KernelPermits]
    split
    · trivial
    · exact hCond
  | call =>
    intro e inv serial _ inv' rep
    refine ⟨hCond, ?_⟩
    intro E w data _ _ _ k'
    trivial
  | publish => constructor <;> simp [SettledGuard]
  | _ => simp [KernelPermits, SendPermits, RecvPermits, SettledGuard, NoReplyGrant]

theorem bootCap_noReply (cfg : BootConfig) (a : Addr) : ((bootCap cfg).mem a).typ ≠ .reply := by
  have hRoot : ∀ slot, (rootCnode cfg.nic slot).typ ≠ .reply := by
    intro slot
    unfold rootCnode
    split
    case h_18 => split <;> simp [primordial, Capability.nullify]
    all_goals simp [primordial, Capability.nullify]
  have hWrites : Writes (fun c => c.typ ≠ .reply) (preBoot cfg) (bootCap cfg) := by
    have hBirth : Writes (fun c => c.typ ≠ .reply)
        (preBoot cfg) (createTask (preBoot cfg) 0 .kernel) := by
      refine (Tables.writes_createTask ?_ 0 .kernel).mono ?_
      · exact preBoot_tables cfg
      intro c hBorn hTyp
      unfold BirthCap at hBorn
      rw [hTyp] at hBorn
      simp at hBorn
    refine (hBirth.trans (writes_update rfl (.inr ?_))).trans (writes_update rfl (.inr ?_))
    · decide
    · decide
  rcases hWrites a with hSame | hNull | hNew
  · rw [hSame]
    simp only [preBoot]
    split
    · exact hRoot a.slot
    · decide
  · rw [hNull]
    decide
  · exact hNew

theorem numbered_boot (cfg : BootConfig) : Numbered (kernelBoot cfg) := by
  constructor
  · nofun
  · nofun
  · nofun
  · exact List.nodup_nil

theorem replies_run {cfg : BootConfig} (hRun : KernelRun RepliesSettled (kernelBoot cfg) k) :
    Base k ∧ Replies k ∧ Numbered k := by
  refine KernelRun.invariant (G := SettledGuard) (fun k => Replies k ∧ Numbered k) ?_ ?_ ?_ hRun ?_
  · intro k move hOpen
    cases move with
    | cap | intendCall => cases hOpen
    | _ => trivial
  · intro k op _ _ _ hCond
    exact settled_permits hCond
  · intro k move hBase hBoth hOk hG
    exact ⟨hBoth.1.after hBase hOk hG, hBoth.2.after hBase hOk hBoth.1⟩
  have hNone : ∀ q c, ¬ (kernelBoot cfg).HoldsReply q c := by
    rintro q c ⟨space, _, rfl, hTyp⟩
    exact bootCap_noReply cfg _ hTyp
  have hQueue : ∀ e E, (kernelBoot cfg).eps e = some E → E = Endpoint.fresh := by
    intro e E hEp
    simp only [kernelBoot] at hEp
    split at hEp
    · exact (Option.some.inj hEp).symm
    · cases hEp
  refine ⟨⟨?_, ?_, ?_, ?_, ?_⟩, numbered_boot cfg⟩
  · intro a hTyp
    exact absurd hTyp (bootCap_noReply cfg a)
  · intro q c _
    exact hNone q c
  · intro q c hHeld
    exact absurd hHeld (hNone q c)
  · intro e E hEp
    rw [hQueue e E hEp]
    exact channel_fresh.fits
  · intro e E m s hEp hMem
    rw [hQueue e E hEp] at hMem
    cases hMem

/- Task 2 replies to the call of task 1 that it received. -/
def replyAtFour : List KernelOp := callAtFour ++ [.replyTo 2 30 [9] 1 none]

/-
  Task 1 sends a message on endpoint 4, which task 2 receives,
  and then calls on endpoint 5, where nobody has received the
  request.
-/
def sendThenCall : List KernelOp :=
  [.cap (.createTask 1 .kernel), .cap (.installFromRoot 1 30 13 4),
    .cap (.installFromRoot 1 31 13 5),
    .cap (.createTask 2 .kernel),
    .cap (.installFromRoot 2 30 13 4),
    .send 1 30 [7] 1 256, .recv 2 30 256 256,
    .call 1 31 [8] 1 4096 none none 256,
    .publish 1 ⟨0, 0⟩ 256 false]

end Horus
