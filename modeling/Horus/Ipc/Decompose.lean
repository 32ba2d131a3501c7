import Horus.Ipc.Moves

/-
  Every operation of the kernel is a run of moves.
-/

namespace Horus

open Kernel

variable {cur t q dest e room len buf slot maxLen n : Nat} {E : Endpoint}
    {c : CapState} {k' : Kernel} {m : EpMsg} {user : List UInt8} {inv : IpcInvoker}

/-
  The capability tables are in order, a task that is about to
  block has a capability space, and objects have indices in
  their tables.
-/
structure Base (k : Kernel) : Prop where
  tables : Tables k.cap
  regions : RegionsFit k.obj
  pending : ∀ t, (k.tcbs t).pendingBlock.isSome = true → k.Slot t ∧ (k.cap.tasks t).cspace ≠ none
  eps : ∀ e, (k.eps e).isSome = true → e < epIndexMax
  notifs : ∀ n, (k.notifs n).isSome = true → n < notifIndexMax
  few : k.cap.maxTasks ≤ 256

theorem Kernel.canCall_iff {k : Kernel} : k.canCall cur = true ↔
      k.Slot cur ∧ k.state cur = .runnable ∧ (k.tcbs cur).pendingBlock = none := by
  simp [canCall, Slot, and_assoc]

theorem Kernel.parkedReceiver_eq_some {k : Kernel} {w : Nat} : k.parkedReceiver E = some w ↔
      E.blockedWaiter = some w ∧ k.Slot w ∧ k.state w = .blockedIpc ∧ E.q.count = 0 := by
  simp [parkedReceiver, Option.filter_eq_some_iff, inRange_eq_some, Slot, and_assoc]

theorem Kernel.parkedWaiter_eq_some
    {k : Kernel} {N : Notification} {w : Nat} : k.parkedWaiter N = some w ↔
      N.blockedWaiter = some w ∧ k.Slot w ∧ k.state w = .blockedNotif := by
  simp [parkedWaiter, Option.filter_eq_some_iff, inRange_eq_some, Slot, and_assoc]

theorem Kernel.Slot.running {k : Kernel} (hSlot : k.Slot t)
    (hAlive : k.state t ≠ .dead) : k.cap.running t = true := by
  simp only [CapState.running, decide_eq_true_eq]
  exact ⟨hSlot.2, hAlive⟩

/- A change of capabilities that leaves the tasks alone. -/
theorem Kernel.setCap_state {k : Kernel} (hSame : SameTasks k.cap c) (t : Nat) :
    (k.setCap c).state t = k.state t := by
  simp [state, hSame.tasks]

theorem Kernel.setCap_slot {k : Kernel} (hSame : SameTasks k.cap c) (t : Nat) :
    (k.setCap c).Slot t ↔ k.Slot t := by
  simp [Slot, hSame.maxTasks]

section Granted

variable (k : Kernel) (w sender senderGen i : Nat) (call : Option Nat)

@[simp] theorem Kernel.grantReply_tasks : (k.grantReply w sender senderGen call).cap.tasks =
      k.cap.tasks := by
  unfold grantReply granted
  split <;>
    exact (sameTasks_capInstallReplyFor k.cap w sender senderGen).tasks

@[simp] theorem Kernel.grantReply_maxTasks : (k.grantReply w sender senderGen call).cap.maxTasks =
      k.cap.maxTasks := by
  unfold grantReply granted
  split <;>
    exact (sameTasks_capInstallReplyFor k.cap w sender senderGen).maxTasks

@[simp] theorem Kernel.grantReply_state :
    (k.grantReply w sender senderGen call).state i = k.state i := by
  simp [state]

@[simp] theorem Kernel.grantReply_gen : (k.grantReply w sender senderGen call).gen i = k.gen i := by
  simp [gen]

@[simp] theorem Kernel.grantReply_eps : (k.grantReply w sender senderGen call).eps = k.eps := by
  unfold grantReply granted
  split <;> rfl

/- Only what is remembered of the message changes. -/
theorem Kernel.grantReply_tcbs :
    ∃ tag, (k.grantReply w sender senderGen call).tcbs i = { k.tcbs i with replyTag := tag } := by
  unfold grantReply granted
  split
  · by_cases hEq : i = w
    · exact ⟨some ⟨w, k.gen w, call⟩, by simp [hEq]⟩
    · exact ⟨(k.tcbs i).replyTag, by simp [hEq]⟩
  · exact ⟨(k.tcbs i).replyTag, rfl⟩

theorem Kernel.grantReply_tcbs_of_ne {w i : Nat} (hNe : i ≠ w) :
    (k.grantReply w sender senderGen call).tcbs i = k.tcbs i := by
  unfold grantReply granted
  split
  · simp [hNe]
  · rfl

/- A receiver that installs its own capability. -/
theorem Kernel.grantOwnReply_eq {k : Kernel} {w sender : Nat}
    (hSlot : k.Slot w) (hSender : k.Slot sender) : k.grantOwnReply w sender senderGen call =
      k.grantReply w sender senderGen call := by
  have hZero : ¬ (w = 0 ∨ k.cap.maxTasks ≤ w) := by
    unfold Slot at hSlot
    omega
  have hZero' : ¬ (sender = 0 ∨ k.cap.maxTasks ≤ sender) := by
    unfold Slot at hSender
    omega
  have hLow : ¬ capslotReply < kernelReservedCaps := by decide
  unfold grantOwnReply grantReply capInstallObject capInstallReplyFor
  simp only [hZero, hZero', hLow, if_false, false_or]

/- Taking the message and installing the capability commute. -/
theorem Kernel.receive_grantReply (e : Nat) (m : EpMsg) (r : Receipt) :
    (k.receive e m r).grantReply w sender senderGen call =
      (k.grantReply w sender senderGen call).receive e m r := by
  unfold grantReply granted
  simp only [receive, modEp_cap]
  split <;> rfl

end Granted

/- The slot that a user task replies through. -/
theorem Kernel.replyCap_eq_some {k : Kernel} {c : Capability}
    (hUser : q ≠ 0) : k.replyCap q = some c ↔ ∃ space, (k.cap.tasks q).cspace = some space ∧
        capslotReply < (k.cap.tasks q).cspaceSz ∧ k.cap.mem ⟨space, capslotReply⟩ = c ∧
        c.typ = .reply ∧ hasRights c.rights Right.write = true ∧ c.serial ≠ 0 := by
  have hSlot : ¬ cnodeSize ≤ capslotReply := by decide
  unfold replyCap capLookup capCurrentCspace
  rw [if_neg hSlot]
  cases hSpace : (k.cap.tasks q).cspace with
  | none => simp [hUser]
  | some space =>
  by_cases hSize : (k.cap.tasks q).cspaceSz ≤ capslotReply
  · simp [hSize, Nat.not_lt.mpr hSize]
  simp only [hSize, if_false, Option.map_eq_some_iff]
  constructor
  · rintro ⟨a, hFound, rfl⟩
    rcases rustCapLookupTyped_eq_some hFound with ⟨hLookup, hTyp⟩
    rw [rustCapLookup_eq_some_iff] at hLookup
    rcases hLookup with ⟨hHere, hNumber, hIn, _, _, hRights, hSerial⟩
    rcases a with ⟨there, slot⟩
    cases hHere
    cases hNumber
    exact ⟨_, rfl, hIn, rfl, hTyp _ rfl, hRights, hSerial⟩
  · rintro ⟨_, hHere, hIn, rfl, hTyp, hRights, hSerial⟩
    cases hHere
    unfold rustCapLookupTyped
    rw [(rustCapLookup_eq_some_iff _ _ _ _ _ ⟨space, capslotReply⟩).mpr
      ⟨rfl, rfl, hIn, Nat.lt_of_not_le hSlot, by rw [hTyp]; nofun, hRights, hSerial⟩]
    simp [hTyp]

/- Filling empty slots leaves reply capabilities alone. -/
theorem Kernel.MayAnswer.congr {k : Kernel} (hMay : k.MayAnswer q t) (hUser : q ≠ 0)
    (hSame : SameTasks k.cap k'.cap)
    (hMem : ∀ a, (k.cap.mem a).typ ≠ .null → k'.cap.mem a = k.cap.mem a) : k'.MayAnswer q t := by
  rcases hMay with ⟨c, hCap, hTask, hGen⟩
  refine ⟨c, ?_, hTask, ?_⟩
  · rcases (replyCap_eq_some hUser).mp hCap with ⟨space, hSpace, hSize, hHere, hTyp, hRest⟩
    refine (replyCap_eq_some hUser).mpr ⟨space, ?_, ?_, ?_, hTyp, hRest⟩
    · rw [hSame.tasks]; exact hSpace
    · rw [hSame.tasks]; exact hSize
    · rw [hMem, hHere]
      rw [hHere, hTyp]
      nofun
  · rw [gen, hSame.tasks]
    exact hGen

theorem capReplyMintInto_mem {s : CapState} {pid invSlot invSerial epIndex token : Nat}
    {rights : Rights} {a : Addr} (hUsed : (s.mem a).typ ≠ .null) :
    (capReplyMintInto s pid invSlot invSerial epIndex dest rights token).2.mem a = s.mem a := by
  simp only [capReplyMintInto]
  repeat' split
  all_goals try rfl
  unfold CapState.commit
  split
  · rfl
  rename_i mem next hMint
  rcases rustCapReplyMint_eq_some hMint with ⟨hResult, _, _, _, hNull, _⟩
  cases hResult
  apply Function.update_of_ne
  rintro rfl
  exact hUsed hNull

theorem sends_message {k : Kernel} (hCur : k.Slot cur) (data : List UInt8) (inv : IpcInvoker) :
    Sends k cur (k.message cur data inv) where
  slot := hCur
  sender := rfl
  senderGen := if_pos hCur
  call := rfl

theorem Sends.congr {k : Kernel} (hSends : Sends k cur m) (hMax : k'.cap.maxTasks = k.cap.maxTasks)
    (hGen : k'.gen cur = k.gen cur) (hInside : (k'.tcbs cur).inside = (k.tcbs cur).inside) :
    Sends k' cur m where
  slot := ⟨hSends.slot.1, by rw [hMax]; exact hSends.slot.2⟩
  sender := hSends.sender
  senderGen := by rw [hGen]; exact hSends.senderGen
  call := by rw [hInside]; exact hSends.call

theorem Kernel.Next.congr {k : Kernel}
    (hNext : k.Next e m) (hEps : k'.eps = k.eps) : k'.Next e m := by
  unfold Next
  rw [hEps]
  exact hNext

/- Nothing of task `t` differs. -/
structure SameTask (t : Nat) (k k' : Kernel) : Prop where
  state : k'.state t = k.state t
  tcb : k'.tcbs t = k.tcbs t

theorem SameTask.refl (t : Nat) (k : Kernel) : SameTask t k k := ⟨rfl, rfl⟩

theorem handOff_sameTask {k : Kernel} {w : Nat} (hNe : t ≠ w) :
    SameTask t k (handOff k cur e E w user len inv room).2 := by
  unfold handOff
  split
  · exact SameTask.refl t k
  dsimp only
  split
  · exact SameTask.refl t k
  have hTold : ∀ n, SameTask t k ((k.patch w n).tell e w cur inv) := by
    intro n
    constructor
    · rfl
    · simp [Kernel.tell, patch, hNe]
  split
  · split
    · constructor
      · simp [deliver, hNe, (hTold _).state]
      · simp [deliver, hNe, grantReply_tcbs_of_ne, (hTold _).tcb]
    · constructor
      · simp [(hTold _).state]
      · simp [hNe, grantReply_tcbs_of_ne, (hTold _).tcb]
  · constructor
    · simp [deliver, patch, hNe]
    · simp [deliver, patch, hNe]

/- A send touches no task but the one it hands over to. -/
theorem sysIpcSend_sameTask {k : Kernel}
    (hOther : ∀ E, k.eps e = some E → k.parkedReceiver E ≠ some t) :
    SameTask t k (sysIpcSend k cur e user len inv room).2 := by
  unfold sysIpcSend
  split
  · exact SameTask.refl t k
  rename_i E hEp
  split
  · rename_i w hWaiter
    apply handOff_sameTask
    rintro rfl
    exact hOther E hEp hWaiter
  split
  · exact SameTask.refl t k
  split
  · exact SameTask.refl t k
  · exact ⟨rfl, rfl⟩

section Decompose

variable {G : Kernel → Move → Prop} (hFree : Unguarded G) {k : Kernel}

include hFree

----
-- Sending
----

theorem handOff_run {w : Nat} (hCur : k.Slot cur) (hEp : k.eps e = some E)
    (hWaiter : k.parkedReceiver E = some w)
    (hPermits : ∀ data, copyFromUser user (handOffLen k w len) = some data →
      ∀ k', G k' (.deliver e w (k.message cur (user.take len) inv)
          (handOffReceipt k cur E w inv data room))) :
    MoveRun G k (handOff k cur e E w user len inv room).2 := by
  rcases parkedReceiver_eq_some.mp hWaiter with ⟨hNamed, hSlot, hBlocked, hEmpty⟩
  have hSends := sends_message hCur (user.take len) inv
  unfold handOff
  split
  · exact moveRun_refl
  rename_i data hCopy
  dsimp only
  split
  · exact moveRun_refl
  refine moveRun_step (.patch w data.length) trivial (hFree _ _ rfl) ?_
  split
  · rename_i hRecv
    refine moveRun_step (.tell e w cur inv) ⟨hBlocked, ?_⟩ (hFree _ _ rfl) ?_
    · simpa [Move.apply, patch] using hRecv
    refine moveRun_step (.grantReply w cur (k.gen cur) (k.message cur (user.take len) inv).call) ?_
      (hFree _ _ rfl) ?_
    · refine ⟨hSlot, ?_, hCur, _, hSends.sender,
        hSends.senderGen, rfl, .inl (hSends.congr rfl rfl ?_)⟩
      · exact ne_of_eq_of_ne hBlocked nofun
      · by_cases hEq : cur = w <;>
          simp [Move.apply, Kernel.tell, patch, hEq]
    split
    · have hTold : ((k.patch w data.length).tell e w cur inv).eps e =
            some (E.note (some cur) (k.gen cur) inv) := by
        simp [Kernel.tell, patch, hEp]
      refine moveRun_single (.deliver e w _ _) ⟨⟨E.note (some cur) (k.gen cur) inv, ?_, ?_⟩, ?_⟩
        (hPermits data hCopy _)
      · exact (congrFun (grantReply_eps _ _ _ _ _) e).trans hTold
      · rw [parkedReceiver_eq_some]
        simp only [Move.apply, Slot, grantReply_maxTasks, grantReply_state]
        exact ⟨hNamed, hSlot, hBlocked, hEmpty⟩
      · rcases grantReply_tcbs ((k.patch w data.length).tell e w cur inv) w cur (k.gen cur) w
          (k.message cur (user.take len) inv).call with
          ⟨tag, hTag⟩
        simp only [Move.apply, hTag]
        simp [Kernel.tell]
    · exact moveRun_refl
  · rename_i hCall
    refine moveRun_single (.deliver e w _ _) ⟨⟨E, hEp, ?_⟩, ?_⟩ (hPermits data hCopy _)
    · exact hWaiter
    · simpa [Move.apply, patch] using hCall

theorem sysIpcSend_run (hCur : k.Slot cur) (hPermits : SendPermits G k cur e user len inv room) :
    MoveRun G k (sysIpcSend k cur e user len inv room).2 := by
  unfold sysIpcSend
  split
  · exact moveRun_refl
  rename_i E hEp
  split
  · rename_i w hWaiter
    exact handOff_run hFree hCur hEp hWaiter (fun data hCopy => hPermits E w data hEp hWaiter hCopy)
  rename_i hNobody
  split
  · exact moveRun_refl
  rename_i hRoom
  split
  · exact moveRun_refl
  refine moveRun_single (.enqueue e _) ⟨⟨E, hEp, Nat.lt_of_not_le hRoom, hNobody⟩, cur, ?_⟩
    (hFree _ _ rfl)
  exact sends_message hCur _ inv

section

variable (hCall : k.canCall cur = true)

include hCall

/- A call is an intent, a send, and maybe its withdrawal. -/
theorem ipcCallCommon_run {recvSlot carrySlot : Option Nat}
    (hPermits : KernelPermits G k (.call cur slot user len buf recvSlot carrySlot room)) :
    MoveRun G k (ipcCallCommon k cur slot user len buf recvSlot carrySlot room).2 := by
  rcases canCall_iff.mp hCall with ⟨hSlot, hRun, _⟩
  unfold ipcCallCommon
  split
  · exact moveRun_refl
  rename_i e inv serial hLookup
  split
  · exact moveRun_refl
  rename_i inv' _
  split
  · exact moveRun_refl
  split
  · exact moveRun_refl
  rename_i rep hRep
  rcases hPermits e inv serial hLookup inv' rep with ⟨hIntend, hSend⟩
  refine moveRun_step (.intendCall cur rep buf recvSlot slot serial) ⟨hCall, hRep⟩ hIntend ?_
  have hSent := sysIpcSend_run hFree (k := k.intendCall cur rep buf recvSlot slot serial) hSlot
    hSend
  dsimp only
  split
  · refine hSent.trans (moveRun_single (.abortCall cur) ?_ (hFree _ _ rfl))
    have hCaller : SameTask cur (k.intendCall cur rep buf recvSlot slot serial)
        (sysIpcSend (k.intendCall cur rep buf recvSlot slot serial) cur e
          user len inv' room).2 := by
      apply sysIpcSend_sameTask
      intro E _ hWaiter
      have hBlocked := (parkedReceiver_eq_some.mp hWaiter).2.2.1
      rw [show (k.intendCall cur rep buf recvSlot slot
        serial).state cur = .runnable from hRun] at hBlocked
      cases hBlocked
    refine ⟨hCaller.state.trans hRun, ?_, ?_⟩
    · rw [hCaller.tcb]
      simp [intendCall]
    · rw [hCaller.tcb]
      simp [intendCall, callOf]
  · exact hSent

theorem sysIpcRecv_run (hPermits : RecvPermits G k cur e maxLen room) :
    MoveRun G k (sysIpcRecv k cur e maxLen room).2 := by
  rcases canCall_iff.mp hCall with ⟨hSlot, hRun, _⟩
  unfold sysIpcRecv
  split
  · exact moveRun_refl
  rename_i E hEp
  split
  · exact moveRun_refl
  rename_i hSome
  have hNext : k.Next e E.q.front := ⟨E, hEp, Nat.pos_of_ne_zero hSome, rfl⟩
  rcases hPermits _ hNext with ⟨hTake, hReceive⟩
  dsimp only
  split
  · rename_i hFault
    exact moveRun_single (.take e) ⟨_, hNext⟩ (hTake hFault)
  rename_i hFault
  have hReceive := hReceive (Bool.eq_false_of_not_eq_true hFault)
  split
  · exact moveRun_single (.receive e _ _) hNext (hReceive k)
  rename_i sender hSender
  rw [inRange_eq_some] at hSender
  have hOwn := grantOwnReply_eq (k := k.receive e E.q.front (recvReceipt k cur E.q.front maxLen))
    E.q.front.senderGen E.q.front.call hSlot hSender.2
  rw [hOwn, receive_grantReply]
  refine moveRun_step (.grantReply cur sender E.q.front.senderGen E.q.front.call)
    ⟨hSlot, ?_, hSender.2, E.q.front, hSender.1, rfl, rfl, .inr ⟨e, hNext⟩⟩ (hFree _ _ rfl) ?_
  · rw [hRun]; nofun
  · exact moveRun_single (.receive e _ _) (hNext.congr (grantReply_eps _ _ _ _ _)) (hReceive _)

theorem hIpcRecvBlock_run (hPermits : KernelPermits G k (.recvBlock cur slot buf maxLen room)) :
    MoveRun G k (hIpcRecvBlock k cur slot buf maxLen room).2 := by
  unfold hIpcRecvBlock
  split
  · exact moveRun_refl
  rename_i e hLookup
  split
  · exact moveRun_refl
  rename_i E hEp
  split
  · exact moveRun_single (.intendRecv cur e buf maxLen)
      ⟨hCall, by rw [hEp]; rfl⟩ (hPermits e hLookup).1
  · exact sysIpcRecv_run hFree hCall (hPermits e hLookup).2

theorem replyDeliver_run {data : List UInt8} (hSlot : k.Slot t) (hBlocked : k.state t = .blockedIpc)
    (hMode : (k.tcbs t).ipcRecvBlock = false) (hMay : k.MayAnswer cur t) :
    MoveRun G k (replyDeliver k cur t data).2 := by
  rcases canCall_iff.mp hCall with ⟨hCur, hRun, hIdle⟩
  have hNe : cur ≠ t := by
    rintro rfl
    rw [hRun] at hBlocked
    cases hBlocked
  unfold replyDeliver
  split
  · exact moveRun_refl
  refine moveRun_step (.patch t data.length) trivial (hFree _ _ rfl) ?_
  refine moveRun_step (.answer cur t) ⟨?_, hSlot, hBlocked, ?_, hMay⟩ (hFree _ _ rfl) ?_
  · refine canCall_iff.mpr ⟨hCur, hRun, ?_⟩
    simpa [Move.apply, patch, hNe] using hIdle
  · simpa [Move.apply, patch] using hMode
  refine moveRun_single (.consumeReply cur) ?_ (hFree _ _ rfl)
  change ((k.patch t data.length).answer cur t).cap.running cur = true
  apply Slot.running
  · exact hCur
  · simp [answer, patch, hNe, hRun]

theorem ipcReplyCommon_run {mint : Option (Rights × Nat)}
    (hPermits : KernelPermits G k (.replyTo cur slot user len mint)) :
    MoveRun G k (ipcReplyCommon k cur slot user len mint).2 := by
  rcases canCall_iff.mp hCall with ⟨hCur, hRun, hIdle⟩
  have hConsume : MoveRun G k (k.consumeReply cur) := by
    refine moveRun_single (.consumeReply cur) ?_ (hFree _ _ rfl)
    exact hCur.running (by rw [hRun]; nofun)
  unfold ipcReplyCommon
  split
  · exact moveRun_refl
  · exact moveRun_refl
  rename_i e c _ hCap
  dsimp only
  split
  · exact hConsume
  rename_i hTarget
  push Not at hTarget
  rcases hTarget with ⟨hPos, hMax, _, hGen⟩
  have hSlot : k.Slot (c.object % 2 ^ 16) := ⟨Nat.pos_of_ne_zero hPos, hMax⟩
  have hMay : k.MayAnswer cur (c.object % 2 ^ 16) := ⟨c, hCap, rfl, hGen.symm⟩
  split
  · split
    · exact moveRun_refl
    · exact hConsume
  rename_i hWaiting
  push Not at hWaiting
  rcases hWaiting with ⟨hBlocked, hMode⟩
  have hMode := Bool.eq_false_of_not_eq_true hMode
  split
  · exact moveRun_refl
  split
  · exact replyDeliver_run hFree hCall hSlot hBlocked hMode hMay
  rename_i rights token
  split
  · exact moveRun_refl
  rename_i dest _
  have hSame := sameTasks_capReplyMintInto k.cap (c.object % 2 ^ 16)
    (k.tcbs (c.object % 2 ^ 16)).ipcInvSlot
    (k.tcbs (c.object % 2 ^ 16)).ipcInvSerial e dest rights
    token
  have hMinted := moveRun_single (.cap (.replyMint (c.object % 2 ^ 16)
        (k.tcbs (c.object % 2 ^ 16)).ipcInvSlot
        (k.tcbs (c.object % 2 ^ 16)).ipcInvSerial e dest rights
        token))
    ⟨rfl, hSlot.running (by rw [hBlocked]; nofun), nofun⟩
    (hPermits k _ _ _ _ _ _ _)
  split
  · refine hMinted.trans (replyDeliver_run hFree ?_ ?_ ?_ hMode
      (hMay.congr (Nat.pos_iff_ne_zero.mp hCur.1) hSame
        (fun a hUsed => capReplyMintInto_mem hUsed)))
    · exact canCall_iff.mpr ⟨(setCap_slot hSame cur).mpr hCur,
          (setCap_state hSame cur).trans hRun, hIdle⟩
    · exact (setCap_slot hSame _).mpr hSlot
    · exact (setCap_state hSame _).trans hBlocked
  · exact hMinted

end

----
-- Publishing a Block
----

theorem completeInline_run (hSlot : k.Slot cur) (hPending : (k.tcbs cur).pendingBlock = some .ipc)
    (hEp : k.eps e = some E) (hSome : E.q.count ≠ 0)
    (hPermits : ∀ k', G k' (.receive e E.q.front (inlineReceipt k cur E.q.front room))) :
    MoveRun G k (completeInline k cur e E room) := by
  have hNext : k.Next e E.q.front := ⟨E, hEp, Nat.pos_of_ne_zero hSome, rfl⟩
  unfold completeInline
  dsimp only
  -- the message is taken last, where the updates commute
  refine moveRun_step (.patch cur (asUint32 (epDequeueLen E.q.front (inlineMax (k.tcbs cur)))))
    trivial (hFree _ _ rfl) ?_
  refine moveRun_step (.settle cur) ⟨hSlot, ?_⟩ (hFree _ _ rfl) ?_
  · simpa [Move.apply, patch] using hPending
  split
  · exact moveRun_single (.receive e _ _) hNext (hPermits _)
  rename_i sender hSender
  rw [inRange_eq_some] at hSender
  split
  · refine moveRun_step (.grantReply cur sender E.q.front.senderGen E.q.front.call)
      ⟨hSlot, ?_, hSender.2, E.q.front, hSender.1, rfl, rfl, .inr ⟨e, hNext⟩⟩ (hFree _ _ rfl) ?_
    · simp [Move.apply, settle]
    have hSwap := receive_grantReply ((k.patch cur (asUint32 (epDequeueLen E.q.front
          (inlineMax (k.tcbs cur))))).settle cur)
      cur sender E.q.front.senderGen E.q.front.call e
      E.q.front (inlineReceipt k cur E.q.front room)
    refine (congrArg (MoveRun G _) hSwap).mpr ?_
    exact moveRun_single (.receive e _ _) (hNext.congr (grantReply_eps _ _ _ _ _)) (hPermits _)
  · exact moveRun_single (.receive e _ _) hNext (hPermits _)

/- A block is published; if it is, the task is blocked. -/
def Published (G : Kernel → Move → Prop) (k : Kernel) (cur : Nat) (r : Bool × Kernel) : Prop :=
  MoveRun G k r.2 ∧ (r.1 = true → r.2.state cur = .blockedIpc ∨ r.2.state cur = .blockedNotif ∨
      r.2.state cur = .blockedWait)

section

variable (hSlot : k.Slot cur)

include hSlot

theorem published_drop (hPending : (k.tcbs cur).pendingBlock.isSome = true) :
    Published G k cur (false, k.dropBlock cur) :=
  ⟨moveRun_single (.dropBlock cur) ⟨hSlot, hPending⟩ (hFree _ _ rfl), nofun⟩

theorem publishIpc_run (hPending : (k.tcbs cur).pendingBlock = some .ipc)
    (hSaved : (k.tcbs cur).savedKsp.isSome = true) (hPermits : PublishPermits G k cur room) :
    Published G k cur (publishIpc k cur room) := by
  have hDrop := published_drop hFree hSlot (Option.isSome_of_eq_some hPending)
  unfold publishIpc
  split
  · exact hDrop
  rename_i e hOn
  split
  · exact hDrop
  rename_i E hEp
  split
  · rename_i hEmpty
    refine ⟨moveRun_single (.park cur e) ⟨hSlot, hPending, hOn, hSaved, E, hEp, hEmpty⟩
      (hPermits.park e hOn hPending), fun _ => .inl ?_⟩
    simp [park]
  · rename_i hSome
    refine ⟨completeInline_run hFree hSlot hPending hEp hSome (hPermits.receive e _ hOn hPending
        ⟨E, hEp, Nat.pos_of_ne_zero hSome, rfl⟩), nofun⟩

theorem publishWait_run (hPending : (k.tcbs cur).pendingBlock = some .wait)
    (hSaved : (k.tcbs cur).savedKsp.isSome = true) : Published G k cur (publishWait k cur) := by
  have hSettle : MoveRun G k ((k.patch cur 0).settleWait cur) := by
    refine moveRun_step (.patch cur 0) trivial (hFree _ _ rfl) ?_
    refine moveRun_single (.settleWait cur) ⟨hSlot, ?_⟩ (hFree _ _ rfl)
    simpa [Move.apply, patch] using hPending
  unfold publishWait
  split
  · exact ⟨hSettle, nofun⟩
  rename_i tid hOn
  split
  · exact ⟨hSettle, nofun⟩
  refine ⟨moveRun_single (.parkWait cur tid) ⟨hSlot, hPending, hSaved⟩ (hFree _ _ rfl),
    fun _ => .inr (.inr ?_)⟩
  simp [parkWait]

theorem publishNotif_run (hPending : (k.tcbs cur).pendingBlock = some .notif)
    (hSaved : (k.tcbs cur).savedKsp.isSome = true) (hPermits : PublishPermits G k cur room) :
    Published G k cur (publishNotif k cur) := by
  have hDrop := published_drop hFree hSlot (Option.isSome_of_eq_some hPending)
  unfold publishNotif
  split
  · exact hDrop
  rename_i n hOn
  split
  · exact hDrop
  rename_i N hNotif
  split
  · rename_i hNone
    refine ⟨moveRun_single (.parkNotif cur n) ⟨hSlot, hPending, hOn, hSaved, N, hNotif, hNone⟩
      (hPermits.parkNotif n hOn hPending), fun _ => .inr (.inl ?_)⟩
    simp [parkNotif]
  · refine ⟨moveRun_step (.setBadge n 0) ⟨N, hNotif, fun hNe => absurd rfl hNe⟩ (hFree _ _ rfl) ?_,
      nofun⟩
    refine moveRun_step (.patchBoth cur 0 N.pendingBadge.toNat) trivial (hFree _ _ rfl) ?_
    refine moveRun_single (.settleNotif cur) ⟨hSlot, ?_⟩ (hFree _ _ rfl)
    simpa [Move.apply, patchBoth, setBadge] using hPending

theorem ipcBlockSwitch_run {f : Frame} {alone : Bool}
    (hPending : (k.tcbs cur).pendingBlock.isSome = true)
    (hPermits : PublishPermits G (k.saveFrame cur f) cur room) :
    MoveRun G k (ipcBlockSwitch k cur f room alone) := by
  have hZero : ¬ (cur = 0 ∨ (k.saveFrame cur f).cap.maxTasks ≤ cur) := by
    change ¬ (cur = 0 ∨ k.cap.maxTasks ≤ cur)
    have hLow := hSlot.1
    have hHigh := hSlot.2
    omega
  have hKeep : ((k.saveFrame cur f).tcbs cur).pendingBlock = (k.tcbs cur).pendingBlock := by
    simp [saveFrame]
  have hSaved : ((k.saveFrame cur f).tcbs cur).savedKsp = some f := by
    simp [saveFrame]
  have hPublished : Published G (k.saveFrame cur f) cur
      (ipcPublishPendingBlock (k.saveFrame cur f) cur room) := by
    rcases Option.isSome_iff_exists.mp hPending with ⟨kind, hKind⟩
    have hHave := hKeep.trans hKind
    unfold ipcPublishPendingBlock
    rw [if_neg hZero, hHave, hSaved]
    have hFrame := Option.isSome_of_eq_some hSaved
    cases kind with
    | ipc => exact publishIpc_run hFree hSlot hHave hFrame hPermits
    | notif => exact publishNotif_run hFree hSlot hHave hFrame hPermits
    | wait => exact publishWait_run hFree hSlot hHave hFrame
  refine moveRun_step (.saveFrame cur f) trivial (hFree _ _ rfl) ?_
  unfold ipcBlockSwitch
  dsimp only
  split
  · rename_i hAlone
    simp only [Bool.and_eq_true] at hAlone
    refine hPublished.1.trans ?_
    have hBlocked := hPublished.2 hAlone.1
    unfold ipcUnpublishBlock
    split
    · exact moveRun_refl
    refine moveRun_single (.unpark cur) ⟨?_, hBlocked⟩ (hFree _ _ rfl)
    unfold Slot
    omega
  · exact hPublished.1

end

theorem sysNotify_run {badge : BitVec 32} : MoveRun G k (sysNotify k n badge).2 := by
  unfold sysNotify
  split
  · exact moveRun_refl
  rename_i N hNotif
  split
  · rename_i hNobody
    exact moveRun_single (.setBadge n _) ⟨N, hNotif, fun _ => hNobody⟩ (hFree _ _ rfl)
  rename_i w hWaiter
  refine moveRun_step (.patchBoth w 0 (N.pendingBadge ||| badge).toNat) trivial (hFree _ _ rfl) ?_
  exact moveRun_single (.wakeNotif n w) ⟨N, hNotif, hWaiter⟩ (hFree _ _ rfl)

theorem sysWaitNotify_run (hCall : k.canCall cur = true) :
    MoveRun G k (sysWaitNotify k cur n).2.2 := by
  unfold sysWaitNotify
  split
  · exact moveRun_refl
  rename_i N hNotif
  split
  · exact moveRun_single (.setBadge n 0) ⟨N, hNotif, fun hNe => absurd rfl hNe⟩ (hFree _ _ rfl)
  · exact moveRun_single (.intendNotif cur n) hCall (hFree _ _ rfl)

theorem sysPollNotify_run : MoveRun G k (sysPollNotify k n).2.2 := by
  unfold sysPollNotify
  split
  · exact moveRun_refl
  rename_i N hNotif
  split
  · exact moveRun_single (.setBadge n 0) ⟨N, hNotif, fun hNe => absurd rfl hNe⟩ (hFree _ _ rfl)
  · exact moveRun_refl

theorem hWait_run {tid : Nat} (hCall : k.canCall cur = true) : MoveRun G k (hWait k cur tid).2 := by
  unfold hWait
  iterate 3
    split
    · exact moveRun_refl
  · exact moveRun_single (.intendWait cur tid) hCall (hFree _ _ rfl)

theorem signalInterruptWait_run (hBlocked : k.state t = .blockedWait) :
    MoveRun G k (signalInterruptWait k t) := by
  unfold signalInterruptWait
  split
  · exact moveRun_refl
  refine moveRun_step (.patch t (2 ^ 32 - 4)) trivial (hFree _ _ rfl) ?_
  unfold unlinkTask
  split
  · exact moveRun_single (.wakeWait t) hBlocked (hFree _ _ rfl)
  · rename_i w _
    refine moveRun_step (.forget w) trivial (hFree _ _ rfl) ?_
    exact moveRun_single (.wakeWait t) hBlocked (hFree _ _ rfl)

theorem ipcTeardown_run {id : Nat} {scratch : Scratch} (hSlot : k.Slot id) :
    MoveRun G k (ipcTeardown k id scratch) := by
  unfold ipcTeardown
  split
  · exact moveRun_refl
  rename_i hAlive
  have hBury : MoveRun G k (k.bury id scratch) :=
    moveRun_single (.bury id scratch) ⟨hSlot, hAlive⟩ (hFree _ _ rfl)
  split
  · exact hBury
  rename_i w _
  split
  · rename_i hWaits
    exact hBury.trans (moveRun_single (.wakeWait w) hWaits.2.1 (hFree _ _ rfl))
  · exact hBury

theorem capExec_run {op : Op} (hEnabled : enabled k.cap op = true)
    (hAlone : ∀ pid sender gen, op ≠ .installReplyFor pid sender gen)
    (hPermits : KernelPermits G k (.cap op)) : MoveRun G k (capExec k op).2 := by
  cases hCreates : op.creates with
  | some id =>
    simp only [KernelPermits, hCreates] at hPermits
    have hRun := moveRun_single (.birth op id) ⟨hCreates, hEnabled⟩ hPermits
    cases op with
    | createTask | spawnAborted | fork =>
      obtain rfl := Option.some.inj hCreates
      exact hRun
    | _ => cases hCreates
  | none =>
  cases op with
  | teardown =>
    simp only [enabled, decide_eq_true_eq] at hEnabled
    exact ipcTeardown_run hFree ⟨Nat.pos_of_ne_zero hEnabled.1, hEnabled.2⟩
  | createTask | spawnAborted | fork => cases hCreates
  | _ => exact moveRun_single (.cap _) ⟨rfl, hEnabled, hAlone⟩ hPermits

omit hFree in
theorem destroyDynEndpoint_run (hDyn : dynEp e = true) (hPermits : G k (.destroyEp e)) :
    MoveRun G k (destroyDynEndpoint k e) := by
  cases hEp : k.eps e with
  | none =>
    unfold destroyDynEndpoint
    rw [hEp]
    exact moveRun_refl
  | some => exact moveRun_single (.destroyEp e) ⟨hDyn, Option.isSome_of_eq_some hEp⟩ hPermits

omit hFree in
theorem destroyDynNotification_run (hDyn : dynNotif n = true) (hPermits : G k (.destroyNotif n)) :
    MoveRun G k (destroyDynNotification k n) := by
  cases hNotif : k.notifs n with
  | none =>
    unfold destroyDynNotification
    rw [hNotif]
    exact moveRun_refl
  | some => exact moveRun_single (.destroyNotif n) ⟨hDyn, Option.isSome_of_eq_some hNotif⟩ hPermits

/- An object is made and then named by a capability. -/
theorem retype_run {object : Nat} {typ : CapType}
    (hKind : retypeKind typ = true) (hCall : k.canCall cur = true)
    (hPermits : G k (.cap (.retype cur dest typ object))) :
    MoveRun G k (capExec k (.retype cur dest typ object)).2 := by
  rcases canCall_iff.mp hCall with ⟨hSlot, hRun, _⟩
  refine capExec_run hFree ?_ nofun hPermits
  simp only [enabled, hKind, Bool.and_true]
  exact hSlot.running (by rw [hRun]; decide)

theorem kernelExec_run (op : KernelOp) (hEnabled : kernelEnabled k op = true)
    (hPermits : KernelPermits G k op) : MoveRun G k (kernelExec k op).2 := by
  cases op with
  | cap =>
    simp only [kernelEnabled, Bool.and_eq_true] at hEnabled
    refine capExec_run hFree hEnabled.1 ?_ hPermits
    rintro pid sender gen rfl
    cases hEnabled.2
  | send =>
    simp only [kernelExec, hIpcSend]
    split
    · exact moveRun_refl
    · rename_i e inv serial hLookup
      exact sysIpcSend_run hFree (canCall_iff.mp hEnabled).1 (hPermits e inv serial hLookup)
  | ipcReply =>
    simp only [kernelExec, hIpcReply]
    split
    · exact moveRun_refl
    · rename_i e hLookup
      exact sysIpcSend_run hFree (canCall_iff.mp hEnabled).1 (hPermits e hLookup)
  | call => exact ipcCallCommon_run hFree hEnabled hPermits
  | recv =>
    simp only [kernelExec, hIpcRecv]
    split
    · exact moveRun_refl
    · rename_i e hLookup
      exact sysIpcRecv_run hFree hEnabled (hPermits e hLookup)
  | recvBlock => exact hIpcRecvBlock_run hFree hEnabled hPermits
  | replyTo => exact ipcReplyCommon_run hFree hEnabled hPermits
  | publish =>
    simp only [kernelEnabled, Bool.and_eq_true, decide_eq_true_eq] at hEnabled
    exact ipcBlockSwitch_run hFree hEnabled.1 hEnabled.2 hPermits
  | notify =>
    simp only [kernelExec, hNotify, throughNotif]
    split
    · exact moveRun_refl
    · exact sysNotify_run hFree
  | irqNotify => exact sysNotify_run hFree
  | waitNotify =>
    simp only [kernelExec, hWaitNotify, throughNotif]
    split
    · exact moveRun_refl
    · exact sysWaitNotify_run hFree hEnabled
  | pollNotify =>
    simp only [kernelExec, hPollNotify, throughNotif]
    split
    · exact moveRun_refl
    · exact sysPollNotify_run hFree
  | wait => exact hWait_run hFree hEnabled
  | interruptWait =>
    simp only [kernelEnabled, decide_eq_true_eq] at hEnabled
    exact signalInterruptWait_run hFree hEnabled
  | retypeEp _ _ e =>
    simp only [kernelEnabled, Bool.and_eq_true, Option.isNone_iff_eq_none] at hEnabled
    refine moveRun_step (.makeEp e) ⟨hEnabled.1.2, hEnabled.2⟩ (hFree _ _ rfl) ?_
    exact retype_run hFree rfl hEnabled.1.1 (hPermits _)
  | retypeNotif _ _ n =>
    simp only [kernelEnabled, Bool.and_eq_true, Option.isNone_iff_eq_none] at hEnabled
    refine moveRun_step (.makeNotif n) ⟨hEnabled.1.2, hEnabled.2⟩ (hFree _ _ rfl) ?_
    exact retype_run hFree rfl hEnabled.1.1 (hPermits _)
  | collectEp =>
    simp only [kernelEnabled, Bool.and_eq_true] at hEnabled
    exact destroyDynEndpoint_run hEnabled.1 hPermits
  | collectNotif =>
    simp only [kernelEnabled, Bool.and_eq_true] at hEnabled
    exact destroyDynNotification_run hEnabled.1 hPermits

end Decompose

end Horus
