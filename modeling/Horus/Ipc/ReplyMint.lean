import Horus.Kernel.Serials
import Horus.Ipc.Replies

/-
  What a reply may give the caller.

  `SYS_IPC_REPLY_CAP` derives a capability for the caller from
  the one its request was sent through. The kernel remembers
  only the slot and the serial of that capability, and any
  capability operation may come before the reply. It is enough
  since a serial is never issued again, so whatever carries it
  is the capability that the request used.

  Main declarations:
    * `Move.keepsCap`, `sound_run`
    * `Remembers`, `Remembers.act`
    * `CallThrough`, `CallThrough.after`
    * `ipcReplyCommon_mint_cases`
    * `reply_mint_from_invocation`
-/

namespace Horus

open Kernel
open Function

variable {move : Move} {s s' : CapState} {c inv : Capability}
    {slot dest t invSerial invSlot epIndex token pid q : Nat} {a : Addr} {rights : Rights}

variable {k : Kernel}

/-
  What every action keeps and task states do not matter for
  is kept by every move.
-/
theorem Move.keepsCap (I : CapState → Prop)
    (hAct : ∀ (s : CapState) (act : Act), Tables s → I s → act.Ok s → I (act.apply s))
    (hTasks : ∀ s s' : CapState, s'.mem = s.mem → s'.nextSerial = s.nextSerial →
      (∀ t, (s'.tasks t).cspace = (s.tasks t).cspace) →
      I s → I s') (hBase : Base k) (hOk : move.Ok k)
    (hCap : I k.cap) : I (move.apply k).cap := by
  have hExec : ∀ op, enabled k.cap op = true → I (exec k.sys op).2.cap := by
    intro op hEnabled
    have hRun := exec_run benign_true (s := k.sys) hBase.tables
      op (fun _ _ _ _ _ => hBase.regions) hEnabled
      (permits_true _ op)
    exact (Lib.Run.invariant (fun s => Tables s ∧ I s) (fun s act hs hOk => ⟨hs.1.act act hOk.1,
        hAct s act hs.1 hs.2 hOk.1⟩) hRun
      ⟨hBase.tables, hCap⟩).2
  by_cases hOther : move.writesCaps = false
  · have hSame := Move.sameCaps k move hOther
    exact hTasks _ _ hSame.mem hSame.next hSame.cspace hCap
  cases move with
  | cap op => exact hExec op hOk.2.1
  | birth op => exact hExec op hOk.2
  | bury id scratch =>
    refine hExec (.teardown id scratch) ?_
    simp only [enabled, decide_eq_true_eq]
    exact ⟨Nat.ne_of_gt hOk.1.1, hOk.1.2⟩
  | grantReply w sender senderGen =>
    have hGrant := hExec (.installReplyFor w sender senderGen) (hOk.1.running hOk.2.1)
    unfold Move.apply Kernel.grantReply Kernel.granted
    dsimp only
    split <;> exact hGrant
  | consumeReply q => exact hExec (.consumeReply q) hOk
  | _ => exact absurd rfl hOther

theorem Sound.congr (hSound : Sound s)
    (hMem : s'.mem = s.mem) (hNext : s'.nextSerial = s.nextSerial)
    (hTask : ∀ t, (s'.tasks t).cspace = (s.tasks t).cspace) : Sound s' :=
  hSound.lower (fun a => lowered_of_eq (congrFun hMem a)) (Nat.le_of_eq hNext.symm) (hTask 0)

theorem kernelPermits_true (k : Kernel) (op : KernelOp) : KernelPermits (fun _ _ => True) k op := by
  cases op with
  | cap =>
    simp only [KernelPermits]
    split <;> trivial
  | publish => constructor <;> simp
  | _ => simp [KernelPermits, SendPermits, RecvPermits]

variable {C : Kernel → KernelOp → Prop}

/- An invariant of all moves, from any state of a run on. -/
theorem KernelRun.from (I : Kernel → Prop)
    (hMove : ∀ (k : Kernel) (move : Move), Base k → I k → move.Ok k → I (move.apply k))
    {k' : Kernel} (hRun : KernelRun C k k') (hBase : Base k) (hInit : I k) : Base k' ∧ I k' := by
  refine Lib.Run.invariant (fun k => Base k ∧ I k) ?_ hRun ⟨hBase, hInit⟩
  rintro k op ⟨hBase, hI⟩ ⟨hEnabled, _⟩
  refine MoveRun.invariant (G := fun _ _ => True) I
    (fun k move hB hI hOk _ => hMove k move hB hI hOk)
    (kernelExec_run (fun _ _ _ => trivial) op hEnabled (kernelPermits_true k op)) hBase hI

/- Along every run, blocked tasks rest and serials are sound. -/
theorem sound_run {cfg : BootConfig}
    (hRun : KernelRun C (kernelBoot cfg) k) : Base k ∧ Sound k.cap ∧
      ∀ t, (k.task t).Blocked → (k.task t).Rests t := by
  refine KernelRun.from (fun k => Sound k.cap ∧
      ∀ t, (k.task t).Blocked → (k.task t).Rests t) ?_ hRun
    (base_boot cfg) ⟨sound_bootCap cfg, ?_⟩
  · intro k move hBase hBoth hOk
    refine ⟨Move.keepsCap Sound (fun s act hT hS hOk => hS.act hT act hOk)
      (fun s s' hMem hNext hTask hS => hS.congr hMem hNext hTask) hBase hOk hBoth.1, ?_⟩
    intro t hBlocked
    exact Task.Rests.step hBase (hBoth.2 t) (move.taskStep hOk t) hBlocked
  · intro t hBlocked
    exact absurd hBlocked (not_blocked_boot cfg t)

/- Whatever carries the serial of `c` is `c`, up to its badge. -/
structure Remembers (c : Capability) (s : CapState) : Prop where
  sound : Sound s
  issued : minDerivedSerial < c.serial
  passed : c.serial ≤ max s.nextSerial minDerivedSerial
  same : ∀ a, (s.mem a).serial = c.serial → SameRecord c (s.mem a)

theorem Remembers.congr (hRem : Remembers c s) (hMem : s'.mem = s.mem)
    (hNext : s'.nextSerial = s.nextSerial) (hTask : ∀ t, (s'.tasks t).cspace = (s.tasks t).cspace) :
    Remembers c s' where
  sound := hRem.sound.congr hMem hNext hTask
  issued := hRem.issued
  passed := hNext ▸ hRem.passed
  same := by rw [hMem]; exact hRem.same

theorem Remembers.act (hRem : Remembers c s) (hTables : Tables s) (act : Act) (hOk : act.Ok s) :
    Remembers c (act.apply s) := by
  have hPassed := hRem.passed
  have hIssued := hRem.issued
  have hCounter := act_counter s act
  refine ⟨hRem.sound.act hTables act hOk, hIssued, by omega, ?_⟩
  intro a hSerial
  have hFresh : ∀ r : Capability, r.serial = s.freshSerial → r.serial ≠ c.serial := by
    intro r hR hEq
    unfold CapState.freshSerial at hR
    rcases assignFreshSerial_cases s.nextSerial with ⟨hZero, _⟩ | ⟨hNew, _⟩ <;> omega
  have hWrite : ∀ (b : Addr) (r : Capability), r.serial = s.freshSerial →
      (update s.mem b r a).serial = c.serial →
      SameRecord c (update s.mem b r a) := by
    intro b r hR hEq
    rcases eq_or_ne a b with rfl | hB
    · rw [update_self] at hEq
      exact absurd hEq (hFresh r hR)
    · rw [update_of_ne hB] at hEq ⊢
      exact hRem.same a hEq
  by_cases hWrites : act.writes = true
  · cases act with
    | install _ b r => exact hWrite b r hOk.2.1 hSerial
    | place b r => exact hWrite b r hOk.2.1 hSerial
    | _ => cases hWrites
  · rcases hRem.sound.act_lowered hTables act hOk
      (by simpa using hWrites) a with hNull | ⟨top, _, hMoved⟩
    · rw [hNull] at hSerial
      have hZero : (0 : Nat) = c.serial := hSerial
      omega
    · rw [hMoved] at hSerial ⊢
      have hOld := hRem.same a hSerial
      exact { hOld with }

----
-- The Call and Its Capability
----

/-
  As long as task `t` is in call `n`, its slot names the
  capability `c` that the request went through.
-/
structure CallThrough (t n slot dest : Nat) (c : Capability) (k : Kernel) : Prop where
  remembers : Remembers c k.cap
  made : n < k.nextCall
  fields : callOf (k.tcbs t).inside = some n →
    (k.tcbs t).ipcInvSlot = slot ∧ (k.tcbs t).ipcInvSerial = c.serial ∧
      (k.tcbs t).ipcCapRecvSlot = some dest

theorem Move.nextCall_le (k : Kernel) (move : Move) : k.nextCall ≤ (move.apply k).nextCall := by
  cases move with
  | intendCall => exact Nat.le_succ _
  | answer => exact Nat.le_refl _
  | _ => exact Nat.le_of_eq (Move.calls_eq _ rfl (by nofun)).1.symm

theorem CallThrough.after {n : Nat} (hThrough : CallThrough t n slot dest c k) (hBase : Base k)
    (hOk : move.Ok k) : CallThrough t n slot dest c (move.apply k) where
  remembers := Move.keepsCap (Remembers c) (fun s act hT hR hOk => hR.act hT act hOk)
    (fun s s' hMem hNext hTask hR => hR.congr hMem hNext hTask)
    hBase hOk hThrough.remembers
  made := Nat.lt_of_lt_of_le hThrough.made (Move.nextCall_le k move)
  fields := by
    intro hCall
    have hStep := move.taskStep hOk t
    have hOld : callOf (k.task t).tcb.inside = some n := by
      rcases hStep.call_cases hCall with hOld | ⟨hNew, _⟩
      · exact hOld
      · exact absurd hNew (Nat.ne_of_lt hThrough.made)
    have hFields := hThrough.fields hOld
    have hCall : callOf ((move.apply k).task t).tcb.inside = some n := hCall
    change ((move.apply k).task t).tcb.ipcInvSlot = slot ∧
      ((move.apply k).task t).tcb.ipcInvSerial = c.serial ∧
      ((move.apply k).task t).tcb.ipcCapRecvSlot = some dest
    generalize (move.apply k).task t = y at hStep hCall
    cases hStep with
    | intendCall => exact absurd (Option.some.inj hCall).symm (Nat.ne_of_lt hThrough.made)
    | born | abortCall => cases hCall
    | _ => exact hFields

/- The capability found in a slot of a user task is remembered. -/
theorem Sound.remembers (hSound : Sound s) (hTables : Tables s) (hUser : t ≠ 0)
    (hOwns : s.Owns t a) (hSerial : (s.mem a).serial ≠ 0) : Remembers (s.mem a) s := by
  have hIssued : minDerivedSerial < (s.mem a).serial := by
    by_contra hLow
    rcases (hSound.low a hSerial (by omega)).2 with hRoot | hZero
    · exact hTables.space_ne_root hOwns hRoot
    · exact hUser (hTables.own t 0 a.space hOwns.space hZero)
  refine ⟨hSound, hIssued, hSound.bound a, ?_⟩
  intro b hB
  have hEq := hSound.unique a b hIssued hB.symm
  subst hEq
  exact SameRecord.refl _

/- A call that was made, from its start on. -/
theorem callThrough_of_call (hBase : Base k) (hSound : Sound k.cap)
    {len buf room : Nat} {user : List UInt8} {carrySlot : Option Nat} (hCan : k.canCall t = true)
    (hSent : (ipcCallCommon k t slot user len buf (some dest) carrySlot room).1 = 0)
    (hInv : capLookup k.cap t slot (some .endpoint) Right.write = some a) :
    Base (ipcCallCommon k t slot user len buf (some dest) carrySlot room).2 ∧
      CallThrough t k.nextCall slot dest (k.cap.mem a)
        (ipcCallCommon k t slot user len buf (some dest) carrySlot room).2 := by
  rcases canCall_iff.mp hCan with ⟨hSlot, hRun, _⟩
  rcases hBase.tables.capLookup_eq_some (hSlot.running (by rw [hRun]; decide)) hInv with
    ⟨hOwns, _, _, hSerial, _, _⟩
  have hRemembers := hSound.remembers hBase.tables (Nat.ne_of_gt hSlot.1) hOwns hSerial
  -- The lookup of the call finds the same capability.
  have hFound : ∀ e inv serial, ipcEpAndInvoker k t slot Right.write = some (e, inv, serial) →
      serial = (k.cap.mem a).serial := by
    intro e inv serial hLook
    simp only [ipcEpAndInvoker, hInv] at hLook
    split_ifs at hLook
    simp only [Option.some.injEq, Prod.mk.injEq] at hLook
    exact hLook.2.2.symm
  unfold ipcCallCommon at hSent ⊢
  split at hSent
  · cases hSent
  rename_i e inv serial hLook
  split at hSent
  · cases hSent
  split at hSent
  · cases hSent
  rename_i hDest
  split at hSent
  · cases hSent
  rename_i rep hRep
  dsimp only at hSent ⊢
  split at hSent
  · rename_i hFailed
    rw [hSent] at hFailed
    cases hFailed
  rename_i hDone
  rw [if_neg hDest, if_neg hDone]
  have hStart : CallThrough t k.nextCall slot dest (k.cap.mem a)
      (k.intendCall t rep buf (some dest) slot serial) := by
    refine ⟨hRemembers.congr rfl rfl fun _ => rfl, Nat.lt_succ_self _, ?_⟩
    have hFields := hFound e inv serial hLook
    simp [intendCall, hFields]
  have hIntent : Base (k.intendCall t rep buf (some dest) slot serial) :=
    hBase.move (.intendCall t rep buf (some dest) slot serial) ⟨hCan, hRep⟩
  exact MoveRun.invariant (G := fun _ _ => True) (CallThrough t k.nextCall slot dest (k.cap.mem a))
    (fun l move hB hI hOk _ => hI.after hB hOk)
    (sysIpcSend_run (fun _ _ _ => trivial) (k := k.intendCall t rep buf (some dest) slot serial)
      hSlot (fun _ _ _ _ _ _ _ => trivial)) hIntent hStart

theorem capReplyMintInto_false
    (hFalse : (capReplyMintInto s pid invSlot invSerial epIndex dest rights token).1 = false) :
    (capReplyMintInto s pid invSlot invSerial epIndex dest rights token).2 = s := by
  unfold capReplyMintInto at hFalse ⊢
  split
  · rfl
  rename_i hPid
  rw [if_neg hPid] at hFalse
  split
  · rfl
  rename_i space hSpace
  simp only [hSpace] at hFalse
  dsimp only
  split
  · rfl
  rename_i hBounds
  rw [if_neg hBounds] at hFalse
  split
  · rfl
  rename_i hInv
  rw [if_neg hInv] at hFalse
  split
  · rfl
  rename_i hCeil
  rw [if_neg hCeil] at hFalse
  unfold CapState.commit at hFalse ⊢
  split
  · rfl
  · rename_i hSome
    rw [hSome] at hFalse
    cases hFalse

/- What a mint that succeeds has found and written. -/
theorem capReplyMintInto_true
    (hTrue : (capReplyMintInto s pid invSlot invSerial epIndex dest rights token).1 = true) :
    ∃ space serial, (s.tasks pid).cspace = some space ∧ (s.mem ⟨space, invSlot⟩).typ = .endpoint ∧
      (s.mem ⟨space, invSlot⟩).serial = invSerial ∧ (s.mem ⟨space, invSlot⟩).object = epIndex ∧
      (s.mem ⟨space, dest⟩).typ = .null ∧
      (capReplyMintInto s pid invSlot invSerial epIndex dest rights token).2.mem =
        update s.mem ⟨space, dest⟩ (tokenedCap (s.mem ⟨space, invSlot⟩) rights token serial) := by
  unfold capReplyMintInto at hTrue ⊢
  split at hTrue
  · cases hTrue
  rename_i hPid
  rw [if_neg hPid]
  split at hTrue
  · cases hTrue
  rename_i space hSpace
  simp only [hSpace]
  dsimp only at hTrue
  split at hTrue
  · cases hTrue
  rename_i hBounds
  rw [if_neg hBounds]
  split at hTrue
  · cases hTrue
  rename_i hInv
  rw [if_neg hInv]
  split at hTrue
  · cases hTrue
  rename_i hCeil
  rw [if_neg hCeil]
  push Not at hInv
  unfold CapState.commit at hTrue ⊢
  split at hTrue
  · cases hTrue
  rename_i mem next hSome
  rcases rustCapReplyMint_eq_some hSome with ⟨hMem, _, _, _, hNull, _⟩
  exact ⟨space, _, rfl, hInv.1, hInv.2.2.1, hInv.2.2.2, hNull, congrArg Prod.fst hMem⟩

----
-- The Reply
----

/- The caller waits for a reply, so one can reach it. -/
def Kernel.Awaits (k : Kernel) (t : Nat) : Prop :=
  k.state t = .blockedIpc ∧ (k.tcbs t).ipcRecvBlock = false

section Reply

variable {k : Kernel} (hBase : Base k) (hRests : ∀ t, (k.task t).Blocked → (k.task t).Rests t)

include hBase hRests

/- A task that waits for a reply is there. -/
theorem Kernel.Awaits.present (hWaits : k.Awaits t) :
    ¬ (t = 0 ∨ k.cap.maxTasks ≤ t ∨ k.state t = .dead) := by
  have hAlive : k.state t ≠ .dead := by
    rw [hWaits.1]
    decide
  have hRest := hRests t ⟨hAlive, by rw [show (k.task t).state = _ from hWaits.1]; decide⟩
  have hMax := (hBase.tables.live t hAlive).2
  have hUser := hRest.user
  simp only [hAlive, or_false]
  omega

omit hBase in
theorem Kernel.Awaits.saved (hWaits : k.Awaits t) : (k.tcbs t).savedKsp.isNone = false := by
  have hState : (k.task t).state = .blockedIpc := hWaits.1
  have hRest := hRests t ⟨by rw [hState]; decide, by rw [hState]; decide⟩
  have hSome : (k.tcbs t).savedKsp.isSome = true := hRest.saved
  rw [Option.isNone_eq_false_iff]
  exact hSome

/- The ways a reply with a capability can end. -/
theorem ipcReplyCommon_mint_cases
    (q slot len : Nat) (user : List UInt8) (rights : Rights) (token : Nat) :
    ((ipcReplyCommon k q slot user len (some (rights, token))).1 < 0 ∧
      (ipcReplyCommon k q slot user len (some (rights, token))).2 = k) ∨
    ∃ c t, k.replyCap q = some c ∧ c.object % 2 ^ 16 = t ∧ ((ipcReplyCommon k q slot user len
          (some (rights, token)) = (0, k.consumeReply q) ∧
        ¬ (k.Answers c.object t ∧ k.Awaits t)) ∨
      ∃ e dest data, (k.tcbs t).ipcCapRecvSlot = some dest ∧ k.Awaits t ∧
        (capReplyMintInto k.cap t (k.tcbs t).ipcInvSlot
          (k.tcbs t).ipcInvSerial e dest rights token).1 = true ∧
        ipcReplyCommon k q slot user len (some (rights, token)) =
          (0, (((k.setCap (capReplyMintInto k.cap t (k.tcbs t).ipcInvSlot
                (k.tcbs t).ipcInvSerial e dest rights
                token).2).patch t data).answer q t).consumeReply q)) := by
  unfold ipcReplyCommon
  split
  · exact .inl ⟨Int.negSucc_lt_zero _, rfl⟩
  · exact .inl ⟨Int.negSucc_lt_zero _, rfl⟩
  rename_i e c hEp hCap
  generalize hTask : c.object % 2 ^ 16 = t
  dsimp only
  split
  · rename_i hGone
    refine .inr ⟨c, t, hCap, hTask, .inl ⟨rfl, ?_⟩⟩
    rintro ⟨hAnswers, hWaits⟩
    apply hWaits.present hBase hRests
    rcases hGone with hZero | hMax | hDead | hGen
    · exact .inl hZero
    · exact .inr (.inl hMax)
    · exact .inr (.inr hDead)
    · exact absurd hAnswers.2.symm hGen
  split
  · rename_i hIdle
    split
    · exact .inl ⟨Int.negSucc_lt_zero _, rfl⟩
    refine .inr ⟨c, t, hCap, hTask, .inl ⟨rfl, ?_⟩⟩
    rintro ⟨_, hWaits⟩
    rcases hIdle with hIdle | hFlag
    · exact hIdle hWaits.1
    · rw [hWaits.2] at hFlag
      cases hFlag
  rename_i hIdle
  push Not at hIdle
  have hWaits : k.Awaits t := ⟨hIdle.1, by simpa using hIdle.2⟩
  split
  · exact .inl ⟨Int.negSucc_lt_zero _, rfl⟩
  rename_i data hCopy
  split
  · exact .inl ⟨Int.negSucc_lt_zero _, rfl⟩
  rename_i dest hDest
  cases hMint : (capReplyMintInto k.cap t (k.tcbs t).ipcInvSlot
      (k.tcbs t).ipcInvSerial e dest rights token).1 with
  | false =>
    left
    rw [capReplyMintInto_false hMint]
    exact ⟨Int.negSucc_lt_zero _, rfl⟩
  | true =>
    refine .inr ⟨c, t, hCap, hTask, .inr ⟨e, dest, data.length, hDest, hWaits, hMint, ?_⟩⟩
    have hSaved := hWaits.saved hRests
    unfold replyDeliver
    rw [setCap_tcbs, hSaved]
    rfl

end Reply

/- The reply capability that is used up. -/
theorem consumeReply_mem {space : Nat} (hSpace : (k.cap.tasks q).cspace = some space)
    (hSz : (k.cap.tasks q).cspaceSz = cnodeSize) (a : Addr) :
    (k.consumeReply q).cap.mem a = if a = ⟨space, capslotReply⟩ ∧
          (k.cap.mem ⟨space, capslotReply⟩).typ ≠ .null then
        Capability.nullify
      else k.cap.mem a := by
  have hBounds : ¬ (capslotReply < kernelReservedCaps ∨
      (k.cap.tasks q).cspaceSz ≤ capslotReply) := by
    rw [hSz]
    decide
  have hCap : (k.consumeReply q).cap = k.cap.erase q ⟨space, capslotReply⟩ := by
    simp only [consumeReply, setCap_cap, capConsumeSlot, hSpace]
    rw [if_neg hBounds]
  rw [hCap]
  unfold CapState.erase
  by_cases hNull : (k.cap.mem ⟨space, capslotReply⟩).typ = .null
  · simp [hNull]
  rw [if_neg hNull]
  by_cases hEq : a = ⟨space, capslotReply⟩
  · subst hEq
    simp [hNull]
  · simp [hEq]

/-
  The caller `t` gains the capability `new` in slot `dest`, and
  the server `q` has used up its reply capability.
-/
structure GainsOne (k l : Kernel) (t q dest : Nat) (new : Capability) : Prop where
  slots : ∃ space server, (k.cap.tasks t).cspace = some space ∧
    (k.cap.tasks q).cspace = some server ∧ (k.cap.mem ⟨space, dest⟩).typ = .null ∧
    ∀ a, l.cap.mem a = if a = ⟨space, dest⟩ then new
      else if a = ⟨server, capslotReply⟩ then Capability.nullify
      else k.cap.mem a

/- `new` is a child of `inv` with rights that were asked for. -/
structure ReplyChild (rights : Rights) (inv new : Capability) : Prop where
  typ : new.typ = inv.typ
  object : new.object = inv.object
  parent : new.badge = inv.serial
  asked : hasRights rights new.rights = true
  held : hasRights inv.rights new.rights = true
  noRead : new.rights &&& Right.read = 0

theorem ReplyChild.of_same {inv' new : Capability}
    (hChild : ReplyChild rights inv' new) (hSame : SameRecord inv inv') :
    ReplyChild rights inv new where
  typ := hChild.typ.trans hSame.typ
  object := hChild.object.trans hSame.object
  parent := hChild.parent.trans hSame.serial
  asked := hChild.asked
  held := hSame.rights ▸ hChild.held
  noRead := hChild.noRead

theorem replyChild_tokenedCap (rights : Rights) (token serial : Nat) (hTyp : inv.typ = .endpoint) :
    ReplyChild rights inv (tokenedCap inv rights token serial)
    where
  typ := hTyp.symm
  object := rfl
  parent := rfl
  asked := by
    simp only [tokenedCap, hasRights, beq_iff_eq]
    ext i
    simp
    intro hAsked _ _
    exact hAsked
  held := hasRights_and_and _ _ _
  noRead := tokenedCap_no_read _ _ _ _

/- What the reply that mints leaves behind. -/
theorem gainsOne_of_mint (hBase : Base k) (data : Nat) {e : Nat}
    (hCall : k.canCall q = true) (hCap : k.replyCap q = some c) (hWaits : k.Awaits t)
    (hMint : (capReplyMintInto k.cap t invSlot invSerial e dest rights token).1 = true) :
    ∃ space serial, (k.cap.tasks t).cspace = some space ∧
      (k.cap.mem ⟨space, invSlot⟩).typ = .endpoint ∧
      (k.cap.mem ⟨space, invSlot⟩).serial = invSerial ∧
      GainsOne k ((((k.setCap (capReplyMintInto k.cap t invSlot invSerial e dest
            rights token).2).patch t data).answer q t).consumeReply q) t q dest
        (tokenedCap (k.cap.mem ⟨space, invSlot⟩) rights token serial) := by
  rcases canCall_iff.mp hCall with ⟨hSlot, hRun, _⟩
  rcases Option.map_eq_some_iff.mp hCap with ⟨b, hLook, rfl⟩
  rcases hBase.tables.capLookup_eq_some (hSlot.running (by rw [hRun]; decide)) hLook with
    ⟨hOwns, hReply, hUsed, _⟩
  rcases capReplyMintInto_true hMint with ⟨space, serial, hSpace, hTyp, hSerial, _, hNull, hMem⟩
  refine ⟨space, serial, hSpace, hTyp, hSerial, ?_⟩
  have hNe : t ≠ q := by
    rintro rfl
    rw [hWaits.1] at hRun
    cases hRun
  have hApart : b.space ≠ space := by
    intro hEq
    exact hNe (hBase.tables.own t q space hSpace (hEq ▸ hOwns.space))
  have hB : b = ⟨b.space, capslotReply⟩ := by
    rw [← hReply]
  have hOther : (⟨b.space, capslotReply⟩ : Addr) ≠ ⟨space, dest⟩ := by
    intro hEq
    rw [Addr.mk.injEq] at hEq
    exact hApart hEq.1
  have hTask : ∀ l : Kernel, l.cap.tasks = k.cap.tasks →
      ((l.answer q t).cap.tasks q) = k.cap.tasks q := by
    intro l hL
    rw [← hL]
    exact update_of_ne (Ne.symm hNe) _ _
  have hSame := sameTasks_capReplyMintInto k.cap t invSlot invSerial e dest rights token
  have hServer := hTask ((k.setCap (capReplyMintInto k.cap t invSlot invSerial e
      dest rights token).2).patch t data) hSame.tasks
  refine ⟨space, b.space, hSpace, hOwns.space, hNull, ?_⟩
  intro a
  rw [consumeReply_mem (by rw [hServer]; exact hOwns.space) (by
      rw [hServer]
      exact hBase.tables.cspaceSz q (by simp [hOwns.space]))]
  have hBefore : ((((k.setCap (capReplyMintInto k.cap t invSlot invSerial e dest
        rights token).2).patch t data).answer q t).cap.mem) =
      update k.cap.mem ⟨space, dest⟩ (tokenedCap (k.cap.mem ⟨space, invSlot⟩) rights token
          serial) := hMem
  rw [hBefore, update_of_ne hOther, ← hB]
  simp only [hUsed, ne_eq, not_false_eq_true, and_true]
  by_cases hA : a = ⟨space, dest⟩
  · subst hA
    rw [if_neg (by rw [hB]; exact Ne.symm hOther), if_pos rfl, update_self]
  · rw [if_neg hA, update_of_ne hA]

----
-- Main Result
----

/-
  Task `t` calls through the capability in `a` and names `dest`.
  Whatever comes before the reply, a refused reply changes
  nothing, one that finds `t` not waiting is dropped, and any
  other gives `t` a child of that very capability.
-/
theorem reply_mint_from_invocation (cfg : BootConfig) (k k' : Kernel)
    (hRun : KernelRun (fun _ _ => True) (kernelBoot cfg) k)
    (t slot len buf dest room : Nat) (user : List UInt8) (carrySlot : Option Nat) (a : Addr)
    (hCall : kernelEnabled k (.call t slot user len buf (some dest) carrySlot room) = true)
    (hInv : capLookup k.cap t slot (some .endpoint) Right.write = some a)
    (hSent : (kernelExec k (.call t slot user len buf (some dest) carrySlot room)).1 = 0)
    (hLater : KernelRun (fun _ _ => True) (kernelExec k
        (.call t slot user len buf (some dest) carrySlot room)).2 k')
    (hStill : (k'.tcbs t).inside = some (.call k.nextCall))
    (q slot' len' : Nat) (user' : List UInt8) (rights : Rights) (token : Nat) (r : Int × Kernel)
    (hReply : kernelEnabled k' (.replyTo q slot' user' len' (some (rights, token))) = true)
    (hResult : r = kernelExec k' (.replyTo q slot' user' len' (some (rights, token)))) :
    (r.1 < 0 → r.2 = k') ∧ ∀ c, k'.replyCap q = some c → k'.Answers c.object t → r.1 < 0 ∨
        (r = (0, k'.consumeReply q) ∧ ¬ k'.Awaits t) ∨
        ∃ space new, (k'.cap.tasks t).cspace = some space ∧
          SameRecord (k.cap.mem a) (k'.cap.mem ⟨space, slot⟩) ∧ GainsOne k' r.2 t q dest new ∧
          ReplyChild rights (k.cap.mem a) new := by
  rcases sound_run hRun with ⟨hBase, hSound, hRests⟩
  rcases callThrough_of_call hBase hSound hCall hSent hInv with ⟨hBase₁, hThrough₁⟩
  have hThrough := (KernelRun.from (CallThrough t k.nextCall slot dest (k.cap.mem a))
    (fun l move hB hI hOk => hI.after hB hOk) hLater hBase₁
    hThrough₁).2
  have hRun' : KernelRun (fun _ _ => True) (kernelBoot cfg) k' :=
    (Lib.Run.snoc hRun _ ⟨hCall, trivial⟩).trans hLater
  rcases sound_run hRun' with ⟨hBase', _, hRests'⟩
  have hFields := hThrough.fields (by rw [hStill]; rfl)
  have hExec : r = ipcReplyCommon k' q slot' user' len' (some (rights, token)) := hResult
  rcases ipcReplyCommon_mint_cases hBase' hRests' q slot' len' user' rights token with
    hRefused | ⟨c, t', hCap, hTask, hOut⟩
  · rw [← hExec] at hRefused
    exact ⟨fun _ => hRefused.2, fun _ _ _ => .inl hRefused.1⟩
  rw [← hExec] at hOut
  rcases hOut with ⟨hDropped, hNot⟩ | ⟨e, dest', data, hDest, hWaits, hMint, hMinted⟩
  · refine ⟨fun hNeg => ?_, fun c' hCap' hAnswers => ?_⟩
    · rw [hDropped] at hNeg
      exact absurd hNeg (Int.lt_irrefl 0)
    rw [hCap, Option.some.injEq] at hCap'
    subst hCap'
    have hEq : t' = t := hTask.symm.trans hAnswers.1
    subst hEq
    exact .inr (.inl ⟨hDropped, fun hWaits => hNot ⟨hAnswers, hWaits⟩⟩)
  · refine ⟨fun hNeg => ?_, fun c' hCap' hAnswers => ?_⟩
    · rw [hMinted] at hNeg
      exact absurd hNeg (Int.lt_irrefl 0)
    rw [hCap, Option.some.injEq] at hCap'
    subst hCap'
    have hEq : t' = t := hTask.symm.trans hAnswers.1
    subst hEq
    rw [hFields.2.2, Option.some.injEq] at hDest
    subst hDest
    rw [hFields.1, hFields.2.1] at hMint hMinted
    have hMay : k'.canCall q = true := hReply
    rcases gainsOne_of_mint hBase' data hMay hCap hWaits hMint with
      ⟨space, serial, hSpace, hTyp, hSerial, hGains⟩
    have hSame := hThrough.remembers.same ⟨space, slot⟩ hSerial
    refine .inr (.inr ⟨space, _, hSpace, hSame, ?_,
      (replyChild_tokenedCap rights token serial hTyp).of_same hSame⟩)
    rw [hMinted]
    exact hGains

/- Tasks 1 and 2 hold endpoint 4. -/
def twoAtFour : Kernel :=
  kernelExecAll (kernelBoot smallMachine) [.cap (.createTask 1 .kernel),
      .cap (.installFromRoot 1 30 13 4),
      .cap (.createTask 2 .kernel),
      .cap (.installFromRoot 2 30 13 4)]

/- Task 1 has called, naming slot 40, and task 2 has the request. -/
def calledForCap : Kernel :=
  kernelExecAll (kernelExec twoAtFour (.call 1 30 [8] 1 4096 (some 40) none 256)).2
    [.publish 1 ⟨0, 0⟩ 256 false, .recv 2 30 256 256]

theorem reply_mint_from_invocation_calledForCap :
    ∃ new, GainsOne calledForCap (kernelExec calledForCap
          (.replyTo 2 30 [9] 1 (some (Right.write, 7)))).2
        1 2 40 new ∧
      ReplyChild Right.write (twoAtFour.cap.mem ⟨2, 30⟩)
        new := by
  have hRun : KernelRun (fun _ _ => True) (kernelBoot smallMachine) twoAtFour :=
    kernelRun_execAll _ (by decide +kernel)
  have hLater : KernelRun (fun _ _ => True) (kernelExec twoAtFour
        (.call 1 30 [8] 1 4096 (some 40) none 256)).2
      calledForCap :=
    kernelRun_execAll _ (by decide +kernel)
  rcases (reply_mint_from_invocation smallMachine twoAtFour
      calledForCap hRun 1 30 1 4096 40 256 [8] none ⟨2, 30⟩
      (by decide +kernel) (by decide +kernel)
      (by decide +kernel) hLater (by decide +kernel) 2 30 1 [9]
      Right.write 7 _ (by decide +kernel) rfl).2
      { typ := .reply, rights := 2, object := 65537, badge := 0, serial := 4294967308, token := 0 }
      (by decide +kernel) (by decide +kernel) with
    hNeg | ⟨_, hNot⟩ | ⟨_, new, _, _, hGains, hChild⟩
  · exact absurd hNeg (by decide +kernel)
  · exact absurd (by constructor <;> decide +kernel) hNot
  · exact ⟨new, hGains, hChild⟩

end Horus
