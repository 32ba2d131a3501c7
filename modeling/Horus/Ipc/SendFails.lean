import Horus.Ipc.Steps

/-
  What a send that fails leaves behind.

  A send to a parked task writes its buffer, reports the sender
  and clears the mode of the task before the reply capability
  is installed, which is the last step that can fail.

  Main declarations:
    * `sendBuffer`, `Untouched`
    * `failed_send_unchanged_iff`
-/

namespace Horus

variable (k : Kernel) (e : Nat) (user : List UInt8) (len room : Nat)

/- What a send writes to a parked task, whatever it answers. -/
def sendStores : List UInt8 :=
  match k.eps e with
  | none => []
  | some E =>
  match k.parkedReceiver E with
  | none => []
  | some w =>
  match copyFromUser user (handOffLen k w (min len ipcMsgMax)) with
  | none => []
  | some data => k.stored w data room

/- The buffer of the task after the send. -/
def sendBuffer (old : List UInt8) : List UInt8 :=
  sendStores k e user len room ++ old.drop (sendStores k e user len room).length

/- What the receivers see of an endpoint. -/
def Endpoint.shown (E : Endpoint) : List EpMsg × Option Nat × Nat × IpcInvoker × Option Nat :=
  (E.queue, E.lastSender, E.lastSenderGen, E.lastInvoker, E.blockedWaiter)

structure Untouched (k k' : Kernel) (e : Nat) : Prop where
  endpoint : (k'.eps e).map Endpoint.shown = (k.eps e).map Endpoint.shown
  cspaces : k'.cap.mem = k.cap.mem
  state : ∀ t, k'.state t = k.state t
  declared : ∀ t, (k'.tcbs t).ipcRecvBlock = (k.tcbs t).ipcRecvBlock ∧
    (k'.tcbs t).ipcRecvMax = (k.tcbs t).ipcRecvMax

variable {k e user len room} {cur w : Nat} {inv : IpcInvoker} {E : Endpoint} {data old : List UInt8}

theorem Untouched.refl : Untouched k k e := ⟨rfl, rfl, fun _ => rfl, fun _ => ⟨rfl, rfl⟩⟩

/- After the copy: the waiter has no frame, or its mode is lost. -/
theorem handOff_fails (hCopy : copyFromUser user (handOffLen k w len) = some data)
    (hFailed : (handOff k cur e E w user len inv room).1 < 0) :
    ((k.tcbs w).savedKsp = none ∧ (handOff k cur e E w user len inv room).2 = k) ∨
      ((k.tcbs w).savedKsp ≠ none ∧ ¬ Untouched k (handOff k cur e E w user len inv room).2 e) := by
  unfold handOff at hFailed ⊢
  rw [hCopy] at hFailed ⊢
  dsimp only at hFailed ⊢
  by_cases hFrame : (k.tcbs w).savedKsp = none
  · rw [if_pos (Option.isNone_iff_eq_none.mpr hFrame)]
    exact .inl ⟨hFrame, rfl⟩
  rw [if_neg (by simpa using hFrame)] at hFailed ⊢
  split at hFailed
  swap
  · exact absurd hFailed (Int.lt_irrefl 0)
  rename_i hMode
  split at hFailed
  · exact absurd hFailed (Int.lt_irrefl 0)
  rename_i hRefused
  rw [if_pos hMode, if_neg hRefused]
  refine .inr ⟨hFrame, fun hSame => ?_⟩
  have hKept := (hSame.declared w).1
  rw [hMode, Kernel.grantReply, Kernel.granted, if_neg hRefused] at hKept
  simp [Kernel.tell, Kernel.modTcb] at hKept

/-
  A failed send is without effect just where no task is parked
  there, or the message cannot be read; or where no frame was
  saved, which is so of no parked task, and the bytes are those
  that the buffer had.
-/
theorem failed_send_unchanged_iff (k : Kernel) (cur e : Nat) (user : List UInt8) (len : Nat)
    (inv : IpcInvoker) (room : Nat) (old : List UInt8)
    (hFailed : (sysIpcSend k cur e user len inv room).1 < 0) :
    (Untouched k (sysIpcSend k cur e user len inv room).2 e ∧
      sendBuffer k e user len room old = old) ↔
    ∀ E w data, k.eps e = some E → k.parkedReceiver E = some w →
      copyFromUser user (handOffLen k w (min len ipcMsgMax)) = some data →
      (k.tcbs w).savedKsp = none ∧ sendBuffer k e user len room old = old := by
  have hQuiet : (sysIpcSend k cur e user len inv room).2 = k → sendStores k e user len room = [] →
      Untouched k (sysIpcSend k cur e user len inv room).2 e ∧
        sendBuffer k e user len room old = old := by
    intro hSame hNone
    rw [hSame, sendBuffer, hNone]
    exact ⟨Untouched.refl, rfl⟩
  cases hEp : k.eps e with
  | none => exact iff_of_true (hQuiet (by simp [sysIpcSend, hEp]) (by simp [sendStores, hEp])) nofun
  | some E =>
  cases hParked : k.parkedReceiver E with
  | none =>
    refine iff_of_true (hQuiet ?_ (by simp [sendStores, hEp, hParked])) ?_
    · simp only [sysIpcSend, hEp, hParked] at hFailed ⊢
      split at hFailed
      · rename_i hFull
        rw [if_pos hFull]
      rename_i hRoom
      rw [if_neg hRoom]
      split at hFailed
      · rfl
      · exact absurd hFailed (Int.lt_irrefl 0)
    · rintro E' w data ⟨⟩ hSome
      rw [hParked] at hSome
      cases hSome
  | some w =>
  have hHandOff : sysIpcSend k cur e user len inv room =
      handOff k cur e E w user (min len ipcMsgMax) inv room := by
    simp only [sysIpcSend, hEp, hParked]
  cases hCopy : copyFromUser user (handOffLen k w (min len ipcMsgMax)) with
  | none =>
    refine iff_of_true (hQuiet ?_ (by simp [sendStores, hEp, hParked, hCopy])) ?_
    · rw [hHandOff, handOff, hCopy]
    · rintro E' w' data ⟨⟩ hSome hRead
      cases Option.some.inj (hParked.symm.trans hSome)
      rw [hCopy] at hRead
      cases hRead
  | some data =>
  rw [hHandOff] at hFailed ⊢
  rcases handOff_fails hCopy hFailed with ⟨hFrame, hSame⟩ | ⟨hFrame, hChanged⟩
  · rw [hSame]
    constructor
    · rintro ⟨_, hBuffer⟩ E' w' _ ⟨⟩ hSome _
      cases Option.some.inj (hParked.symm.trans hSome)
      exact ⟨hFrame, hBuffer⟩
    · intro hAll
      exact ⟨Untouched.refl, (hAll E w data rfl hParked hCopy).2⟩
  · refine iff_of_false (fun hBoth => hChanged hBoth.1) fun hAll => ?_
    exact hFrame (hAll E w data rfl hParked hCopy).1

/- Task 2 waits in a receive on endpoint 4. -/
def waitAtFour : Kernel :=
  kernelExecAll (kernelBoot smallMachine)
    [.cap (.createTask 1 .kernel), .cap (.createTask 2 .kernel), .cap (.installFromRoot 2 30 13 4),
      .recvBlock 2 30 4096 256 256, .publish 2 ⟨0, 0⟩ 256 false]

/- A message that cannot be read is refused and changes nothing. -/
theorem failed_send_unchanged_iff_unread :
    (sysIpcSend waitAtFour 1 4 [] 1 ipcNoInvoker 256).1 = -1 ∧
      Untouched waitAtFour (sysIpcSend waitAtFour 1 4 [] 1 ipcNoInvoker 256).2 4 ∧
      sendBuffer waitAtFour 4 [] 1 256 [5] = [5] := by
  refine ⟨by decide +kernel, (failed_send_unchanged_iff waitAtFour 1 4 [] 1 ipcNoInvoker 256 [5]
    (by decide +kernel)).mpr ?_⟩
  intro E w data hEp hParked hCopy
  have hWaiter : (waitAtFour.eps 4).bind waitAtFour.parkedReceiver = some 2 := by
    decide +kernel
  rw [hEp, Option.bind_some, hParked] at hWaiter
  cases hWaiter
  rw [show copyFromUser [] (handOffLen waitAtFour 2 (min 1 ipcMsgMax)) = none by decide +kernel]
    at hCopy
  cases hCopy

/-
  The receiver holds as many capabilities as a task may, so no
  reply capability can be installed.
-/
theorem refused_send_clears_mode :
    let k := { waitAtFour with cap := { waitAtFour.cap with capsInUse := fun _ => maxCapsPerTask } }
    let k' := (sysIpcSend k 1 4 [7] 1 ipcNoInvoker 256).2
    (sysIpcSend k 1 4 [7] 1 ipcNoInvoker 256).1 = -1 ∧ k.state 2 = .blockedIpc ∧
      (k.tcbs 2).ipcRecvBlock = true ∧ (k'.tcbs 2).ipcRecvBlock = false ∧
      (k.eps 4).map Endpoint.lastSender = some none ∧
      (k'.eps 4).map Endpoint.lastSender = some (some 1) ∧ sendBuffer k 4 [7] 1 256 [5] = [7] := by
  decide +kernel

end Horus
