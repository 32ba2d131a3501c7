import Horus.Kernel.Serials

/-
  `cap_move` loses what it moves.

  The transfer derives the copy in the destination from the
  source, so the revocation of the source that follows finds
  the copy below it and empties both slots. This holds in every
  reachable state and for all slots: no successful move leaves
  a capability in its destination.

  Main declarations:
    * `Moved`
    * `Tables.capTransfer_done`
    * `cap_move_never_moves`
-/

namespace Horus

open Function

/- What `cap_move` is for, from the slot `a` to the slot `d`. -/
structure Moved (s s' : CapState) (a d : Addr) : Prop where
  live : (s'.mem d).typ ≠ .null
  typ : (s'.mem d).typ = (s.mem a).typ
  object : (s'.mem d).object = (s.mem a).object
  rights : (s'.mem d).rights = (s.mem a).rights
  token : (s'.mem d).token = (s.mem a).token
  source : (s'.mem a).typ = .null
  others : ∀ b, b ≠ a → b ≠ d → s'.mem b = s.mem b

/- A transfer that is done has written one copy. -/
theorem Tables.capTransfer_done {s : CapState} (hTables : Tables s)
    {cur dest src : Nat} (hRun : s.running cur = true)
    (hDone : (capTransfer s cur dest src).1 = true) :
    ∃ a, s.Owns cur a ∧ a.slot = src ∧ (s.mem a).typ ≠ .null ∧
      (s.mem a).serial ≠ 0 ∧ s.freshSerial ≠ 0 ∧ s.Owns cur ⟨a.space, dest⟩ ∧
      (capTransfer s cur dest src).2 = (Act.install cur ⟨a.space, dest⟩
          (derivedCap (s.mem a) Right.all s.freshSerial) .transfer
          (some a)).apply s := by
  unfold capTransfer mintThrough at hDone ⊢
  cases hSlots : mintSlots s cur dest src with
  | none => simp [hSlots] at hDone
  | some found =>
  rcases found with ⟨a, d⟩
  rcases hTables.mintSlots_eq_some hRun hSlots with ⟨hOwns, hSrc, hUsed, hSerial, _, hDest, rfl, _⟩
  rw [hSlots] at hDone
  dsimp only at hDone ⊢
  cases hCore : rustCapTransfer s.mem s.nextSerial (some a.space)
      (s.tasks cur).cspaceSz dest src with
  | none =>
    rw [hCore] at hDone
    cases hDone
  | some =>
    rcases rustCapMint_eq_some hCore with ⟨rfl, _, _, _, _, _, hFresh⟩
    rcases a with ⟨space, slot⟩
    cases hSrc
    exact ⟨⟨space, slot⟩, hOwns, rfl, hUsed, hSerial, hFresh, hDest,
      s.commit_some cur _ _ .transfer _⟩

/- Both slots are empty after a move. -/
theorem capMove_empties {cfg : BootConfig} {s : Sys} (hReach : Reachable cfg s) {cur dest src : Nat}
    (hRun : s.cap.running cur = true) (hDone : (capMove s cur dest src).1 = true) {a d : Addr}
    (hA : s.cap.Owns cur a) (hSrc : a.slot = src) (hD : s.cap.Owns cur d) (hDest : d.slot = dest) :
    ((capMove s cur dest src).2.cap.mem d).typ = .null := by
  have hTables := hReach.sound.1
  unfold capMove at hDone ⊢
  by_cases hFirst : (capTransfer s.cap cur dest src).1 = true
  case neg =>
    rw [if_neg hFirst] at hDone
    cases hDone
  rw [if_pos hFirst] at hDone ⊢
  rcases hTables.capTransfer_done hRun hFirst with
    ⟨b, hB, hSlot, hUsed, hSerial, hFresh, hOwns, hMade⟩
  obtain rfl : b = a := hB.unique hA (hSlot.trans hSrc.symm)
  obtain rfl : ⟨b.space, dest⟩ = d := hOwns.unique hD hDest.symm
  have hNext : Reachable cfg { s with cap := (capTransfer s.cap cur dest src).2 } :=
    hReach.snoc (.transfer cur dest src) hRun trivial
  have hSound := hNext.sound
  rw [hMade] at hDone hSound ⊢
  generalize hCopy : derivedCap (s.cap.mem b) Right.all s.cap.freshSerial = c at hDone hSound ⊢
  -- The copy is a live child of the source, wherever it was put.
  have hTyp : c.typ ≠ .null := by
    rw [← hCopy]
    exact hUsed
  have hLinked : Linked c := by
    rw [← hCopy]
    exact ⟨hUsed, hFresh, hSerial⟩
  have hBadge : c.badge = (s.cap.mem b).serial := by
    rw [← hCopy]
    rfl
  have hStill : ∀ x, s.cap.Owns cur x →
      ((Act.install cur ⟨b.space, dest⟩ c .transfer (some b)).apply s.cap).Owns cur x :=
    fun x hX => { hX with }
  rcases hSound.1.capRevoke_cases hRun with ⟨_, hEmpty⟩ | ⟨b', hB', hSlot', hOk, _, hSweep⟩
  · have hNull := hEmpty hDone b (hStill b hA) hSrc
    rw [Act.install_mem] at hNull
    by_cases hSame : b = ⟨b.space, dest⟩
    · rw [← hSame, update_self] at hNull
      exact absurd hNull hTyp
    · rw [update_of_ne hSame] at hNull
      exact absurd hNull hUsed
  · obtain rfl : b' = b := hB'.unique (hStill b hA) (hSlot'.trans hSrc.symm)
    rw [hSweep, (hSound.2.2.sweep_mem hOk _).1]
    · rfl
    by_cases hSame : ⟨b'.space, dest⟩ = b'
    · exact .inl hSame
    right
    rw [Act.install_mem, update_of_ne (Ne.symm hSame)]
    unfold Revoked Below
    rw [update_self]
    have hVisible := hSound.1.visible_of_owns (hStill _ hD)
    exact ⟨hVisible, hTyp, .inl ⟨hSerial, .inl ⟨hVisible, hLinked, by rw [hBadge]⟩⟩⟩

/-
  A move that reports success has not moved the capability, in
  any reachable state and for any two slots of the caller.
-/
theorem cap_move_never_moves (cfg : BootConfig) (s : Sys)
    (hReach : Reachable cfg s) (cur dest src : Nat) (hRun : s.cap.running cur = true)
    (hDone : (capMove s cur dest src).1 = true) (a d : Addr)
    (hA : s.cap.Owns cur a) (hSrc : a.slot = src) (hD : s.cap.Owns cur d) (hDest : d.slot = dest) :
    ¬ Moved s.cap (capMove s cur dest src).2.cap a d := by
  intro hMoved
  exact hMoved.live (capMove_empties hReach hRun hDone hA hSrc hD hDest)

/- Task 1 holds an endpoint with every right it needs. -/
def oneEndpoint : List Op := [.createTask 1 .kernel, .installFromRoot 1 30 13 4]

theorem cap_move_never_moves_oneEndpoint :
    (capMove (execAll (boot smallMachine) oneEndpoint) 1 40 30).1 = true ∧
      ¬ Moved (execAll (boot smallMachine) oneEndpoint).cap
        (capMove (execAll (boot smallMachine) oneEndpoint) 1 40 30).2.cap
        ⟨2, 30⟩ ⟨2, 40⟩ := by
  have hDone : (capMove (execAll (boot smallMachine) oneEndpoint) 1 40 30).1 = true := by
    decide +kernel
  exact ⟨hDone, cap_move_never_moves smallMachine _
    (runsWhile_execAll oneEndpoint (by decide +kernel)) 1 40 30
    (by decide +kernel) hDone ⟨2, 30⟩ ⟨2, 40⟩
    ⟨by decide +kernel, by decide +kernel, by decide⟩ rfl
    ⟨by decide +kernel, by decide +kernel, by decide⟩ rfl⟩

theorem cap_move_empties_destination :
    ∃ s, Reachable smallMachine s ∧ s.cap.running 1 = true ∧ (s.cap.mem ⟨2, 30⟩).typ = .endpoint ∧
      (capMove s 1 40 30).1 = true ∧ ((capMove s 1 40 30).2.cap.mem ⟨2, 40⟩).typ = .null :=
  ⟨execAll (boot smallMachine) oneEndpoint, runsWhile_execAll oneEndpoint (by decide +kernel),
    by decide +kernel, by decide +kernel, by decide +kernel,
    by decide +kernel⟩

end Horus
