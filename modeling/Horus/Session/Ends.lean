import Horus.Session.Right

/-
  A session ends with its login.

  A shell has the capabilities of the account that logged in on
  it, unless nobody has or another task came into its slot.

  Main declarations:
    * `Careful`, `SessOk`, `SessRun`
    * `Inv.initStep`, `Inv.step`
    * `session_ends_with_login`
-/

namespace Horus.Session

open Function

variable {m : SessMsg} {κ : Kind} {uid : Nat} {sg : FsGrant} {c : TaskCap}

/- The calls that put a capability into the shell's slot. -/
def Pc.grants : Pc → Bool
  | .grant _ _ _ => true
  | .lendGrant _ => true
  | _ => false

/-
  A session is asked for by a shell that somebody has logged in
  on, and no other task is in its slot when init grants.
-/
def Careful (s : SessState) : SessEvent → Bool
  | .send .opens => s.logged.isSome
  | .init _ _ => !s.pc.grants || s.intruder.isNone
  | _ => true

/- The steps of a run: those that can be made. -/
def SessOk (s : SessState) (e : SessEvent) : Prop := sessEnabled s e = true ∧ Careful s e = true

instance (s : SessState) (e : SessEvent) : Decidable (SessOk s e) :=
  inferInstanceAs (Decidable (_ ∧ _))

def SessRun := Lib.Run sessStep SessOk

----
-- The Steps of Init
----

section steps

variable
  {s : SessState}
  {floor : Nat}

/- A new shell has asked for nothing yet. -/
theorem Core.launchShell (hCore : Core s floor) (hGone : Gone s) : Inv s.launchShell := by
  refine ⟨⟨floor,
    { hCore with
      kept := fun κ k hKept => ?_
      lent := fun κ l hLent => ?_
      caps := fun c hMem => ?_
      asked := fun m hMem => ?_
      login := nofun }⟩, trivial⟩
  · rw [show s.launchShell.kept κ = none from hGone κ] at hKept
    cases hKept
  · rw [show s.launchShell.lent κ = none from hCore.lent_of_gone hGone κ] at hLent
    cases hLent
  · rw [show s.launchShell.caps = [] from hCore.caps_of_gone hGone] at hMem
    cases hMem
  cases m with
  | request n op =>
    have hLe : n ≤ s.shell := (hCore.asked (.request n op) hMem).1
    refine ⟨Nat.le_succ_of_le hLe, fun hEq => ?_⟩
    have : n = s.shell + 1 := hEq
    omega
  | notice => trivial

/- A message is taken from the queue. -/
theorem Core.dequeue (hCore : Core s floor) {rest : List SessMsg} (hQueue : s.queue = m :: rest)
    (msg : Option Nat) : Core { s with queue := rest, msg := msg } floor :=
  { hCore with
    asked := fun m' hMem => hCore.asked m' (by rw [hQueue]; exact List.mem_cons_of_mem _ hMem) }

theorem Core.receive (hCore : Core s floor) (hPc : s.pc = .listen) : Inv s.receive := by
  unfold SessState.receive
  cases hQueue : s.queue with
  | nil =>
    refine ⟨⟨floor, hCore⟩, ?_⟩
    rw [hPc]
    trivial
  | cons m =>
  cases m with
  | request n op =>
    refine (hCore.dequeue hQueue (some n)).startClose ?_
    cases op with
    | opens =>
      intro n' hMsg hShell
      cases hMsg
      have hAsked := hCore.asked (.request n .opens) (by rw [hQueue]; exact List.mem_cons_self)
      exact hAsked.2 hShell rfl
    | ends => trivial
  | notice => exact (hCore.dequeue hQueue none).startClose trivial

/- The account is the one that last logged in on the shell. -/
theorem Core.ipcSender (hCore : Core s floor) (hGone : Gone s)
    (hAfter : AfterRight s .opening) : Inv s.ipcSender := by
  unfold SessState.ipcSender
  split
  · rename_i hSender
    refine ⟨⟨floor, hCore.withPc _⟩, hGone, ?_⟩
    obtain ⟨u, hLogged⟩ := Option.isSome_iff_exists.mp (hAfter _ hSender.1 rfl)
    obtain ⟨rfl, hLast⟩ := hCore.login u hLogged
    exact hLast
  · exact hCore.answer _

theorem Core.lendNext (hCore : Core s floor)
    (hLending : Lending s κ) (hNone : ∀ κ' ∈ κ.later, s.kept κ' = none) : Inv (s.lendNext κ) := by
  obtain ⟨_, hRest⟩ := hLending
  cases κ with
  | user | klog => exact ⟨⟨floor, hCore.withPc _⟩, ⟨rfl, hRest⟩, hNone⟩
  | debug | root | cwd => exact hCore.answer _

/- A call that works or not, when both ways are right. -/
theorem orElse_inv {ok : Bool} {r : Option SessState} {no : SessState}
    (hYes : ∀ t, r = some t → Inv t) (hNo : Inv no) : Inv (SessState.orElse ok r no) := by
  unfold SessState.orElse
  split
  · cases hR : r with
    | none => exact hNo
    | some t => exact hYes t hR
  · exact hNo

theorem Opening.keepMore (hOpening : Opening s uid sg) (κ : Kind) (token : Nat) (asked : Rights) :
    Opening (s.keepMore κ token asked) uid sg := by
  obtain ⟨hOpen, S, hHead, hRest⟩ := hOpening
  refine ⟨hOpen, S.add s.next, ?_, hRest⟩
  rw [sessions_keepMore hHead]
  rfl

theorem Core.mintRootStep (hCore : Core s floor) (sg : FsGrant)
    (hGone : Gone s) (hLast : s.lastLogin uid = some s.shell) :
    Inv { s.openWith uid sg with pc := .mintCwd uid sg } := by
  refine ⟨⟨_, (hCore.openWith hGone sg hLast).withPc _⟩,
    ⟨rfl, _, rfl, rfl, rfl, rfl, hLast⟩, fun κ hAdmin => ?_, ?_⟩
  · have hNe : κ ≠ .root := by
      rintro rfl
      cases hAdmin
    exact (kept_keep_ne hNe _ _).trans (hGone κ)
  · have hNe : Kind.cwd ≠ .root := by decide
    exact (kept_keep_ne (s := s) hNe (sg.token .root) (sg.rights .root)).trans (hGone .cwd)

theorem Core.mintCwdStep (hCore : Core s floor) (hOpening : Opening s uid sg) (hAdmin : NoAdmin s)
    (hCwd : s.kept .cwd = none) : Inv
      { s.keepMore .cwd (sg.token .cwd) (sg.rights .cwd) with pc := .mintLent .root uid sg } := by
  have hNew := hCore.keepMore hOpening hCwd hOpening.1
    (fun hNot => by cases hNot) (sg.token .cwd) (fun _ => rfl)
    (sg.rights .cwd) rfl
  refine ⟨⟨floor, hNew.withPc _⟩, hOpening.keepMore .cwd (sg.token .cwd) (sg.rights .cwd),
    fun κ hKind => ?_⟩
  have hNe : κ ≠ .cwd := by
    rintro rfl
    cases hKind
  exact (kept_keep_ne hNe _ _).trans (hAdmin κ hKind)

theorem keepRights_admin (hAdmin : κ.admin = true)
    (a b : Rights) : keepRights a κ = keepRights b κ := by
  cases κ with
  | root | cwd => cases hAdmin
  | user | klog | debug => rfl

theorem giveRights_admin (hAdmin : κ.admin = true)
    (a b : Rights) : giveRights a κ = giveRights b κ := by
  cases κ with
  | root | cwd => cases hAdmin
  | user | klog | debug => rfl

theorem Core.lendKeepStep (hCore : Core s floor) (hLending : Lending s κ)
    (hNone : ∀ κ' ∈ κ :: κ.later, s.kept κ' = none) :
    Inv { s.keepMore κ 0 0 with pc := .lendMint κ } := by
  obtain ⟨hAdmin, hFlag, sg, hOpening⟩ := hLending
  have hNew := hCore.keepMore hOpening (hNone κ List.mem_cons_self)
    (by unfold Flagged; rw [if_pos hAdmin]; exact hFlag)
    (fun _ => rfl) 0
    (fun hNot => by rw [hAdmin] at hNot; cases hNot) 0
    (keepRights_admin hAdmin 0 _)
  refine ⟨⟨floor, hNew.withPc _⟩, ⟨hAdmin, hFlag, sg, hOpening.keepMore κ 0 0⟩, fun κ' hMem => ?_⟩
  have hNe : κ' ≠ κ := by
    rintro rfl
    cases κ' <;> simp [Kind.later] at hMem
  exact (kept_keep_ne hNe _ _).trans (hNone κ' (List.mem_cons_of_mem _ hMem))

theorem Core.granted (hCore : Core s floor) (κ : Kind) (hOpening : Opening s uid sg)
    (hAdmin : NoAdmin s) : Inv (s.granted κ uid sg) := by
  have hLend : Inv (if uid = 0 then
          { s with sessAdmin := true, pc := .lendKeep .user }
        else { s with pc := .reply 0 .opens }) := by
    split
    · rename_i hUid
      subst hUid
      refine ⟨⟨floor, { hCore with flags := fun κ k hKept => ?_ }⟩, ⟨rfl, rfl, sg, hOpening⟩,
        fun κ hMem => ?_⟩
      · have hFlag := hCore.flags κ k hKept
        unfold Flagged at hFlag ⊢
        by_cases hKind : κ.admin = true
        · rw [if_pos hKind]
        · rw [if_neg hKind] at hFlag ⊢
          exact hFlag
      · refine hAdmin κ ?_
        simp only [Kind.later, List.mem_cons, List.not_mem_nil, or_false] at hMem
        rcases hMem with rfl | rfl | rfl <;> rfl
    · exact hCore.answer _
  cases κ with
  | root => exact ⟨⟨floor, hCore.withPc _⟩, hOpening, hAdmin⟩
  | cwd | user | klog | debug => exact hLend

/- Every call of init. -/
theorem Inv.initStep (hInv : Inv s) (ok : Bool) (answer : Except Int FsGrant)
    (hSlot : s.pc.grants = true → s.intruder = none) : Inv (s.initStep ok answer) := by
  obtain ⟨⟨floor, hCore⟩, hPc⟩ := hInv
  unfold SessState.initStep
  cases hAt : s.pc with rw [hAt] at hPc
  | launch => exact hCore.launchShell hPc
  | listen => exact hCore.receive hAt
  | take κ bad => exact hCore.takeBack κ bad hPc.1 hPc.2.1 hPc.2.2
  | endG bad => exact hCore.endSession hPc.1 hPc.2.2 bad hPc.2.1
  | sender => exact hCore.ipcSender hPc.1 hPc.2
  | ask =>
    cases answer with
    | error => exact hCore.answer _
    | ok sg =>
    dsimp only
    split
    · exact hCore.answer _
    · exact ⟨⟨floor, hCore.withPc _⟩, hPc⟩
  | mintRoot _ sg =>
    cases ok with
    | true => exact hCore.mintRootStep sg hPc.1 hPc.2
    | false => exact hCore.answer _
  | mintCwd =>
    cases ok with
    | true => exact hCore.mintCwdStep hPc.1 hPc.2.1 hPc.2.2
    | false => exact hCore.startClose trivial
  | mintLent κ uid sg =>
    obtain ⟨hOpening, hAdmin⟩ := hPc
    refine orElse_inv (fun t hT => ?_) (hCore.startClose trivial)
    obtain ⟨u, hMint, rfl⟩ := Option.map_eq_some_iff.mp hT
    obtain ⟨_, S, hHead, _, hSg, _⟩ := id hOpening
    obtain ⟨hNew, hKeeps⟩ := hCore.mintFrom (fun T hHead' => by
        rw [hHead] at hHead'
        cases hHead'
        rw [hSg]) hMint
    have hStill : Opening u uid sg ∧ NoAdmin u := ⟨hKeeps.opening hOpening,
        fun κ hKind => hKeeps.kept κ (hAdmin κ hKind)⟩
    cases κ <;> exact ⟨⟨floor, hNew.withPc _⟩, hStill⟩
  | grant κ =>
    rw [hAt] at hSlot
    obtain ⟨hOpening, hAdmin⟩ := hPc
    refine orElse_inv (fun t hT => ?_) (hCore.startClose trivial)
    obtain ⟨u, hGrant, rfl⟩ := Option.map_eq_some_iff.mp hT
    obtain ⟨hNew, hKeeps⟩ := hCore.grantTo (hSlot rfl) hGrant
    exact hNew.granted κ (hKeeps.opening hOpening) fun κ hKind => hKeeps.kept κ (hAdmin κ hKind)
  | lendKeep =>
    cases ok with
    | true => exact hCore.lendKeepStep hPc.1 hPc.2
    | false => exact hCore.lendNext hPc.1 fun κ' hMem => hPc.2 κ' (List.mem_cons_of_mem _ hMem)
  | lendMint =>
    obtain ⟨hLending, hNone⟩ := hPc
    refine orElse_inv (fun t hT => ?_) (hCore.lendNext hLending hNone)
    obtain ⟨u, hMint, rfl⟩ := Option.map_eq_some_iff.mp hT
    obtain ⟨hNew, hKeeps⟩ := hCore.mintFrom (fun T _ => giveRights_admin hLending.1 0 _) hMint
    exact ⟨⟨floor, hNew.withPc _⟩, hKeeps.lending hLending,
      fun κ' hMem => hKeeps.kept κ' (hNone κ' hMem)⟩
  | lendGrant =>
    rw [hAt] at hSlot
    obtain ⟨hLending, hNone⟩ := hPc
    refine orElse_inv (fun t hT => ?_) (hCore.lendNext hLending hNone)
    obtain ⟨u, hGrant, rfl⟩ := Option.map_eq_some_iff.mp hT
    obtain ⟨hNew, hKeeps⟩ := hCore.grantTo (hSlot rfl) hGrant
    exact hNew.lendNext (hKeeps.lending hLending) fun κ' hMem => hKeeps.kept κ' (hNone κ' hMem)
  | reply rc op =>
    dsimp only
    split
    · rename_i hEnd
      exact ⟨⟨_, (hCore.allOver (hPc hEnd.2)).withPc _⟩, trivial⟩
    · exact ⟨⟨floor, hCore.withPc _⟩, trivial⟩

end steps

----
-- The Steps of the Others
----

section others

variable
  {s : SessState}
  {floor : Nat}

theorem Core.enqueue (hCore : Core s floor)
    (hAsked : AskedRight s m) : Core (s.enqueue m) floor := by
  unfold SessState.enqueue
  split
  · refine { hCore with asked := fun m' hMem => ?_ }
    rcases List.mem_append.mp hMem with hWas | hNew
    · exact hCore.asked m' hWas
    · rw [List.mem_singleton.mp hNew]
      exact hAsked
  · exact hCore

theorem keeps_enqueue (m : SessMsg) : Keeps s (s.enqueue m) ∧ (s.enqueue m).pc = s.pc := by
  unfold SessState.enqueue
  split
  · exact ⟨{ Keeps.refl s with }, rfl⟩
  · exact ⟨Keeps.refl s, rfl⟩

/- Fewer capabilities are as right. -/
theorem Core.buryTask (hCore : Core s floor) (t : Task) : Core (s.buryTask t) floor :=
  { hCore with caps := fun c hMem => hCore.caps c (List.mem_of_mem_filter hMem) }

/- An account logs in on the shell there is. -/
theorem Inv.login (hInv : Inv s) (uid : Nat) : Inv (sessStep s (.login uid)) := by
  obtain ⟨⟨floor, hCore⟩, hPc⟩ := hInv
  have hLast : ∀ u, s.lastLogin u = some s.shell →
      update s.lastLogin uid (some s.shell) u = some s.shell := by
    intro u hU
    by_cases hEq : u = uid
    · rw [hEq, update_self]
    · rw [update_of_ne hEq]
      exact hU
  refine ⟨⟨floor,
    { hCore with
      kept := fun κ k hKept => ?_
      asked := fun m hMem => ?_
      login := fun u hLogged => ?_ }⟩, ?_⟩
  · obtain ⟨S, id, hHead, hShell, hWas, hRest⟩ := hCore.kept κ k hKept
    exact ⟨S, id, hHead, hShell, hLast S.uid hWas, hRest⟩
  · cases m with
    | request => exact ⟨(hCore.asked _ hMem).1, fun _ _ => rfl⟩
    | notice => trivial
  · cases hLogged
    exact ⟨rfl, update_self _ _ _⟩
  have hKeeps : Keeps s (sessStep s (.login uid)) :=
    { Keeps.refl s with lastLogin := hLast, logged := fun _ => rfl }
  exact hKeeps.atPc hPc

/- A copy of a copy descends from what init keeps. -/
theorem Core.pass (hCore : Core s floor) (hMem : c ∈ s.caps)
    (dst : Task) (token : Nat) (rights : Rights) :
    Core (sessStep s (.pass c dst token rights)) floor := by
  refine { hCore.number with caps := fun d hD => ?_ }
  cases hD with
  | head =>
    obtain ⟨k, hKept, hSub, hAll, _⟩ := hCore.caps c hMem
    exact ⟨k, hKept, List.subset_cons_of_subset _ hSub, hCore.number_path hAll, nofun⟩
  | tail _ hWas => exact hCore.caps d hWas

theorem revoke_pc (s : SessState) (c : Option SessCap) : (s.revoke c).2.pc = s.pc := by
  obtain hEq | ⟨id, hEq⟩ := revoke_cases s c
  · rw [hEq]
  · rw [hEq]
    rfl

/- Every step that can be made. -/
theorem Inv.step (hInv : Inv s) {e : SessEvent} (hOk : SessOk s e) : Inv (sessStep s e) := by
  obtain ⟨hEnabled, hCareful⟩ := hOk
  obtain ⟨⟨floor, hCore⟩, hPc⟩ := id hInv
  cases e with
  | init ok answer =>
    refine hInv.initStep ok answer fun hGrants => ?_
    unfold Careful at hCareful
    rw [hGrants] at hCareful
    simpa using hCareful
  | login uid => exact hInv.login uid
  | send op =>
    have hAsked : AskedRight s (.request s.shell op) := by
      refine ⟨Nat.le_refl _, fun _ hOp => ?_⟩
      subst hOp
      exact hCareful
    obtain ⟨hKeeps, hSame⟩ := keeps_enqueue (s := s) (.request s.shell op)
    refine ⟨⟨floor, hCore.enqueue hAsked⟩, ?_⟩
    exact (congrArg _ hSame).mpr (hKeeps.atPc hPc)
  | die =>
    have hNew := hCore.buryTask (.shell s.shell)
    exact ⟨⟨floor, { hNew with }⟩, hPc⟩
  | notice =>
    have hNew := hCore.enqueue (m := .notice) trivial
    obtain ⟨hKeeps, hSame⟩ := keeps_enqueue (s := s) .notice
    refine ⟨⟨floor, { hNew with }⟩, ?_⟩
    exact (congrArg _ hSame).mpr (hKeeps.atPc hPc)
  | intrude => exact ⟨⟨floor, { hCore with }⟩, hPc⟩
  | pass c dst token rights =>
    have hMem : c ∈ s.caps := by
      simp only [sessEnabled, Bool.and_eq_true] at hEnabled
      exact List.contains_iff_mem.mp hEnabled.1
    exact ⟨⟨floor, hCore.pass hMem dst token rights⟩, hPc⟩
  | drop κ =>
    refine ⟨⟨floor, hCore.revoke (s.shellCap κ)⟩, ?_⟩
    rw [show (sessStep s (.drop κ)).pc = s.pc from revoke_pc s (s.shellCap κ)]
    exact (keeps_revoke (s.shellCap κ)).atPc hPc
  | exit k =>
    have hNew := hCore.buryTask (.other k)
    exact ⟨⟨floor, { hNew with }⟩, hPc⟩

theorem inv_boot : Inv sessBoot := by
  refine ⟨⟨0, Nat.le_refl _, ?_, ?_, ?_, ?_, ?_, ?_, ?_, ?_, ?_, ?_, ?_⟩, fun κ => rfl⟩
  all_goals
    intros
    contradiction

end others

/-
  In every run in which sessions are asked for after a login
  and no other task is in the shell's slot when init grants.
-/
theorem session_ends_with_login {s : SessState} (hRun : SessRun sessBoot s) : SessionRight s := by
  have hInv : Inv s := Lib.Run.invariant Inv (fun _ _ hInv hOk => hInv.step hOk) hRun inv_boot
  obtain ⟨⟨floor, hCore⟩, _⟩ := hInv
  exact hCore.right

section histories

def homeGrant : FsGrant :=
  { g := 1, rootToken := 100, rootRights := 3072#32, cwdToken := 101, cwdRights := 64512#32 }

def calls (n : Nat) : List SessEvent := List.replicate n (.init true (.ok homeGrant))

/-
  Account 7 has a session and ends it; the administrator's
  ends with the shell.
-/
def twoLogins : List SessEvent :=
  calls 1 ++ [.login 7, .send .opens] ++ calls 10 ++
    [.send .ends] ++ calls 5 ++ [.login 0, .send .opens] ++
    calls 19 ++ [.die, .notice] ++ calls 7

theorem session_ends_with_login_twoLogins :
    SessionRight (Lib.runAll sessStep sessBoot twoLogins) ∧
      (Lib.runAll sessStep sessBoot twoLogins).past.length = 2 :=
  ⟨session_ends_with_login (Lib.run_runAll twoLogins (by decide +kernel)), by decide +kernel⟩

/- A shell that nobody logged in on asks for a session. -/
def askedTooEarly : List SessEvent := calls 1 ++ [.send .opens] ++ calls 9

/- The shell dies, and its slot is taken, as init opens. -/
def slotTaken : List SessEvent :=
  calls 1 ++ [.login 7, .send .opens] ++ calls 2 ++ [.die, .intrude 9] ++ calls 7

/- A copy in the wrong hands. -/
theorem not_right_of_given {s : SessState} (hMem : c ∈ s.caps) (hGiven : c.given = true)
    (hWrong : ∀ S ∈ s.sessions, c.owner = .shell S.shell → s.lastLogin S.uid ≠ some S.shell) :
    ¬ SessionRight s := by
  intro hRight
  obtain ⟨S, hS, _, _, hGive⟩ := hRight.held c hMem
  obtain ⟨hOwner, hLast, _⟩ := hGive hGiven
  exact hWrong S hS hOwner hLast

theorem session_in_other_hands :
    (Lib.AllOk sessStep (fun s e => sessEnabled s e = true) sessBoot askedTooEarly ∧
      ¬ SessionRight (Lib.runAll sessStep sessBoot askedTooEarly)) ∧
    (Lib.AllOk sessStep (fun s e => sessEnabled s e = true) sessBoot slotTaken ∧
      ¬ SessionRight (Lib.runAll sessStep sessBoot slotTaken)) := by
  refine ⟨⟨by decide +kernel, ?_⟩, by decide +kernel, ?_⟩
  · obtain ⟨c, hMem, hGiven⟩ : ∃ c ∈ (Lib.runAll sessStep sessBoot askedTooEarly).caps,
          c.given = true := by
      decide +kernel
    have hNever : ∀ S ∈ (Lib.runAll sessStep sessBoot askedTooEarly).sessions,
          (Lib.runAll sessStep sessBoot askedTooEarly).lastLogin S.uid ≠ some S.shell := by
      decide +kernel
    exact not_right_of_given hMem hGiven fun S hS _ => hNever S hS
  · obtain ⟨c, hMem, hGiven, hOwner⟩ : ∃ c ∈ (Lib.runAll sessStep sessBoot slotTaken).caps,
          c.given = true ∧ c.owner = .other 9 := by
      decide +kernel
    refine not_right_of_given hMem hGiven fun S _ hShell => ?_
    rw [hOwner] at hShell
    cases hShell

end histories

end Horus.Session
