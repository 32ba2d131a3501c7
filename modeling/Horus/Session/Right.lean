import Horus.Session.Init

/-
  What is left of a session.

  Every capability in the hands of a task descends from one of
  the copies that init keeps of the open session, so revoking
  those leaves nothing.
-/

namespace Horus.Session

open SessState
open Function

variable {F x : Rights} {k : After} {uid id : Nat} {sg : FsGrant}

/- A capability made from one of the copies of a session. -/
def Derived (c : SessCap) (S : SessInfo) : Prop := ∃ id ∈ S.ids, id ∈ c.path

/- Something of the session is left. -/
def SessState.OpenNow (s : SessState) (S : SessInfo) : Prop :=
  (∃ κ k, s.kept κ = some k ∧ Derived k S) ∨ (∃ κ l, s.lent κ = some l ∧ Derived l S) ∨
    (∃ c ∈ s.caps, Derived c.cap S)

/- What a copy that init gave to a task must be. -/
def GivenRight (s : SessState) (c : TaskCap) (S : SessInfo) : Prop :=
  c.owner = .shell S.shell ∧ s.lastLogin S.uid = some S.shell ∧
    (c.kind.admin = false → c.cap.token = S.sg.token c.kind ∧
        c.cap.rights &&& fsRights = S.sg.rights c.kind &&& fsRights)

/-
  At most one session is open; what a task has is of that
  session, and of the administrator's alone where it must be;
  what init gave is the shell's and as `fs_server` named it;
  nothing is left of a session that is over, nor was when its
  grant set was ended.
-/
structure SessionRight (s : SessState) : Prop where
  one : ∀ S ∈ s.sessions, ∀ S' ∈ s.sessions, s.OpenNow S → s.OpenNow S' → S = S'
  held : ∀ c ∈ s.caps, ∃ S ∈ s.sessions, Derived c.cap S ∧ (c.kind.admin = true → S.uid = 0) ∧
        (c.given = true → GivenRight s c S)
  past : ∀ S ∈ s.past, ¬ s.OpenNow S
  ended : ∀ e ∈ s.ends, ∃ S, e.session = some S ∧ S.sg.g = e.g ∧
        (∀ κ k, e.kept κ = some k → ¬ Derived k S) ∧ (∀ κ l, e.lent κ = some l → ¬ Derived l S) ∧
        ∀ c ∈ e.caps, ¬ Derived c.cap S

section rights

variable (asked : Rights)

/- Rights outside of `F` do not show in it. -/
theorem or_and_of_disjoint (hX : x &&& F = 0) : (x ||| asked) &&& F = asked &&& F := by
  rw [BitVec.and_comm, BitVec.and_or_distrib_left, BitVec.and_comm F x, hX, BitVec.and_comm F asked]
  exact BitVec.zero_or

/- Rights that contain `F` still do with others added. -/
theorem or_and_of_contains (hX : x &&& F = F) : (x ||| asked) &&& F = F := by
  rw [BitVec.and_comm, BitVec.and_or_distrib_left, BitVec.and_comm F x, hX]
  ext i hI
  simp only [BitVec.getElem_or, BitVec.getElem_and]
  cases F[i] <;> simp

/- What is kept of the file system, seen through a mask. -/
theorem keepRights_and {κ : Kind} (F : Rights) (hFile : κ.admin = false)
    (hF : sourceRights κ &&& ~~~tokenStrippedRights &&& F = F) : keepRights asked κ &&& F =
      ((Right.write ||| Right.grant ||| Right.revoke ||| Right.mint) ||| asked) &&& F := by
  have hEq : keepRights asked κ = (Right.write ||| Right.grant ||| Right.revoke |||
        Right.mint ||| asked) &&& sourceRights κ &&&
        ~~~tokenStrippedRights := by
    cases κ with
    | root | cwd => rfl
    | user | klog | debug => cases hFile
  rw [hEq, BitVec.and_assoc, BitVec.and_assoc, ← BitVec.and_assoc (sourceRights κ), hF]

/- init can revoke whatever it keeps. -/
theorem keepRights_revoke (κ : Kind) : keepRights asked κ &&& Right.revoke ≠ 0 := by
  cases κ with
  | root | cwd =>
    rw [keepRights_and asked _ rfl (by decide), or_and_of_contains asked (by decide)]
    decide
  | user =>
    change keepRights 0 .user &&& Right.revoke ≠ 0
    decide
  | klog =>
    change keepRights 0 .klog &&& Right.revoke ≠ 0
    decide
  | debug =>
    change keepRights 0 .debug &&& Right.revoke ≠ 0
    decide

/- The file rights are those that were asked for. -/
theorem giveRights_fsRights (κ : Kind) (hFile : κ.admin = false) :
    (giveRights asked κ &&& keepRights asked κ) &&& fsRights = asked &&& fsRights := by
  have hKept : keepRights asked κ &&& fsRights = asked &&& fsRights := by
    rw [keepRights_and asked fsRights hFile (by cases κ <;> first | decide | cases hFile)]
    exact or_and_of_disjoint asked (by decide)
  have hGiven : giveRights asked κ &&& fsRights = asked &&& fsRights := by
    cases κ with
    | root | cwd => exact or_and_of_disjoint asked (by decide)
    | user | klog | debug => cases hFile
  rw [BitVec.and_assoc, hKept, BitVec.and_comm asked, ← BitVec.and_assoc, hGiven, BitVec.and_assoc,
    BitVec.and_comm fsRights, ← BitVec.and_assoc,
    BitVec.and_self]

end rights

----
-- The Invariant
----

/- A copy that init keeps of the open session. -/
def KeptRight (s : SessState) (floor : Nat) (κ : Kind) (k : SessCap) : Prop :=
  ∃ S id, s.sessions.head? = some S ∧ S.shell = s.shell ∧ s.lastLogin S.uid = some s.shell ∧
      k.path = [id] ∧ id ∈ S.ids ∧ floor ≤ id ∧ (κ.admin = true → S.uid = 0) ∧
      k.rights = keepRights (S.sg.rights κ) κ ∧ (κ.admin = false → k.token = S.sg.token κ)

/- The token and the rights of a copy for the shell. -/
def CopyRight (s : SessState) (κ : Kind) (k c : SessCap) : Prop :=
  c.token = k.token ∧ ∃ S, s.sessions.head? = some S ∧
        c.rights = giveRights (S.sg.rights κ) κ &&& k.rights

/- The copy that init gives from. -/
def LentRight (s : SessState) (floor : Nat) (κ : Kind) (l : SessCap) : Prop :=
  ∃ k, s.kept κ = some k ∧ k.path ⊆ l.path ∧ (∀ x ∈ l.path, floor ≤ x) ∧ CopyRight s κ k l

/- What a task has descends from what init keeps. -/
def HeldRight (s : SessState) (floor : Nat) (c : TaskCap) : Prop :=
  ∃ k, s.kept c.kind = some k ∧ k.path ⊆ c.cap.path ∧ (∀ x ∈ c.cap.path, floor ≤ x) ∧
      (c.given = true → c.owner = .shell s.shell ∧ CopyRight s c.kind k c.cap)

/- What init's own flags say. -/
def Flagged (s : SessState) (κ : Kind) : Prop :=
  if κ.admin then s.sessAdmin = true else s.sessOpen = true

/- A grant set was ended with nothing left. -/
def EndedRight (e : EndSent) : Prop :=
  (∃ S, e.session = some S ∧ S.sg.g = e.g) ∧ (∀ κ, e.kept κ = none) ∧ (∀ κ, e.lent κ = none) ∧
    e.caps = []

/- A request is of a shell that was there. -/
def AskedRight (s : SessState) : SessMsg → Prop
  | .request n op => n ≤ s.shell ∧ (n = s.shell → op = .opens → s.logged.isSome = true)
  | .notice => True

/-
  Numbers below `floor` are those of sessions that are over;
  the capabilities that there are have others.
-/
structure Core (s : SessState) (floor : Nat) : Prop where
  floor_le : floor ≤ s.next
  old : ∀ S ∈ s.past, ∀ id ∈ S.ids, id < floor
  ids : ∀ S ∈ s.sessions, ∀ id ∈ S.ids, id < s.next
  tail : ∀ S ∈ s.sessions.tail, S ∈ s.past
  kept : ∀ κ k, s.kept κ = some k → KeptRight s floor κ k
  lent : ∀ κ l, s.lent κ = some l → LentRight s floor κ l
  caps : ∀ c ∈ s.caps, HeldRight s floor c
  flags : ∀ κ k, s.kept κ = some k → Flagged s κ
  grantSet : s.sessOpen = true → ∃ S, s.sessions.head? = some S ∧ S.sg.g = s.sessG
  ends : ∀ e ∈ s.ends, EndedRight e
  asked : ∀ m ∈ s.queue, AskedRight s m
  login : ∀ u, s.logged = some u → u = s.uid ∧ s.lastLogin u = some s.shell

/- init keeps nothing. -/
def Gone (s : SessState) : Prop := ∀ κ, s.kept κ = none

/- init keeps none of the administrator's capabilities. -/
def NoAdmin (s : SessState) : Prop := ∀ κ, κ.admin = true → s.kept κ = none

/- What is waiting for the end of `session_close`. -/
def AfterRight (s : SessState) : After → Prop
  | .opening => ∀ n, s.msg = some n → n = s.shell → s.logged.isSome = true
  | _ => True

/- The session that init is opening. -/
def Opening (s : SessState) (uid : Nat) (sg : FsGrant) : Prop :=
  s.sessOpen = true ∧ ∃ S, s.sessions.head? = some S ∧ S.uid = uid ∧ S.sg = sg ∧ S.shell = s.shell ∧
        s.lastLogin uid = some s.shell

/- The administrator's session, at one of its capabilities. -/
def Lending (s : SessState) (κ : Kind) : Prop :=
  κ.admin = true ∧ s.sessAdmin = true ∧ (∃ sg, Opening s 0 sg)

/- The capabilities that `admin_lend` makes after `κ`. -/
def Kind.later : Kind → List Kind
  | .user => [.klog, .debug]
  | .klog => [.debug]
  | _ => []

/- The capabilities that a close has taken before `κ`. -/
def Kind.taken : Kind → List Kind
  | .user => []
  | .klog => [.user]
  | .debug => [.user, .klog]
  | .root => [.user, .klog, .debug]
  | .cwd => [.user, .klog, .debug, .root]

/- What holds at each of init's calls. -/
def AtPc (s : SessState) : Pc → Prop
  | .launch => Gone s
  | .listen => True
  | .take κ _ k =>
    (∀ κ' ∈ κ.taken, s.kept κ' = none) ∧ AfterRight s k ∧ (κ.admin = false → s.sessOpen = true)
  | .endG _ k => Gone s ∧ AfterRight s k ∧ s.sessOpen = true
  | .sender => Gone s ∧ AfterRight s .opening
  | .ask uid => Gone s ∧ s.lastLogin uid = some s.shell
  | .mintRoot uid _ => Gone s ∧ s.lastLogin uid = some s.shell
  | .mintCwd uid sg => Opening s uid sg ∧ NoAdmin s ∧ s.kept .cwd = none
  | .mintLent _ uid sg => Opening s uid sg ∧ NoAdmin s
  | .grant _ uid sg => Opening s uid sg ∧ NoAdmin s
  | .lendKeep κ => Lending s κ ∧ ∀ κ' ∈ κ :: κ.later, s.kept κ' = none
  | .lendMint κ => Lending s κ ∧ ∀ κ' ∈ κ.later, s.kept κ' = none
  | .lendGrant κ => Lending s κ ∧ ∀ κ' ∈ κ.later, s.kept κ' = none
  | .reply _ op => op = .ends → Gone s

def Inv (s : SessState) : Prop := (∃ floor, Core s floor) ∧ AtPc s s.pc

section derive

variable
  {s : SessState}
  {floor : Nat}

variable {S : SessInfo}

namespace Core

variable (hCore : Core s floor)

include hCore

/- What is kept, lent or held has no number of an old session. -/
theorem not_open (hOld : ∀ id ∈ S.ids, id < floor) : ¬ s.OpenNow S := by
  rintro (⟨κ, k, hKept, id, hId, hPath⟩ |
    ⟨κ, l, hLent, id, hId, hPath⟩ | ⟨c, hMem, id, hId, hPath⟩)
  · obtain ⟨_, id', _, _, _, hEq, _, hLe, _⟩ := hCore.kept κ k hKept
    rw [hEq, List.mem_singleton] at hPath
    have := hOld id hId
    omega
  · obtain ⟨_, _, _, hAll, _⟩ := hCore.lent κ l hLent
    exact absurd (hOld id hId) (Nat.not_lt.mpr (hAll id hPath))
  · obtain ⟨_, _, _, hAll, _⟩ := hCore.caps c hMem
    exact absurd (hOld id hId) (Nat.not_lt.mpr (hAll id hPath))

theorem open_last (hMem : S ∈ s.sessions) (hOpen : s.OpenNow S) : s.sessions.head? = some S := by
  cases hSess : s.sessions with rw [hSess] at hMem
  | nil => cases hMem
  | cons =>
  cases hMem with
  | head => rfl
  | tail _ hRest =>
    have hOver : S ∈ s.past := hCore.tail S (by rw [hSess]; exact hRest)
    exact absurd hOpen (hCore.not_open (hCore.old S hOver))

/- With nothing kept there is nothing at all. -/
theorem lent_of_gone (hGone : Gone s) (κ : Kind) : s.lent κ = none := by
  cases hLent : s.lent κ with
  | none => rfl
  | some l =>
    obtain ⟨k, hKept, _⟩ := hCore.lent κ l hLent
    rw [hGone κ] at hKept
    cases hKept

theorem caps_of_gone (hGone : Gone s) : s.caps = [] := by
  refine List.eq_nil_iff_forall_not_mem.mpr fun c hMem => ?_
  obtain ⟨k, hKept, _⟩ := hCore.caps c hMem
  rw [hGone c.kind] at hKept
  cases hKept

/- The session that a task's capability is of. -/
theorem held {c : TaskCap} (hMem : c ∈ s.caps) :
    ∃ S ∈ s.sessions, Derived c.cap S ∧ (c.kind.admin = true → S.uid = 0) ∧
        (c.given = true → GivenRight s c S) := by
  obtain ⟨k, hKept, hSub, _, hGiven⟩ := hCore.caps c hMem
  obtain ⟨S, id, hHead, hShell, hLast, hPath, hId, _, hAdmin,
    hRights, hToken⟩ := hCore.kept c.kind k hKept
  refine ⟨S, List.mem_of_mem_head? hHead, ⟨id, hId, hSub (by rw [hPath]; exact List.mem_cons_self)⟩,
    hAdmin, fun hGive => ?_⟩
  obtain ⟨hOwner, hTok, S', hHead', hCopy⟩ := hGiven hGive
  rw [hHead] at hHead'
  cases hHead'
  refine ⟨by rw [hShell]; exact hOwner, by rw [hShell]; exact hLast,
    fun hFile => ⟨by rw [hTok]; exact hToken hFile, ?_⟩⟩
  rw [hCopy, hRights]
  exact giveRights_fsRights _ _ hFile

theorem right : SessionRight s where
  one := by
    intro S hMem S' hMem' hOpen hOpen'
    have hHead := hCore.open_last hMem hOpen
    rw [hCore.open_last hMem' hOpen'] at hHead
    exact (Option.some.inj hHead).symm
  held := fun c hMem => hCore.held hMem
  past := fun S hMem => hCore.not_open (hCore.old S hMem)
  ended := by
    intro e hMem
    obtain ⟨⟨S, hSession, hG⟩, hKept, hLent, hCaps⟩ := hCore.ends e hMem
    refine ⟨S, hSession, hG, fun κ k hK => ?_, fun κ l hL => ?_, fun c hC => ?_⟩
    · rw [hKept κ] at hK
      cases hK
    · rw [hLent κ] at hL
      cases hL
    · rw [hCaps] at hC
      cases hC

end Core

end derive

/- A step that undoes nothing of what holds at a call. -/
structure Keeps (s t : SessState) : Prop where
  kept : ∀ κ, s.kept κ = none → t.kept κ = none
  shell : t.shell = s.shell
  sessions : t.sessions = s.sessions
  sessOpen : t.sessOpen = s.sessOpen
  sessAdmin : t.sessAdmin = s.sessAdmin
  msg : t.msg = s.msg
  lastLogin : ∀ u, s.lastLogin u = some s.shell → t.lastLogin u = some s.shell
  logged : s.logged.isSome = true → t.logged.isSome = true

section keeps

variable
  {s t : SessState}

namespace Keeps

variable (hKeeps : Keeps s t)

include hKeeps

theorem after (hAfter : AfterRight s k) : AfterRight t k := by
  cases k with
  | opening =>
    intro n hMsg hShell
    rw [hKeeps.msg] at hMsg
    rw [hKeeps.shell] at hShell
    exact hKeeps.logged (hAfter n hMsg hShell)
  | ending | failed | died => trivial

theorem opening (hOpening : Opening s uid sg) : Opening t uid sg := by
  obtain ⟨hOpen, S, hHead, hUid, hSg, hShell, hLast⟩ := hOpening
  refine ⟨by rw [hKeeps.sessOpen]; exact hOpen, S, by rw [hKeeps.sessions]; exact hHead, hUid, hSg,
    by rw [hKeeps.shell]; exact hShell, ?_⟩
  rw [hKeeps.shell]
  exact hKeeps.lastLogin uid hLast

theorem lending {κ : Kind} (hLending : Lending s κ) : Lending t κ := by
  obtain ⟨hAdmin, hFlag, sg, hOpening⟩ := hLending
  exact ⟨hAdmin, by rw [hKeeps.sessAdmin]; exact hFlag, sg, hKeeps.opening hOpening⟩

theorem gone (hGone : Gone s) : Gone t := fun κ => hKeeps.kept κ (hGone κ)

theorem loggedIn (hLast : s.lastLogin uid = some s.shell) : t.lastLogin uid = some t.shell := by
  rw [hKeeps.shell]
  exact hKeeps.lastLogin uid hLast

theorem atPc {pc : Pc} (hPc : AtPc s pc) : AtPc t pc := by
  cases pc with
  | launch => exact hKeeps.gone hPc
  | listen => trivial
  | take =>
    exact ⟨fun κ' hMem => hKeeps.kept κ' (hPc.1 κ' hMem), hKeeps.after hPc.2.1,
      fun hFile => by rw [hKeeps.sessOpen]; exact hPc.2.2 hFile⟩
  | endG => exact ⟨hKeeps.gone hPc.1, hKeeps.after hPc.2.1, by rw [hKeeps.sessOpen]; exact hPc.2.2⟩
  | sender => exact ⟨hKeeps.gone hPc.1, hKeeps.after hPc.2⟩
  | ask => exact ⟨hKeeps.gone hPc.1, hKeeps.loggedIn hPc.2⟩
  | mintRoot => exact ⟨hKeeps.gone hPc.1, hKeeps.loggedIn hPc.2⟩
  | mintCwd =>
    exact ⟨hKeeps.opening hPc.1,
      fun κ hAdmin => hKeeps.kept κ (hPc.2.1 κ hAdmin),
      hKeeps.kept _ hPc.2.2⟩
  | mintLent κ | grant κ =>
    exact ⟨hKeeps.opening hPc.1, fun κ hAdmin => hKeeps.kept κ (hPc.2 κ hAdmin)⟩
  | lendKeep | lendMint | lendGrant =>
    exact ⟨hKeeps.lending hPc.1, fun κ' hMem => hKeeps.kept κ' (hPc.2 κ' hMem)⟩
  | reply => exact fun hEnds => hKeeps.gone (hPc hEnds)

end Keeps

end keeps

----
-- Revoking
----

section revoke

variable
  {s : SessState}
  {floor : Nat}

namespace Core

variable (hCore : Core s floor)

include hCore

theorem withPc (pc : Pc) : Core { s with pc := pc } floor := { hCore with }

/- A request for a session is refused. -/
theorem answer (rc : Int) : Inv { s with pc := .reply rc .opens } :=
  ⟨⟨floor, hCore.withPc _⟩, nofun⟩

/- A capability gets the next number. -/
theorem number : Core { s with next := s.next + 1 } floor :=
  { hCore with
    floor_le := Nat.le_succ_of_le hCore.floor_le
    ids := fun S hMem id hId => Nat.lt_succ_of_lt (hCore.ids S hMem id hId) }

theorem number_path {path : List Nat} (hAll : ∀ x ∈ path, floor ≤ x) :
    ∀ x ∈ s.next :: path, floor ≤ x :=
  List.forall_mem_cons.mpr ⟨hCore.floor_le, hAll⟩

end Core

theorem sweep_kept {κ : Kind} {k : SessCap} (hKept : (s.sweep id).kept κ = some k) :
    s.kept κ = some k ∧ id ∉ k.path := by
  simpa [sweep] using hKept

theorem kept_sweep {κ : Kind} {k : SessCap} (hKept : s.kept κ = some k) (hNot : id ∉ k.path) :
    (s.sweep id).kept κ = some k := by
  simp [sweep, hKept, Option.filter, hNot]

theorem Core.sweep (hCore : Core s floor) (id : Nat) : Core (s.sweep id) floor where
  __ := hCore
  kept := fun κ k hKept => hCore.kept κ k (sweep_kept hKept).1
  lent := by
    intro κ l hLent
    have hWas : s.lent κ = some l ∧ id ∉ l.path := by
      simpa [SessState.sweep] using hLent
    obtain ⟨k, hKept, hSub, hRest⟩ := hCore.lent κ l hWas.1
    exact ⟨k, kept_sweep hKept fun hIn => hWas.2 (hSub hIn), hSub, hRest⟩
  caps := by
    intro c hMem
    have hWas : c ∈ s.caps ∧ id ∉ c.cap.path := by
      simpa [SessState.sweep] using hMem
    obtain ⟨k, hKept, hSub, hRest⟩ := hCore.caps c hWas.1
    exact ⟨k, kept_sweep hKept fun hIn => hWas.2 (hSub hIn), hSub, hRest⟩
  flags := fun κ k hKept => hCore.flags κ k (sweep_kept hKept).1

theorem keeps_sweep (id : Nat) : Keeps s (s.sweep id) where
  kept := by
    intro κ hNone
    simp [sweep, hNone]
  shell := rfl
  sessions := rfl
  sessOpen := rfl
  sessAdmin := rfl
  msg := rfl
  lastLogin := fun _ hLast => hLast
  logged := fun hLogged => hLogged

/- A revocation sweeps or does nothing. -/
theorem revoke_cases (s : SessState) (c : Option SessCap) :
    (s.revoke c).2 = s ∨ ∃ id, (s.revoke c).2 = s.sweep id := by
  unfold revoke
  cases c with
  | none => exact .inl rfl
  | some c =>
  dsimp only
  split
  · exact .inl rfl
  cases c.path with
  | nil => exact .inl rfl
  | cons id => exact .inr ⟨id, rfl⟩

theorem Keeps.refl (s : SessState) : Keeps s s :=
  ⟨fun _ hNone => hNone, rfl, rfl, rfl, rfl, rfl,
    fun _ hLast => hLast, fun hLogged => hLogged⟩

theorem Core.revoke (hCore : Core s floor) (c : Option SessCap) : Core (s.revoke c).2 floor := by
  obtain hEq | ⟨id, hEq⟩ := revoke_cases s c
  · rw [hEq]
    exact hCore
  · rw [hEq]
    exact hCore.sweep id

theorem keeps_revoke (c : Option SessCap) : Keeps s (s.revoke c).2 := by
  obtain hEq | ⟨id, hEq⟩ := revoke_cases s c
  · rw [hEq]
    exact Keeps.refl s
  · rw [hEq]
    exact keeps_sweep id

/- What init revokes is gone, since it holds REVOKE on it. -/
theorem Core.revoke_kept (hCore : Core s floor) (κ : Kind) :
    (s.revoke (s.kept κ)).2.kept κ = none := by
  cases hKept : s.kept κ with
  | none => exact hKept
  | some k =>
  obtain ⟨S, id, _, _, _, hPath, _, _, _, hRights, _⟩ := hCore.kept κ k hKept
  have hHeld : k.rights &&& Right.revoke ≠ 0 := by
    rw [hRights]
    exact keepRights_revoke _ κ
  unfold SessState.revoke
  dsimp only
  rw [if_neg hHeld]
  simp [SessState.sweep, hKept, Option.filter, hPath]

end revoke

----
-- Closing
----

section close

variable
  {s : SessState}
  {floor : Nat}

namespace Core

variable (hCore : Core s floor)

include hCore

/- With nothing left, every session so far is over. -/
theorem allOver (hGone : Gone s) : Core { s with past := s.sessions } s.next where
  floor_le := Nat.le_refl _
  old := hCore.ids
  __ := hCore
  tail := fun S hMem => List.mem_of_mem_tail hMem
  kept := by
    intro κ k hKept
    rw [hGone κ] at hKept
    cases hKept
  lent := by
    intro κ l hLent
    rw [hCore.lent_of_gone hGone κ] at hLent
    cases hLent
  caps := by
    intro c hMem
    rw [hCore.caps_of_gone hGone] at hMem
    cases hMem

theorem finish (hGone : Gone s) (bad : Bool) (hAfter : AfterRight s k) : Inv (s.finish bad k) := by
  cases k with
  | opening => exact ⟨⟨floor, hCore.withPc _⟩, hGone, hAfter⟩
  | ending => exact ⟨⟨floor, hCore.withPc _⟩, fun _ => hGone⟩
  | failed => exact hCore.answer _
  | died => exact ⟨⟨_, (hCore.allOver hGone).withPc _⟩, hGone⟩

theorem closeFs (hAdmin : NoAdmin s)
    (bad : Bool) (hAfter : AfterRight s k) : Inv (s.closeFs bad k) := by
  unfold SessState.closeFs
  split
  · rename_i hOpen
    refine ⟨⟨floor, hCore.withPc _⟩, fun κ hMem => ?_, hAfter, fun _ => hOpen⟩
    exact hAdmin κ (by
      simp only [Kind.taken, List.mem_cons, List.not_mem_nil, or_false] at hMem
      rcases hMem with rfl | rfl | rfl <;> rfl)
  · rename_i hOpen
    refine hCore.finish (fun κ => ?_) bad hAfter
    cases hKept : s.kept κ with
    | none => rfl
    | some k =>
    have hFlag := hCore.flags κ k hKept
    unfold Flagged at hFlag
    by_cases hKind : κ.admin = true
    · rw [hAdmin κ hKind] at hKept
      cases hKept
    · rw [if_neg hKind] at hFlag
      exact absurd hFlag hOpen

theorem startClose (hAfter : AfterRight s k) : Inv (s.startClose k) := by
  unfold SessState.startClose
  split
  · exact ⟨⟨floor, hCore.withPc _⟩, nofun, hAfter, nofun⟩
  rename_i hFlag
  refine hCore.closeFs (fun κ hKind => ?_) false hAfter
  cases hKept : s.kept κ with
  | none => rfl
  | some k =>
    have hSet := hCore.flags κ k hKept
    unfold Flagged at hSet
    rw [if_pos hKind] at hSet
    exact absurd hSet hFlag

/- One revocation of a close. -/
theorem takeBack (κ : Kind) (bad : Bool)
    (hTaken : ∀ κ' ∈ κ.taken, s.kept κ' = none) (hAfter : AfterRight s k)
    (hOpen : κ.admin = false → s.sessOpen = true) : Inv (s.takeBack κ bad k) := by
  have hNew := hCore.revoke (s.kept κ)
  have hKeeps : Keeps s (s.revoke (s.kept κ)).2 := keeps_revoke (s.kept κ)
  have hThis := hCore.revoke_kept κ
  have hNow : ∀ κ' ∈ κ.taken ++ [κ], (s.revoke (s.kept κ)).2.kept κ' = none := by
    intro κ' hMem
    rcases List.mem_append.mp hMem with hBefore | hLast
    · exact hKeeps.kept κ' (hTaken κ' hBefore)
    · rw [List.mem_singleton.mp hLast]
      exact hThis
  have hAfter' := hKeeps.after hAfter
  unfold SessState.takeBack
  dsimp only
  revert hNew hAfter' hNow
  have hOpen' := hKeeps.sessOpen
  revert hOpen'
  generalize (s.revoke (s.kept κ)).2 = t
  intro hOpen' hNew hNow hAfter'
  cases κ with
  | user | klog => exact ⟨⟨floor, hNew.withPc _⟩, hNow, hAfter', nofun⟩
  | debug =>
    have hAdmin : NoAdmin t := by
      intro κ hKind
      refine hNow κ ?_
      cases κ with
      | user | klog | debug => simp [Kind.taken]
      | root | cwd => cases hKind
    have hFlag : Core { t with sessAdmin := false } floor :=
      { hNew with
        flags := fun κ k hKept => by
          have hKind : κ.admin = false := by
            by_contra hNot
            rw [hAdmin κ (by simpa using hNot)] at hKept
            cases hKept
          have := hNew.flags κ k hKept
          unfold Flagged at this ⊢
          rw [hKind] at this ⊢
          exact this }
    exact hFlag.closeFs hAdmin _ hAfter'
  | root =>
    exact ⟨⟨floor, hNew.withPc _⟩, hNow, hAfter', fun _ => by rw [← hOpen rfl]; exact hOpen'⟩
  | cwd =>
    refine ⟨⟨floor, hNew.withPc _⟩, fun κ => hNow κ ?_, hAfter', by rw [← hOpen rfl]; exact hOpen'⟩
    cases κ <;> simp [Kind.taken]

/- The grant set is ended when nothing is left. -/
theorem endSession (hGone : Gone s) (hOpen : s.sessOpen = true) (bad : Bool)
    (hAfter : AfterRight s k) : Inv (s.endSession bad k) := by
  have hEnd : Core
      { s with
        sessOpen := false
        sessG := 0
        ends :=
          { g := s.sessG
            session := s.sessions.head?
            kept := s.kept
            lent := s.lent
            caps := s.caps } :: s.ends } floor := by
    refine { hCore with flags := fun κ k hKept => ?_, grantSet := nofun, ends := fun e hMem => ?_ }
    · rw [hGone κ] at hKept
      cases hKept
    cases hMem with
    | head =>
      obtain ⟨S, hHead, hG⟩ := hCore.grantSet hOpen
      exact ⟨⟨S, hHead, hG⟩, hGone, hCore.lent_of_gone hGone, hCore.caps_of_gone hGone⟩
    | tail _ hWas => exact hCore.ends e hWas
  exact hEnd.finish hGone bad hAfter

end Core

end close

----
-- Opening
----

variable {t : SessState}

section opening

variable
  {s : SessState}
  {floor : Nat}

theorem kept_keep_self (s : SessState) (κ : Kind) (token : Nat) (asked : Rights) :
    (s.keep κ token asked).kept κ = some
        { path := [s.next], token := token, rights := keepRights asked κ } :=
  update_self _ _ _

theorem kept_keep_ne {κ κ' : Kind} (hNe : κ' ≠ κ) (token : Nat) (asked : Rights) :
    (s.keep κ token asked).kept κ' = s.kept κ' :=
  update_of_ne hNe _ _

theorem Core.openWith (hCore : Core s floor) (hGone : Gone s) (sg : FsGrant) (hLast : s.lastLogin uid = some s.shell) :
    Core (s.openWith uid sg) s.next where
  floor_le := Nat.le_succ _
  old := hCore.ids
  ids := by
    intro S hMem id hId
    cases hMem with
    | head =>
      rw [List.mem_singleton.mp hId]
      exact Nat.lt_succ_self _
    | tail _ hWas => exact Nat.lt_succ_of_lt (hCore.ids S hWas id hId)
  tail := fun _ hMem => hMem
  kept := by
    intro κ k hKept
    rcases eq_or_ne κ .root with rfl | hRoot
    · have hSelf := kept_keep_self s .root (sg.token .root) (sg.rights .root)
      obtain rfl := Option.some.inj (hSelf.symm.trans hKept)
      exact ⟨_, s.next, rfl, rfl, hLast, rfl, List.mem_cons_self, Nat.le_refl _,
        nofun, rfl, fun _ => rfl⟩
    · have hWas := (kept_keep_ne hRoot _ _).symm.trans hKept
      rw [hGone κ] at hWas
      cases hWas
  lent := by
    intro κ l hLent
    rw [show (s.openWith uid sg).lent κ = none from hCore.lent_of_gone hGone κ] at hLent
    cases hLent
  caps := by
    intro c hMem
    rw [show (s.openWith uid sg).caps = [] from hCore.caps_of_gone hGone] at hMem
    cases hMem
  flags := by
    intro κ k hKept
    rcases eq_or_ne κ .root with rfl | hRoot
    · rfl
    · have hWas := (kept_keep_ne hRoot _ _).symm.trans hKept
      rw [hGone κ] at hWas
      cases hWas
  grantSet := fun _ => ⟨_, rfl, rfl⟩
  __ := hCore

/- A session has one more copy. -/
def SessInfo.add (S : SessInfo) (id : Nat) : SessInfo := { S with ids := id :: S.ids }

theorem sessions_keepMore {S : SessInfo} (hHead : s.sessions.head? = some S)
    (κ : Kind) (token : Nat) (asked : Rights) : (s.keepMore κ token asked).sessions =
      S.add s.next :: s.sessions.tail := by
  cases hSess : s.sessions with rw [hSess] at hHead
  | nil => cases hHead
  | cons =>
    cases hHead
    simp only [keepMore, hSess]
    rfl

theorem Core.keepMore (hCore : Core s floor)
    (hOpening : Opening s uid sg) {κ : Kind} (hNone : s.kept κ = none)
    (hFlag : Flagged s κ) (hAdmin : κ.admin = true → uid = 0) (token : Nat)
    (hToken : κ.admin = false → token = sg.token κ) (asked : Rights)
    (hAsked : keepRights asked κ = keepRights (sg.rights κ) κ) :
    Core (s.keepMore κ token asked) floor := by
  obtain ⟨hOpen, S, hHead, rfl, rfl, hShell, hLast⟩ := hOpening
  have hSess := sessions_keepMore hHead κ token asked
  have hHead' : (s.keepMore κ token asked).sessions.head? = some (S.add s.next) := by
    rw [hSess]
    rfl
  have hMem : S ∈ s.sessions := List.mem_of_mem_head? hHead
  have hOther : ∀ κ', κ' ≠ κ → (s.keepMore κ token asked).kept κ' = s.kept κ' :=
    fun κ' hNe => kept_keep_ne hNe _ _
  have hHeadEq : ∀ T, s.sessions.head? = some T → T = S := by
    intro T hT
    rw [hHead] at hT
    exact (Option.some.inj hT).symm
  have hStays : ∀ κ' k, s.kept κ' = some k → (s.keepMore κ token asked).kept κ' = some k := by
    intro κ' k hKept
    have hNe : κ' ≠ κ := by
      rintro rfl
      rw [hNone] at hKept
      cases hKept
    rw [hOther κ' hNe]
    exact hKept
  have hCopy : ∀ κ' k c, CopyRight s κ' k c → CopyRight (s.keepMore κ token asked) κ' k c := by
    rintro κ' k c ⟨hTok, T, hT, hRights⟩
    rw [hHeadEq T hT] at hRights
    exact ⟨hTok, _, hHead', hRights⟩
  refine
    { hCore.number with
      ids := fun T hT id hId => ?_
      tail := fun T hT => ?_
      kept := fun κ' k hKept => ?_
      lent := fun κ' l hLent => ?_
      caps := fun c hC => ?_
      flags := fun κ' k hKept => ?_
      grantSet := fun hO => ?_ }
  · rw [hSess] at hT
    cases hT with
    | head =>
      cases hId with
      | head => exact Nat.lt_succ_self _
      | tail _ hWas => exact Nat.lt_succ_of_lt (hCore.ids S hMem id hWas)
    | tail _ hWas => exact Nat.lt_succ_of_lt (hCore.ids T (List.mem_of_mem_tail hWas) id hId)
  · rw [hSess] at hT
    exact hCore.tail T hT
  · rcases eq_or_ne κ' κ with rfl | hEq
    · obtain rfl := Option.some.inj ((kept_keep_self s _ _ _).symm.trans hKept)
      exact ⟨_, s.next, hHead', hShell, hLast, rfl,
        List.mem_cons_self, hCore.floor_le, hAdmin, hAsked, hToken⟩
    · rw [hOther κ' hEq] at hKept
      obtain ⟨T, id, hT, hSh, hLa, hPath, hId, hRest⟩ := hCore.kept κ' k hKept
      obtain rfl := hHeadEq T hT
      exact ⟨_, id, hHead', hSh, hLa, hPath, List.mem_cons_of_mem _ hId, hRest⟩
  · obtain ⟨k, hKept, hSub, hAll, hCp⟩ := hCore.lent κ' l hLent
    exact ⟨k, hStays κ' k hKept, hSub, hAll, hCopy κ' k l hCp⟩
  · obtain ⟨k, hKept, hSub, hAll, hGiven⟩ := hCore.caps c hC
    exact ⟨k, hStays _ k hKept, hSub, hAll,
      fun hGive => ⟨(hGiven hGive).1, hCopy _ k c.cap (hGiven hGive).2⟩⟩
  · rcases eq_or_ne κ' κ with rfl | hEq
    · exact hFlag
    · rw [hOther κ' hEq] at hKept
      exact hCore.flags κ' k hKept
  · obtain ⟨T, hT, hG⟩ := hCore.grantSet hO
    obtain rfl := hHeadEq T hT
    exact ⟨_, hHead', hG⟩

/- A mint for the shell changes only what init gives from. -/
theorem Core.mintFrom (hCore : Core s floor) {κ : Kind} {asked : Rights}
    (hAsked : ∀ S, s.sessions.head? = some S →
        giveRights asked κ = giveRights (S.sg.rights κ) κ) (hMint : s.mintFrom κ asked = some t) :
    Core t floor ∧ Keeps s t := by
  unfold SessState.mintFrom at hMint
  cases hKept : s.kept κ with
  | none =>
    rw [hKept] at hMint
    cases hMint
  | some k =>
  rw [hKept] at hMint
  dsimp only at hMint
  split at hMint
  · cases hMint
  cases hMint
  refine ⟨{ hCore.number with lent := fun κ' l hLent => ?_ }, { Keeps.refl s with }⟩
  rcases eq_or_ne κ' κ with rfl | hEq
  · dsimp only at hLent
    rw [update_self] at hLent
    cases hLent
    obtain ⟨S, id, hHead, _, _, hPath, _, hLe, _⟩ := hCore.kept κ' k hKept
    refine ⟨k, hKept, List.subset_cons_of_subset _ (List.Subset.refl _),
      hCore.number_path ?_, rfl, S, hHead, by rw [hAsked S hHead]⟩
    rw [hPath]
    exact List.forall_mem_singleton.mpr hLe
  · exact hCore.lent κ' l ((update_of_ne hEq _ _).symm.trans hLent)

/- A grant puts the copy into the shell's hands. -/
theorem Core.grantTo (hCore : Core s floor) (hSlot : s.intruder = none)
    {κ : Kind} (hGrant : s.grantTo κ = some t) : Core t floor ∧ Keeps s t := by
  unfold SessState.grantTo at hGrant
  cases hTarget : s.target with
  | none =>
    rw [hTarget] at hGrant
    cases hGrant
  | some o =>
  cases hLent : s.lent κ with
  | none =>
    rw [hTarget, hLent] at hGrant
    cases hGrant
  | some l =>
  rw [hTarget, hLent] at hGrant
  cases hGrant
  have hShell : o = .shell s.shell := by
    unfold target at hTarget
    rw [hSlot] at hTarget
    split at hTarget
    · exact (Option.some.inj hTarget).symm
    · cases hTarget
  refine ⟨{ hCore.number with caps := fun c hMem => ?_ }, { Keeps.refl s with }⟩
  cases hMem with
  | head =>
    obtain ⟨k, hKept, hSub, hAll, hCopy⟩ := hCore.lent κ l hLent
    exact ⟨k, hKept, List.subset_cons_of_subset _ hSub, hCore.number_path hAll,
      fun _ => ⟨hShell, hCopy⟩⟩
  | tail _ hWas => exact hCore.caps c (List.mem_of_mem_filter hWas)

end opening

end Horus.Session
