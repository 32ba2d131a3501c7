import Horus.Kernel.Tables

/-
  Each capability operation as a run of actions.

  The lemmas are stated for an arbitrary guard on actions, so
  that the same decomposition serves invariants that hold of
  every run and invariants that need a condition. Actions
  that only fill an empty slot are assumed to meet the guard;
  what else an operation may do is a premise of its lemma.
-/

namespace Horus

open CapState
open Function

/- Spending a serial or filling an empty slot is harmless. -/
structure Benign (G : CapState → Act → Prop) : Prop where
  burn : ∀ s, G s .burn
  age : ∀ s id, G s (.age id)
  install : ∀ s pid a c origin src, (s.mem a).typ = .null → G s (.install pid a c origin src)
  place : ∀ s a c origin, (s.mem a).typ = .null → G s (.place a c origin)

variable {a d : Addr} {cur slot src dest pid object spawner child token : Nat}
    {rights newRights : Rights} {origin : Origin} {typ : CapType}

section Decompose

variable {G : CapState → Act → Prop} {s : CapState}

theorem actRun_refl : ActRun G s s := Lib.Run.refl s

theorem ActRun.trans {s' s'' : CapState} (hRun : ActRun G s s')
    (hRun' : ActRun G s' s'') : ActRun G s s'' :=
  Lib.Run.trans hRun hRun'

theorem actRun_single (act : Act) (hOk : act.Ok s) (hG : G s act) : ActRun G s (act.apply s) :=
  Lib.Run.single act ⟨hOk, hG⟩

theorem Benign.burn_run (hBenign : Benign G) : ActRun G s s.burn :=
  actRun_single .burn trivial (hBenign.burn s)

/- A running task looks up in its own space. -/
theorem Tables.capLookup_eq_some (hTables : Tables s) {expected : Option CapType}
    {required : Rights} (hRun : s.running cur = true)
    (hFound : capLookup s cur slot expected required = some a) :
    s.Owns cur a ∧ a.slot = slot ∧ (s.mem a).typ ≠ .null ∧ (s.mem a).serial ≠ 0 ∧
      hasRights (s.mem a).rights required = true ∧
      ∀ typ, expected = some typ → (s.mem a).typ = typ := by
  rcases hTables.running_cspace hRun with ⟨space, hSpace, _⟩
  simp only [capLookup, capCurrentCspace, hSpace] at hFound
  split_ifs at hFound with hSlot hSize
  rcases rustCapLookupTyped_eq_some hFound with ⟨hLookup, hTyp⟩
  rw [rustCapLookup_eq_some_iff] at hLookup
  rcases hLookup with ⟨hEq, hSlotEq, _, hBound, hUsed, hRights, hSerial⟩
  have hA : space = a.space := Option.some.inj hEq
  exact ⟨⟨hRun, hA ▸ hSpace, by omega⟩, hSlotEq, hUsed, hSerial, hRights, hTyp⟩

theorem Tables.mintSlots_eq_some (hTables : Tables s) (hRun : s.running cur = true)
    (hFound : mintSlots s cur dest src = some (a, d)) :
    s.Owns cur a ∧ a.slot = src ∧ (s.mem a).typ ≠ .null ∧ (s.mem a).serial ≠ 0 ∧
      hasRights (s.mem a).rights Right.mint = true ∧ s.Owns cur d ∧ d = ⟨a.space, dest⟩ ∧
      s.atCeiling cur d = false := by
  unfold mintSlots kcapLookup at hFound
  cases hLook : capLookup s cur src none Right.mint with
  | none => simp [hLook] at hFound
  | some b =>
  simp only [hLook] at hFound
  split_ifs at hFound with _ hDest hCeil
  simp only [Option.some.injEq, Prod.mk.injEq] at hFound
  rcases hFound with ⟨rfl, rfl⟩
  rcases hTables.capLookup_eq_some hRun hLook with ⟨hOwns, hSlot, hUsed, hSerial, hRights, _⟩
  have hB : cspaceOrRoot s cur = b.space := by
    simp [cspaceOrRoot, hOwns.space]
  refine ⟨hOwns, hSlot, hUsed, hSerial, hRights, ⟨hRun, ?_, ?_⟩, ?_, ?_⟩
  · rw [hB]
    exact hOwns.space
  · simp only
    omega
  · rw [hB]
  · simpa using hCeil

/- A derivation of the core, taken over by its caller. -/
theorem CapState.commit_some (s : CapState) (pid : Nat) (a : Addr) (c : Capability)
    (origin : Origin) (b : Addr) :
    (s.commit pid a origin (s.mem b) (some (update s.mem a c,
        (assignFreshSerial s.nextSerial).2))).2 =
      (Act.install pid a c origin (some b)).apply s := by
  simp only [commit, update_self]
  rfl

/- The ceiling test, as the premise of an installation. -/
theorem CapState.lt_of_not_atCeiling
    (hCeil : s.atCeiling pid a = false) (hNull : (s.mem a).typ = .null) :
    s.capsInUse pid < maxCapsPerTask := by
  simp only [atCeiling, hNull, true_and, decide_eq_false_iff_not, not_le] at hCeil
  exact hCeil

----
-- Installers
----

namespace Tables

variable (hTables : Tables s)

include hTables

theorem capInstallFromRoot_run (hBenign : Benign G) {rootSlot : Nat} (hRun : s.running pid = true)
    (hG : ∀ a c, s.Owns pid a → a.slot = slot → G s (.place a c .fromRoot)) :
    ActRun G s (capInstallFromRoot s pid slot rootSlot object).2 := by
  rcases hTables.running_cspace hRun with ⟨space, hSpace, _⟩
  simp only [capInstallFromRoot, hSpace]
  split
  · exact actRun_refl
  split
  · exact actRun_refl
  split
  · exact hBenign.burn_run
  have hOwns : s.Owns pid ⟨space, slot⟩ := ⟨hRun, hSpace, by simp only; omega⟩
  exact actRun_single (.place ⟨space, slot⟩ _ .fromRoot)
    ⟨⟨pid, hOwns⟩, rfl, ⟨rfl, rfl, rfl⟩, .inr ⟨rootSlot, rfl⟩⟩
    (hG _ _ hOwns rfl)

theorem capInstallObject_run (hBenign : Benign G) (hRun : s.running cur = true)
    (hTyp : freshKind typ = true) (hOrigin : origin.afresh = true)
    (hG : ∀ a c, s.Owns cur a → a.slot = dest → G s (.install cur a c origin none)) :
    ActRun G s (capInstallObject s cur dest typ object rights origin).2 := by
  rcases hTables.running_cspace hRun with ⟨space, hSpace, hSz⟩
  simp only [capInstallObject, hSpace, hSz]
  split_ifs with hFresh hBounds hCeil
  · exact hBenign.burn_run
  · exact hBenign.burn_run
  · exact hBenign.burn_run
  have hOwns : s.Owns cur ⟨space, dest⟩ := ⟨hRun, hSpace, by simp only; omega⟩
  exact actRun_single (.install cur ⟨space, dest⟩ _ origin none) ⟨hOwns, rfl, hFresh,
      lt_of_not_atCeiling (by simpa using hCeil),
      ⟨rfl, rfl, hOrigin⟩, hTyp⟩
    (hG _ _ hOwns rfl)

theorem capInstallDerivedObject_run (hBenign : Benign G) {srcSerial : Nat} {srcType : CapType}
    (hRun : s.running cur = true) (hTyp : srcType ≠ .null)
    (hAllows : ∀ b c, s.Owns cur b → b.slot = src → (s.mem b).typ = srcType → c.object = object →
      c.token = 0 →
      origin.Allows (s.mem b) c)
    (hG : ∀ a b c, s.Owns cur a → a.slot = dest → b ≠ a → G s (.install cur a c origin (some b))) :
    ActRun G s (capInstallDerivedObject s cur dest src srcSerial
        srcType object rights origin).2 := by
  rcases hTables.running_cspace hRun with ⟨space, hSpace, hSz⟩
  simp only [capInstallDerivedObject, hSpace, hSz]
  split_ifs with hFresh hBounds hCeil
  · exact hBenign.burn_run
  · exact hBenign.burn_run
  · exact hBenign.burn_run
  push Not at hBounds
  rcases hBounds with ⟨_, hDest, hSrc, hNe, hSerial, hSame, hKind⟩
  have hOwns : s.Owns cur ⟨space, dest⟩ := ⟨hRun, hSpace, hDest⟩
  have hOwns' : s.Owns cur ⟨space, src⟩ := ⟨hRun, hSpace, hSrc⟩
  refine actRun_single (.install cur ⟨space, dest⟩ _ origin (some ⟨space, src⟩))
    ⟨hOwns, rfl, hFresh, lt_of_not_atCeiling (by simpa using hCeil),
      ⟨⟨cur, hOwns'⟩, ?_, ?_, hSame.symm, hKind.symm,
        hasRights_and _ _, hAllows _ _ hOwns' rfl hKind rfl rfl⟩⟩
    (hG _ _ _ hOwns rfl (by simpa using Ne.symm hNe))
  · rwa [hKind]
  · rwa [hSame]

/- The outcome of a search for a free slot. -/
theorem capInstallObjectFirstFree_cases (hRun : s.running cur = true)
    (minSlot : Nat) (typ : CapType) (object : Nat) (rights : Rights) (origin : Origin) :
    capInstallObjectFirstFree s cur minSlot typ object rights origin = (none, s.burn) ∨
      ∃ a, s.Owns cur a ∧ (s.mem a).typ = .null ∧ s.capsInUse cur < maxCapsPerTask ∧
        s.freshSerial ≠ 0 ∧ capInstallObjectFirstFree s cur minSlot typ object rights origin =
          (some a.slot, (Act.install cur a (freshCap typ rights object s.freshSerial) origin
              none).apply s) := by
  rcases hTables.running_cspace hRun with ⟨space, hSpace, hSz⟩
  simp only [capInstallObjectFirstFree, hSpace, hSz]
  split_ifs with hFresh hBounds hCeil
  · exact .inl rfl
  · exact .inl rfl
  · exact .inl rfl
  split
  · exact .inl rfl
  rename_i slot hFound
  rcases firstIndex_some hFound with ⟨hFree, hSlot⟩
  simp only [Bool.and_eq_true, decide_eq_true_eq] at hFree
  exact .inr ⟨⟨space, slot⟩, ⟨hRun, hSpace, hSlot⟩, hFree.2, by omega, hFresh, rfl⟩

theorem capInstallObjectFirstFree_run
    (hBenign : Benign G) {minSlot : Nat} (hRun : s.running cur = true)
    (hTyp : freshKind typ = true) (hOrigin : origin.afresh = true) :
    ActRun G s (capInstallObjectFirstFree s cur minSlot typ object rights origin).2 := by
  rcases hTables.capInstallObjectFirstFree_cases hRun minSlot typ object rights origin with
    hNone | ⟨a, hOwns, hNull, hRoom, hFresh, hSome⟩
  · rw [hNone]
    exact hBenign.burn_run
  rw [hSome]
  exact actRun_single (.install cur a _ origin none)
    ⟨hOwns, rfl, hFresh, fun _ => hRoom, ⟨rfl, rfl, hOrigin⟩, hTyp⟩
    (hBenign.install s cur a _ _ _ hNull)

theorem capInstallReplyFor_run
    (hBenign : Benign G) {sender senderGen : Nat} (hRun : s.running pid = true)
    (hG : ∀ a c, s.Owns pid a → a.slot = capslotReply → G s (.install pid a c .recvReply none)) :
    ActRun G s (capInstallReplyFor s pid sender senderGen).2 := by
  rcases hTables.running_cspace hRun with ⟨space, hSpace, hSz⟩
  simp only [capInstallReplyFor, hSpace, hSz]
  split_ifs with _ _ hFresh hSlot hCeil
  · exact actRun_refl
  · exact actRun_refl
  · exact hBenign.burn_run
  · exact hBenign.burn_run
  · exact hBenign.burn_run
  have hOwns : s.Owns pid ⟨space, capslotReply⟩ := ⟨hRun, hSpace, Nat.not_le.mp hSlot⟩
  exact actRun_single (.install pid ⟨space, capslotReply⟩ _ .recvReply none) ⟨hOwns, rfl, hFresh,
      lt_of_not_atCeiling (by simpa using hCeil),
      ⟨rfl, rfl, rfl⟩, rfl⟩
    (hG _ _ hOwns rfl)

theorem childEndSlots_eq_some
    (hChild : s.running child = true) (hSpawner : s.running spawner = true)
    (hFound : childEndSlots s child dest spawner src rights = some (a, d)) :
    s.Owns spawner a ∧ (s.mem a).serial ≠ 0 ∧ (s.mem a).typ = .pipe ∧
      hasRights (s.mem a).rights rights = true ∧ s.Owns child d ∧ (s.mem d).typ = .null ∧
      s.capsInUse child < maxCapsPerTask := by
  rcases hTables.running_cspace hChild with ⟨space, hSpace, hSz⟩
  simp only [childEndSlots, hSpace, hSz] at hFound
  cases hLook : rustCapLookup s.mem (s.tasks spawner).cspace (s.tasks spawner).cspaceSz src 0 with simp only [hLook] at hFound
  | none => split_ifs at hFound
  | some =>
    split_ifs at hFound with hDest hTyp hRights hCeil hNull
    rw [rustCapLookup_eq_some_iff] at hLook
    rcases hLook with ⟨hFrom, _, _, hSrc, _, _, hSerial⟩
    rcases hFound with ⟨rfl, rfl⟩
    have hEmpty := not_not.mp hNull
    exact ⟨⟨hSpawner, hFrom, by omega⟩, hSerial, not_not.mp hTyp, by simpa using hRights,
      ⟨hChild, hSpace, Nat.not_le.mp hDest⟩, hEmpty,
      lt_of_not_atCeiling (by simpa using hCeil) hEmpty⟩

end Tables

theorem Tables.capInstallChildPipeEnd_run {s : Sys} (hTables : Tables s.cap)
    (hBenign : Benign G) (hChild : s.cap.running child = true)
    (hSpawner : s.cap.running spawner = true) : ActRun G s.cap
      (capInstallChildPipeEnd s child dest spawner src rights).2.cap := by
  unfold capInstallChildPipeEnd
  dsimp only
  split
  · exact actRun_refl
  split
  · exact hBenign.burn_run
  rename_i hFresh
  split
  · exact hBenign.burn_run
  rename_i a d hFound
  rcases hTables.childEndSlots_eq_some hChild hSpawner hFound with
    ⟨hOwns, hSerial, hTyp, hRights, hDest, hNull, hRoom⟩
  split
  · exact hBenign.burn_run
  exact actRun_single (.install child d _ .childPipe (some a)) ⟨hDest, rfl, hFresh, fun _ => hRoom,
      ⟨⟨spawner, hOwns⟩, by simp [hTyp], hSerial, rfl, hTyp.symm, hRights, rfl, hTyp, rfl⟩⟩
    (hBenign.install _ _ _ _ _ _ hNull)

theorem Tables.capConsumeSlot_run (hTables : Tables s) (hRun : s.running cur = true)
    (hG : ∀ a, s.Owns cur a → a.slot = dest → G s (.erase cur a)) :
    ActRun G s (capConsumeSlot s cur dest).2 := by
  rcases hTables.running_cspace hRun with ⟨space, hSpace, hSz⟩
  simp only [capConsumeSlot, hSpace, hSz]
  split
  · exact actRun_refl
  · have hOwns : s.Owns cur ⟨space, dest⟩ := ⟨hRun, hSpace, by simp only; omega⟩
    exact actRun_single (.erase cur ⟨space, dest⟩) hOwns (hG _ hOwns rfl)

theorem Tables.capConsumeSlotOf_run (hTables : Tables s) (hRun : s.running pid = true)
    (hG : ∀ a, s.Owns pid a → a.slot = slot → G s (.erase pid a)) :
    ActRun G s (capConsumeSlotOf s pid slot).2 := by
  rcases hTables.running_cspace hRun with ⟨space, hSpace, hSz⟩
  simp only [capConsumeSlotOf, hSpace, hSz]
  split
  · exact actRun_refl
  split
  · exact actRun_refl
  · have hOwns : s.Owns pid ⟨space, slot⟩ := ⟨hRun, hSpace, by simp only; omega⟩
    exact actRun_single (.erase pid ⟨space, slot⟩) hOwns (hG _ hOwns rfl)

----
-- Derivations
----

/- What the core writes for a source it has accepted. -/
def CoreDerives (s : CapState) (a b : Addr) (origin : Origin)
    (result : Option (CapMem × Nat)) : Prop :=
  ∀ r, result = some r → ∃ c, r = (update s.mem a c, (assignFreshSerial s.nextSerial).2) ∧
      c.serial = s.freshSerial ∧ s.freshSerial ≠ 0 ∧
      c.badge = (s.mem b).serial ∧ c.typ = (s.mem b).typ ∧
      hasRights (s.mem b).rights c.rights = true ∧ origin.Allows (s.mem b) c

theorem CoreDerives.commit_run {b : Addr} {result : Option (CapMem × Nat)}
    (hCore : CoreDerives s a b origin result) (hOwns : s.Owns pid a)
    (hRoom : (s.mem a).typ = .null → s.capsInUse pid < maxCapsPerTask)
    (hSource : ∃ q, s.Owns q b) (hUsed : (s.mem b).typ ≠ .null) (hSerial : (s.mem b).serial ≠ 0)
    (hG : ∀ c, G s (.install pid a c origin (some b))) :
    ActRun G s (s.commit pid a origin (s.mem b) result).2 := by
  cases result with
  | none => exact actRun_refl
  | some r =>
  rcases hCore r rfl with ⟨c, rfl, hNew, hFresh, hBadge, hTyp, hRights, hAllows⟩
  rw [commit_some]
  exact actRun_single _ ⟨hOwns, hNew, hFresh, hRoom, ⟨hSource, hUsed, hSerial,
      hBadge, hTyp, hRights, hAllows⟩⟩ (hG c)

namespace Tables

variable (hTables : Tables s)

include hTables

theorem mintThrough_run {core : Nat → Option (CapMem × Nat)} (hRun : s.running cur = true)
    (hCore : ∀ space, hasRights (s.mem ⟨space, src⟩).rights Right.mint = true →
      CoreDerives s ⟨space, dest⟩ ⟨space, src⟩ origin (core space))
    (hG : ∀ a b c, s.Owns cur a → a.slot = dest → b = ⟨a.space, src⟩ → s.Owns cur b →
      G s (.install cur a c origin (some b))) :
    ActRun G s (mintThrough s cur dest src origin core).2 := by
  unfold mintThrough
  split
  · exact actRun_refl
  rename_i b d hSlots
  rcases hTables.mintSlots_eq_some hRun hSlots with
    ⟨hOwns, hSrc, hUsed, hSerial, hMint, hDest, rfl, hCeil⟩
  rcases b with ⟨space, slot⟩
  cases hSrc
  exact (hCore space hMint).commit_run hDest (lt_of_not_atCeiling hCeil) ⟨cur, hOwns⟩ hUsed
    hSerial (fun c => hG _ _ c hDest rfl rfl hOwns)

/- A copy with the same object and token. -/
theorem mintThrough_copy_run {size : Nat} (hRun : s.running cur = true)
    (hOrigin : ∀ b c : Capability, c.object = b.object → c.token = b.token → origin.Allows b c)
    (hG : ∀ a b c, s.Owns cur a → a.slot = dest → b = ⟨a.space, src⟩ → s.Owns cur b →
      G s (.install cur a c origin (some b))) :
    ActRun G s (mintThrough s cur dest src origin fun space =>
      rustCapMint s.mem s.nextSerial (some space) size dest src newRights).2 := by
  refine hTables.mintThrough_run hRun ?_ hG
  intro space _ r hMint
  rcases rustCapMint_eq_some hMint with ⟨rfl, _, _, _, _, _, hFresh⟩
  exact ⟨_, rfl, rfl, hFresh, rfl, rfl, hasRights_and _ _, hOrigin _ _ rfl rfl⟩

theorem capMintToken_run (hRun : s.running cur = true)
    (hG : ∀ a b c, s.Owns cur a → a.slot = dest → b = ⟨a.space, src⟩ → s.Owns cur b →
      G s (.install cur a c .mintToken (some b))) :
    ActRun G s (capMintToken s cur dest src newRights token).2 := by
  refine hTables.mintThrough_run hRun ?_ hG
  intro space hRight r hMint
  rcases rustCapMintToken_eq_some hMint with ⟨rfl, _, _, hTyp, _, hToken, _, hFresh⟩
  exact ⟨_, rfl, rfl, hFresh, rfl, hTyp.symm, hasRights_and_and _ _ _, rfl, hTyp, hToken, hRight,
    tokenedCap_no_read _ _ _ _⟩

theorem capReplyMintInto_run
    (hBenign : Benign G) {invSlot invSerial epIndex : Nat} (hRun : s.running pid = true) : ActRun G s
      (capReplyMintInto s pid invSlot invSerial epIndex dest newRights token).2 := by
  rcases hTables.running_cspace hRun with ⟨space, hSpace, hSz⟩
  simp only [capReplyMintInto, hSpace, hSz]
  split
  · exact actRun_refl
  split
  · exact actRun_refl
  rename_i hBounds
  split
  · exact actRun_refl
  rename_i hInv
  split
  · exact actRun_refl
  rename_i hRoom
  push Not at hBounds hInv hRoom
  cases hMint : rustCapReplyMint s.mem s.nextSerial
      (some ⟨space, invSlot⟩) (some space) cnodeSize dest
      newRights token with
  | none => exact actRun_refl
  | some r =>
    rcases rustCapReplyMint_eq_some hMint with ⟨_, _, _, _, hNull, _⟩
    have hOwns : s.Owns pid ⟨space, invSlot⟩ := ⟨hRun, hSpace, hBounds.1⟩
    refine CoreDerives.commit_run ?_ ⟨hRun, hSpace, hBounds.2⟩ (fun _ => hRoom)
      ⟨pid, hOwns⟩ (by simp [hInv.1]) hInv.2.1
      (fun c => hBenign.install _ _ _ _ _ _ hNull)
    intro r' hEq
    rw [hEq] at hMint
    rcases rustCapReplyMint_eq_some hMint with ⟨rfl, _, hTyp, _, _, hFresh⟩
    exact ⟨_, rfl, rfl, hFresh, rfl, hTyp.symm, hasRights_and_and _ _ _, rfl, hTyp,
      tokenedCap_no_read _ _ _ _⟩

theorem capMintUntypedChild_run (hBenign : Benign G) {parentIndex childIndex : Nat}
    {parent child : Untyped} (hRun : s.running cur = true)
    (hParent : ∀ b, s.Owns cur b → b.slot = src → (s.mem b).object = parentIndex)
    (hWithin : child.Within parent)
    (hG : ∀ a b c origin, s.Owns cur a → a.slot = dest → b = ⟨a.space, src⟩ → s.Owns cur b →
      G s (.install cur a c origin (some b))) :
    ActRun G s (capMintUntypedChild s cur src dest childIndex
        (.untypedSplit parentIndex childIndex parent child)).2 := by
  rcases hTables.running_cspace hRun with ⟨space, hSpace, hSz⟩
  simp only [capMintUntypedChild, hSpace, hSz, kcapLookup]
  split
  · exact hBenign.burn_run
  rename_i hFresh
  split
  · exact hBenign.burn_run
  split
  · exact hBenign.burn_run
  rename_i b hLook
  rcases hTables.capLookup_eq_some hRun hLook with ⟨hOwns, hSrc, hUsed, hSerial, _, _⟩
  split
  · exact hBenign.burn_run
  rename_i hTyp
  split
  · exact hBenign.burn_run
  split
  · exact hBenign.burn_run
  rename_i hDest
  split
  · exact hBenign.burn_run
  rename_i hCeil
  rcases b with ⟨bSpace, slot⟩
  cases hSrc
  obtain rfl : space = bSpace := Option.some.inj (hSpace.symm.trans hOwns.space)
  have hOwnsD : s.Owns cur ⟨space, dest⟩ := ⟨hRun, hSpace, Nat.not_le.mp hDest⟩
  exact actRun_single (.install cur ⟨space, dest⟩ _
      (.untypedSplit parentIndex childIndex parent child)
      (some ⟨space, slot⟩))
    ⟨hOwnsD, rfl, hFresh, lt_of_not_atCeiling (by simpa using hCeil),
      ⟨⟨cur, hOwns⟩, hUsed, hSerial, rfl, (not_not.mp hTyp).symm, by simp [hasRights],
        hParent _ hOwns rfl, rfl, hWithin, not_not.mp hTyp,
        rfl⟩⟩
    (hG _ _ _ _ hOwnsD rfl rfl hOwns)

theorem capGrantCommon_run {target : Nat} {fromUser : Bool}
    (hRun : s.running cur = true) (hTarget : s.running target = true)
    (hG : ∀ a b c, s.Owns target a → a.slot = dest → s.Owns cur b → b.slot = src →
      G s (.install target a c .grant (some b))) :
    ActRun G s (capGrantCommon s cur target dest src newRights fromUser).2 := by
  rcases hTables.running_cspace hRun with ⟨space, hSpace, _⟩
  rcases hTables.running_cspace hTarget with ⟨dst, hTo, hSz⟩
  simp only [capGrantCommon, hSpace, hTo, hSz]
  iterate 4
    split
    · exact actRun_refl
  rename_i b hLook
  rw [rustCapLookup_eq_some_iff] at hLook
  rcases hLook with ⟨hFrom, hSlot, _, hSrc, hUsed, _, hSerial⟩
  split
  · exact actRun_refl
  rename_i hCeil
  have hDest : dest < cnodeSize := by omega
  have hOwns : s.Owns cur b := ⟨hRun, hSpace.trans hFrom, by omega⟩
  have hOwnsD : s.Owns target ⟨dst, dest⟩ := ⟨hTarget, hTo, hDest⟩
  have hDerives : CoreDerives s ⟨dst, dest⟩ b .grant (rustCapGrantInto s.mem s.nextSerial (some b)
          (some dst) cnodeSize dest newRights) := by
    intro r hGrant
    rcases rustCapGrantInto_eq_some hGrant with ⟨rfl, _, _, _, _, hFresh⟩
    exact ⟨_, rfl, rfl, hFresh, rfl, rfl, hasRights_and _ _, rfl, rfl⟩
  refine CoreDerives.commit_run ?_ hOwnsD ?_ ⟨cur, hOwns⟩
    hUsed hSerial (fun c => hG _ _ c hOwnsD rfl hOwns hSlot)
  · cases fromUser with
    | false => exact hDerives
    | true =>
      intro r hGrant
      exact hDerives r (rustCapGrantFromUser_eq_some hGrant).1
  · intro hNull
    apply lt_of_not_atCeiling ?_ hNull
    simpa [hDest] using hCeil

end Tables

/- What `cap_revoke` does to the capability state. -/
theorem Tables.capRevoke_cases {s : Sys} (hTables : Tables s.cap) (hRun : s.cap.running cur = true) :
    ((capRevoke s cur slot).2.cap = s.cap ∧ ((capRevoke s cur slot).1 = true →
        ∀ a, s.cap.Owns cur a → a.slot = slot → (s.cap.mem a).typ = .null)) ∨
    ∃ a, s.cap.Owns cur a ∧ a.slot = slot ∧ (Act.sweep cur a).Ok s.cap ∧
      (capRevoke s cur slot).1 = true ∧
      (capRevoke s cur slot).2.cap = (Act.sweep cur a).apply s.cap := by
  rcases hTables.running_cspace hRun with ⟨space, hSpace, hSz⟩
  have hPos := (hTables.space cur space hSpace).1
  have hRoot : space ≠ rootSpace := by omega
  have hOnly : ∀ a, s.cap.Owns cur a → a.slot = slot → a = ⟨space, slot⟩ := by
    intro a hOwns hSlot
    have hEq := Option.some.inj (hSpace.symm.trans hOwns.space)
    cases hSlot
    cases hEq
    rfl
  simp only [capRevoke, cspaceOrRoot, hSpace, hSz,
    Option.getD_some, hRoot, and_false, if_false, ne_eq,
    not_false_eq_true, and_true]
  split
  · exact .inl ⟨rfl, by simp⟩
  rename_i hSlot
  split
  · exact .inl ⟨rfl, by simp⟩
  split
  · exact .inl ⟨rfl, by simp⟩
  have hOwns : s.cap.Owns cur ⟨space, slot⟩ := ⟨hRun, hSpace, Nat.not_le.mp hSlot⟩
  by_cases hNull : (s.cap.mem ⟨space, slot⟩).typ = .null
  · -- Nothing there: the sweep returns before it starts.
    left
    refine ⟨?_, ?_⟩
    · simp only [rustCapRevokeGlobal]
      split
      · rfl
      split <;> rfl
    · intro _ a hA hSlotA
      rw [hOnly a hA hSlotA]
      exact hNull
  · by_cases hPrim : isPrimordialRoot s.cap.mem ⟨space, slot⟩
    · simp [rustCapRevokeGlobal, hPrim, hSlot]
    right
    refine ⟨⟨space, slot⟩, hOwns, rfl, ⟨hOwns, hNull, by simpa using hPrim⟩, ?_, rfl⟩
    simp [rustCapRevokeGlobal_fst_iff, hPrim]
    omega

theorem Tables.capRevoke_run {s : Sys} (hTables : Tables s.cap) (hRun : s.cap.running cur = true)
    (hG : ∀ a, s.cap.Owns cur a → a.slot = slot →
      (s.cap.mem a).typ ≠ .null → G s.cap (.sweep cur a)) :
    ActRun G s.cap (capRevoke s cur slot).2.cap := by
  rcases hTables.capRevoke_cases hRun with ⟨hSame, _⟩ | ⟨a, hOwns, hSlot, hOk, _, hSweep⟩
  · rw [hSame]
    exact actRun_refl
  · rw [hSweep]
    exact actRun_single _ hOk (hG a hOwns hSlot hOk.2.1)

end Decompose

end Horus
