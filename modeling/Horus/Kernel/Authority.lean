import Horus.Kernel.Serials

/-
  Authority never amplifies.

  Every capability of a task goes back, derivation by
  derivation, to one that the kernel installed afresh. On the
  way the type stays, the rights shrink, the object stays or
  is carved from the parent's, and the token changes only
  where a token is minted.

  Main declarations:
    * `Origin.ObjectOk`, `Origin.TokenOk`, `Attenuates`
    * `Descends`, `Authorised`
    * `Authorised.act`, `authority_never_amplifies`
-/

namespace Horus

open Origin
open Function

def Origin.ObjectOk (origin : Origin) (src c : Capability) : Prop :=
  match origin with
  | .untypedSplit parentIndex childIndex parent child =>
    src.object = parentIndex ∧ c.object = childIndex ∧ child.Within parent
  | .schedSplit parentIndex childIndex parent rest child =>
    src.object = parentIndex ∧ c.object = childIndex ∧ child.CarvedFrom parent rest ∧
      child.parent = parentIndex
  | _ => c.object = src.object

def Origin.TokenOk (origin : Origin) (src c : Capability) : Prop :=
  match origin with
  | .mintToken => src.token = 0 ∧ hasRights src.rights Right.mint = true
  | .replyMint => src.typ = .endpoint
  | _ => c.token = src.token

/- `T` says which tokens a derivation may give. -/
structure Attenuates (T : Origin → Capability → Capability → Prop) (origin : Origin)
    (src c : Capability) : Prop where
  typ : c.typ = src.typ
  rights : hasRights src.rights c.rights = true
  object : origin.ObjectOk src c
  token : T origin src c

/- What a capability conveys, whoever its parent is now. -/
def Capability.face (c : Capability) : Capability := { c with badge := 0 }

/- The recorded derivations lead back to an installation. -/
inductive Descends (T : Origin → Capability → Capability → Prop) (log : List Derivation) :
    Capability → Prop where
  | installed {c : Capability} (d : Derivation) (hMem : d ∈ log) (hFace : d.made.face = c.face)
      (hSource : d.source = none)
      (hOrigin : d.origin.afresh = true) :
      Descends T log c
  | derived {c : Capability} (d : Derivation) (src : Capability) (hMem : d ∈ log)
      (hFace : d.made.face = c.face)
      (hSource : d.source = some src)
      (hStep : Attenuates T d.origin src d.made)
      (hRest : Descends T log src) :
      Descends T log c

section Descends

variable {T : Origin → Capability → Capability → Prop} {log : List Derivation} {c c' : Capability}

theorem Descends.mono (hDesc : Descends T log c) (d : Derivation) : Descends T (d :: log) c := by
  induction hDesc with
  | installed e hMem hFace hSource hOrigin =>
    exact Descends.installed e (List.mem_cons_of_mem d hMem) hFace hSource hOrigin
  | derived e src hMem hFace hSource hStep _ ih =>
    exact Descends.derived e src (List.mem_cons_of_mem d hMem) hFace hSource hStep ih

theorem Descends.congr (hDesc : Descends T log c)
    (hFace : c.face = c'.face) : Descends T log c' := by
  cases hDesc with
  | installed d hMem hSame hSource hOrigin =>
    exact Descends.installed d hMem (hSame.trans hFace) hSource hOrigin
  | derived d src hMem hSame hSource hStep hRest =>
    exact Descends.derived d src hMem (hSame.trans hFace) hSource hStep hRest

end Descends

----
-- The Invariant
----

structure Authorised (s : CapState) : Prop where
  descends : ∀ a, a.space ≠ rootSpace → (s.mem a).typ ≠ .null → Descends TokenOk s.log (s.mem a)
  token : ∀ a, (s.mem a).token ≠ 0 → (s.mem a).typ = .endpoint ∧ (s.mem a).rights &&& Right.read = 0

/- Rights that were not there are not inherited. -/
theorem and_eq_zero_of_hasRights {held need mask : Rights}
    (hRights : hasRights held need = true) (hNone : held &&& mask = 0) : need &&& mask = 0 := by
  simp only [hasRights, beq_iff_eq] at hRights
  calc
    need &&& mask = (held &&& need) &&& mask := by rw [hRights]
    _ = need &&& (held &&& mask) := by
      rw [BitVec.and_comm held need, BitVec.and_assoc]
    _ = 0 := by rw [hNone]; exact BitVec.and_zero

variable {b a : Addr} {c : Capability} {s' : CapState}

section Invariant

variable {s : CapState} (hAuth : Authorised s)

include hAuth

variable {origin : Origin}

/- Each derivation of the kernel attenuates its source. -/
theorem Authorised.attenuates (hDerived : DerivedFrom s b c origin) :
    Attenuates TokenOk origin (s.mem b) c := by
  have hAllows := hDerived.allows
  -- Only endpoints carry a token.
  have hPlain : (s.mem b).typ ≠ .endpoint → (s.mem b).token = 0 := by
    intro hTyp
    by_contra hToken
    exact hTyp (hAuth.token b hToken).1
  refine ⟨hDerived.typ, hDerived.rights, ?_, ?_⟩
  · cases origin <;> simp only [Allows, ObjectOk] at hAllows ⊢
    case mint | transfer | grant | clone | mintToken
        | replyMint | childPipe =>
      exact hAllows.1
    case untypedSplit => exact ⟨hAllows.1, hAllows.2.1, hAllows.2.2.1⟩
    case schedSplit => exact ⟨hAllows.1, hAllows.2.1, hAllows.2.2.1, hAllows.2.2.2.1⟩
  · cases origin <;> simp only [Allows, TokenOk] at hAllows ⊢
    case mint | transfer | grant | clone => exact hAllows.2
    case mintToken => exact ⟨hAllows.2.2.1, hAllows.2.2.2.1⟩
    case replyMint => exact hAllows.2.1
    case childPipe =>
      rw [hAllows.2.2, hPlain]
      rw [hAllows.2.1]
      decide
    case untypedSplit =>
      rw [hAllows.2.2.2.2, hPlain]
      rw [hAllows.2.2.2.1]
      decide
    case schedSplit =>
      rw [hAllows.2.2.2.2.2, hPlain]
      rw [hAllows.2.2.2.2.1]
      decide

/- The token of a derived record and its missing right. -/
theorem Authorised.derived_token (hDerived : DerivedFrom s b c origin) (hToken : c.token ≠ 0) :
    c.typ = .endpoint ∧ c.rights &&& Right.read = 0 := by
  have hAllows := hDerived.allows
  rw [hDerived.typ]
  cases origin <;> simp only [Allows] at hAllows
  case mint | transfer | grant | clone =>
    rw [hAllows.2] at hToken
    rcases hAuth.token b hToken with ⟨hTyp, hRead⟩
    exact ⟨hTyp, and_eq_zero_of_hasRights hDerived.rights hRead⟩
  case mintToken => exact ⟨hAllows.2.1, hAllows.2.2.2.2⟩
  case replyMint => exact ⟨hAllows.2.1, hAllows.2.2⟩
  case childPipe => exact absurd hAllows.2.2 hToken
  case untypedSplit => exact absurd hAllows.2.2.2.2 hToken
  case schedSplit => exact absurd hAllows.2.2.2.2.2 hToken

/- One slot is written, and the log gets its entry. -/
theorem Authorised.write {d : Derivation}
    (hMem : s'.mem = update s.mem a d.made) (hLog : s'.log = d :: s.log)
    (hNew : Descends TokenOk (d :: s.log) d.made)
    (hToken : d.made.token ≠ 0 → d.made.typ = .endpoint ∧ d.made.rights &&& Right.read = 0) :
    Authorised s' := by
  refine ⟨?_, ?_⟩
  · intro b hSpace
    rw [hMem, hLog]
    rcases eq_or_ne b a with rfl | hB
    · rw [update_self]
      exact fun _ => hNew
    · rw [update_of_ne hB]
      exact fun hUsed => (hAuth.descends b hSpace hUsed).mono d
  · intro b
    rw [hMem]
    rcases eq_or_ne b a with rfl | hB
    · rw [update_self]
      exact hToken
    · rw [update_of_ne hB]
      exact hAuth.token b

/- Emptying slots and moving up convey nothing. -/
theorem Authorised.lower (hMem : ∀ a, Lowered (s.mem a) (s'.mem a)) (hLog : s'.log = s.log) :
    Authorised s' := by
  refine ⟨?_, ?_⟩
  · intro a hSpace
    rw [hLog]
    rcases hMem a with hA | ⟨top, _, hA⟩ <;> rw [hA]
    · exact fun hUsed => absurd rfl hUsed
    · intro hUsed
      exact (hAuth.descends a hSpace hUsed).congr rfl
  · intro a
    rcases hMem a with hA | ⟨top, _, hA⟩ <;> rw [hA]
    · exact fun hToken => absurd rfl hToken
    · exact hAuth.token a

/- An installation by the kernel itself. -/
theorem Authorised.place (hMem : s'.mem = update s.mem a c)
    (hLog : s'.log = ⟨origin, none, c⟩ :: s.log) (hToken : c.token = 0)
    (hOrigin : origin.afresh = true) : Authorised s' := by
  refine hAuth.write (d := ⟨origin, none, c⟩) hMem hLog ?_ ?_
  · exact Descends.installed _ List.mem_cons_self rfl rfl hOrigin
  · exact fun hNe => absurd hToken hNe

theorem Authorised.act (hSound : Sound s) (hTables : Tables s) (act : Act)
    (hOk : act.Ok s) : Authorised (act.apply s) := by
  by_cases hWrites : act.writes = true
  · cases act with
    | install _ _ c origin src =>
      rcases hOk with ⟨_, _, _, _, hSource⟩
      cases src with
      | none => exact hAuth.place rfl rfl hSource.1.token hSource.1.origin
      | some b =>
      rcases hSource.owner with ⟨q, hOwns⟩
      refine hAuth.write (d := ⟨origin, some (s.mem b), c⟩) rfl rfl ?_ ?_
      · exact Descends.derived _ (s.mem b) List.mem_cons_self rfl rfl (hAuth.attenuates hSource)
          ((hAuth.descends b (hTables.space_ne_root hOwns) hSource.used).mono _)
      · exact hAuth.derived_token hSource
    | place => exact hAuth.place rfl rfl hOk.2.2.1.token hOk.2.2.1.origin
    | _ => cases hWrites
  · rw [Bool.not_eq_true] at hWrites
    exact hAuth.lower (hSound.act_lowered hTables act hOk hWrites) (act_log s hWrites)

end Invariant

theorem authorised_preBoot (cfg : BootConfig) : Authorised (preBoot cfg) := by
  refine ⟨?_, ?_⟩
  · intro a hSpace hUsed
    simp [preBoot, hSpace, Capability.nullify] at hUsed
  intro a hToken
  simp only [preBoot] at hToken
  split at hToken
  · rcases rootCnode_primordial cfg.nic a.slot with
      hNull | ⟨typ, rights, object, tag, _, _, _, hPrim⟩
    · rw [hNull] at hToken
      exact absurd rfl hToken
    · rw [hPrim] at hToken
      exact absurd rfl hToken
  · exact absurd rfl hToken

theorem authorised_bootCap (cfg : BootConfig) : Authorised (bootCap cfg) := by
  have hStart : Authorised ((preBoot cfg).openSpace 0 1) := by
    refine (authorised_preBoot cfg).lower ?_ rfl
    intro a
    by_cases hA : a.space = 1 ∧ a.slot < cnodeSize
    · exact .inl (if_pos hA)
    · exact lowered_of_eq (if_neg hA)
  have hBirth := (boot_invariant (fun c => Sound c ∧ Authorised c) cfg (fun _ act hT hI hOk =>
    ⟨hI.1.act hT act hOk, hI.2.act hI.1 hT act hOk⟩) ⟨sound_openBoot cfg, hStart⟩).2
  exact Authorised.place (Authorised.place hBirth rfl rfl rfl rfl) rfl rfl rfl rfl

/-
  Task 1 mints token 5 for its endpoint, calls through that
  capability, and is answered with token 7.
-/
def replyThroughToken : List Op :=
  [.createTask 1 .kernel, .installFromRoot 1 30 13 4, .mintToken 1 31 30 Right.all 5,
    .replyMint 1 31 (minDerivedSerial + 8) 4 32 Right.all 7]

/- Tokens given only by a mint from an untokened parent. -/
def Origin.TokenFromPlain (origin : Origin) (src c : Capability) : Prop :=
  match origin with
  | .mintToken => src.token = 0 ∧ hasRights src.rights Right.mint = true
  | .replyMint => src.token = 0
  | _ => c.token = src.token

end Horus
