import Horus.Capability.Basic

/-
  Lookup and derivation (`rust/src/capability.rs`).

  Each derivation writes one new record whose badge is the
  serial of its source, and fails without changing anything.
  A failure is `none`; success carries the new memory and the
  advanced serial counter.
-/

namespace Horus

open Function

/- `rust_cap_lookup`: the record in a slot, if it is usable. -/
def rustCapLookup (mem : CapMem) (cspace : Option Nat) (size slot : Nat)
    (required : Rights) : Option Addr :=
  match cspace with
  | none => none
  | some space =>
  if size ≤ slot ∨ cnodeSize ≤ slot then none
  else
    let cap := mem ⟨space, slot⟩
    if cap.typ = .null then none
    else if !hasRights cap.rights required then none
    else if cap.serial = 0 then none
    else some ⟨space, slot⟩

/-
  `rust_cap_lookup_typed`; the expected type `CAP_ANYTYPE` is
  `none`.
-/
def rustCapLookupTyped (mem : CapMem) (cspace : Option Nat) (size slot : Nat)
    (expected : Option CapType) (required : Rights) : Option Addr :=
  match rustCapLookup mem cspace size slot required with
  | none => none
  | some a =>
    match expected with
    | none => some a
    | some typ => if (mem a).typ = typ then some a else none

/- `rust_ipc_object_from_slot`: the object index, in range. -/
def rustIpcObjectFromSlot (mem : CapMem) (cspace : Option Nat) (size slot : Nat)
    (expected : CapType) (required : Rights) (indexMax : Nat) : Option Nat :=
  match rustCapLookupTyped mem cspace size slot (some expected) required with
  | none => none
  | some a => if (mem a).object < indexMax then some (mem a).object else none

theorem rustCapLookup_eq_some_iff (mem : CapMem) (cspace : Option Nat) (size slot : Nat)
    (required : Rights) (a : Addr) : rustCapLookup mem cspace size slot required = some a ↔
      cspace = some a.space ∧ a.slot = slot ∧ slot < size ∧ slot < cnodeSize ∧ (mem a).typ ≠ .null ∧
        hasRights (mem a).rights required ∧ (mem a).serial ≠ 0 := by
  cases cspace with
  | none => simp [rustCapLookup]
  | some =>
  constructor
  · intro hFound
    simp only [rustCapLookup] at hFound
    iterate 4
      split at hFound
      · simp at hFound
    · simp only [Option.some.injEq] at hFound
      subst hFound
      simp_all
  · rintro ⟨hSpace, hSlot, hSize, hCnode, hTyp, hRights, hSerial⟩
    cases hSpace
    subst hSlot
    simp [rustCapLookup, hTyp, hRights, hSerial]
    omega

theorem rustCapLookupTyped_eq_some {mem : CapMem} {cspace : Option Nat} {size slot : Nat}
    {expected : Option CapType} {required : Rights} {a : Addr}
    (hFound : rustCapLookupTyped mem cspace size slot expected required = some a) :
    rustCapLookup mem cspace size slot required = some a ∧
      ∀ typ, expected = some typ → (mem a).typ = typ := by
  simp only [rustCapLookupTyped] at hFound
  split at hFound
  · simp at hFound
  rename_i b hLookup
  cases expected with
  | none =>
    simp only [Option.some.injEq] at hFound
    subst hFound
    exact ⟨hLookup, by simp⟩
  | some =>
  simp only at hFound
  split at hFound
  · rename_i hTyp
    simp only [Option.some.injEq] at hFound
    subst hFound
    exact ⟨hLookup, by simp [hTyp]⟩
  · simp at hFound

/- A copy of `src` with its rights narrowed. -/
def derivedCap (src : Capability) (newRights : Rights) (serial : Nat) : Capability :=
  { typ := src.typ
    rights := newRights &&& src.rights
    object := src.object
    badge := src.serial
    serial := serial
    token := src.token }

/- An endpoint capability with a token and without READ. -/
def tokenedCap (src : Capability) (newRights : Rights) (token serial : Nat) : Capability :=
  { typ := .endpoint
    rights := newRights &&& src.rights &&& ~~~tokenStrippedRights
    object := src.object
    badge := src.serial
    serial := serial
    token := token }

/- A pipe end is counted, so ring 3 may not copy it. -/
def copyableFromRing3 (typ : CapType) : Bool := typ ≠ .pipe

----
-- Derivations
----

/- `rust_cap_mint`; `dest` may be `src` itself. -/
def rustCapMint (mem : CapMem) (nextSerial : Nat) (cspace : Option Nat)
    (size dest src : Nat) (newRights : Rights) : Option (CapMem × Nat) :=
  match cspace with
  | none => none
  | some space =>
  if size ≤ dest ∨ cnodeSize ≤ dest then none
  else if size ≤ src ∨ cnodeSize ≤ src then none
  else if dest < kernelReservedCaps then none
  else
    let source := mem ⟨space, src⟩
    if source.typ = .null then none
    else if source.serial = 0 then none
    else if !copyableFromRing3 source.typ then none
    else
      let fresh := assignFreshSerial nextSerial
      if fresh.1 = 0 then none
      else some (update mem ⟨space, dest⟩ (derivedCap source newRights fresh.1), fresh.2)

/- `rust_cap_transfer`: a mint that keeps every right. -/
def rustCapTransfer (mem : CapMem) (nextSerial : Nat) (cspace : Option Nat)
    (size dest src : Nat) : Option (CapMem × Nat) :=
  rustCapMint mem nextSerial cspace size dest src Right.all

/-
  `rust_cap_grant_into`: a derivation across capability
  spaces, into any slot.
-/
def rustCapGrantInto (mem : CapMem) (nextSerial : Nat) (src : Option Addr) (destSpace : Option Nat)
    (destSize destSlot : Nat) (newRights : Rights) : Option (CapMem × Nat) :=
  match src, destSpace with
  | some source, some space =>
    if destSize ≤ destSlot ∨ cnodeSize ≤ destSlot then none
    else if (mem source).typ = .null ∨ (mem source).serial = 0 then none
    else
      let fresh := assignFreshSerial nextSerial
      if fresh.1 = 0 then none
      else some (update mem ⟨space, destSlot⟩ (derivedCap (mem source) newRights fresh.1), fresh.2)
  | _, _ => none

/- `rust_cap_grant_from_user`: refuses a pipe end. -/
def rustCapGrantFromUser (mem : CapMem) (nextSerial : Nat) (src : Option Addr)
    (destSpace : Option Nat) (destSize destSlot : Nat)
    (newRights : Rights) : Option (CapMem × Nat) :=
  match src with
  | none => none
  | some source =>
    if !copyableFromRing3 (mem source).typ then none
    else rustCapGrantInto mem nextSerial (some source) destSpace destSize destSlot newRights

def rustCapMintToken (mem : CapMem) (nextSerial : Nat) (cspace : Option Nat)
    (size dest src : Nat) (newRights : Rights) (token : Nat) : Option (CapMem × Nat) :=
  match cspace with
  | none => none
  | some space =>
  if token = 0 then none
  else if size ≤ dest ∨ cnodeSize ≤ dest ∨ dest < kernelReservedCaps then none
  else if size ≤ src ∨ cnodeSize ≤ src ∨ src = dest then none
  else
    let source := mem ⟨space, src⟩
    if source.typ ≠ .endpoint ∨ source.serial = 0 then none
    else if source.rights &&& Right.mint = 0 ∨ source.token ≠ 0 then none
    else
      let fresh := assignFreshSerial nextSerial
      if fresh.1 = 0 then none
      else some (update mem ⟨space, dest⟩ (tokenedCap source newRights token fresh.1), fresh.2)

/-
  `rust_cap_reply_mint`: into an empty slot, from the
  capability a request came through, whatever its token.
-/
def rustCapReplyMint (mem : CapMem) (nextSerial : Nat) (src : Option Addr) (destSpace : Option Nat)
    (destSize destSlot : Nat) (newRights : Rights) (token : Nat) : Option (CapMem × Nat) :=
  match src, destSpace with
  | some source, some space =>
    if token = 0 then none
    else if destSize ≤ destSlot ∨ cnodeSize ≤ destSlot ∨ destSlot < kernelReservedCaps then none
    else if (mem source).typ ≠ .endpoint ∨ (mem source).serial = 0 then none
    else if (mem ⟨space, destSlot⟩).typ ≠ .null then none
    else
      let fresh := assignFreshSerial nextSerial
      if fresh.1 = 0 then none
      else
        some (update mem ⟨space, destSlot⟩ (tokenedCap (mem source) newRights token fresh.1),
          fresh.2)
  | _, _ => none

theorem hasRights_and (held wanted : Rights) : hasRights held (wanted &&& held) = true := by
  simp only [hasRights, beq_iff_eq]
  ext i
  simp

theorem hasRights_and_and (held wanted kept : Rights) :
    hasRights held (wanted &&& held &&& kept) = true := by
  simp only [hasRights, beq_iff_eq]
  ext i
  simp
  intro _ hHeld _
  exact hHeld

/- A tokened capability cannot receive. -/
theorem tokenedCap_no_read (src : Capability) (newRights : Rights) (token serial : Nat) :
    (tokenedCap src newRights token serial).rights &&& Right.read = 0 := by
  simp only [tokenedCap, tokenStrippedRights, BitVec.and_assoc, BitVec.not_and_self]
  simp

section Checked

variable {mem : CapMem} {nextSerial size dest token : Nat}
    {newRights : Rights} {result : CapMem × Nat}

theorem rustCapMint_eq_some {space src : Nat}
    (hMint : rustCapMint mem nextSerial (some space) size dest src newRights = some result) :
    result = (update mem ⟨space, dest⟩ (derivedCap (mem ⟨space, src⟩) newRights
            (assignFreshSerial nextSerial).1),
          (assignFreshSerial nextSerial).2) ∧
      dest < cnodeSize ∧ src < cnodeSize ∧ (mem ⟨space, src⟩).typ ≠ .null ∧
      (mem ⟨space, src⟩).serial ≠ 0 ∧ (mem ⟨space, src⟩).typ ≠ .pipe ∧
      (assignFreshSerial nextSerial).1 ≠ 0 := by
  simp only [rustCapMint] at hMint
  split_ifs at hMint with hDest hSrc _ hTyp hSerial hCopy hFresh
  have hPipe : (mem ⟨space, src⟩).typ ≠ .pipe := by
    simpa [copyableFromRing3] using hCopy
  refine ⟨(Option.some.inj hMint).symm, ?_, ?_, hTyp, hSerial, hPipe, hFresh⟩ <;> omega

theorem rustCapMintToken_eq_some {space src : Nat}
    (hMint : rustCapMintToken mem nextSerial (some space) size dest
        src newRights token = some result) :
    result = (update mem ⟨space, dest⟩ (tokenedCap (mem ⟨space, src⟩) newRights token
            (assignFreshSerial nextSerial).1),
          (assignFreshSerial nextSerial).2) ∧
      dest < cnodeSize ∧ src < cnodeSize ∧ (mem ⟨space, src⟩).typ = .endpoint ∧
      (mem ⟨space, src⟩).serial ≠ 0 ∧ (mem ⟨space, src⟩).token = 0 ∧ src ≠ dest ∧
      (assignFreshSerial nextSerial).1 ≠ 0 := by
  simp only [rustCapMintToken] at hMint
  split_ifs at hMint with _ hDest hSrc hTyp hToken hFresh
  push Not at hTyp hToken
  refine ⟨(Option.some.inj hMint).symm, ?_, ?_, hTyp.1, hTyp.2, hToken.2, ?_, hFresh⟩ <;> omega

theorem rustCapGrantInto_eq_some {src : Addr} {destSpace : Nat}
    (hGrant : rustCapGrantInto mem nextSerial (some src)
        (some destSpace) size dest newRights = some result) :
    result = (update mem ⟨destSpace, dest⟩
          (derivedCap (mem src) newRights (assignFreshSerial nextSerial).1),
          (assignFreshSerial nextSerial).2) ∧
      dest < cnodeSize ∧ dest < size ∧ (mem src).typ ≠ .null ∧ (mem src).serial ≠ 0 ∧
      (assignFreshSerial nextSerial).1 ≠ 0 := by
  simp only [rustCapGrantInto] at hGrant
  split_ifs at hGrant with hDest hTyp hFresh
  push Not at hTyp
  refine ⟨(Option.some.inj hGrant).symm, ?_, ?_, hTyp.1, hTyp.2, hFresh⟩ <;> omega

theorem rustCapGrantFromUser_eq_some {src : Addr} {destSpace : Nat}
    (hGrant : rustCapGrantFromUser mem nextSerial (some src)
        (some destSpace) size dest newRights = some result) :
    rustCapGrantInto mem nextSerial (some src) (some destSpace) size dest newRights = some result ∧
      (mem src).typ ≠ .pipe := by
  simp only [rustCapGrantFromUser] at hGrant
  split_ifs at hGrant with hCopy
  refine ⟨hGrant, ?_⟩
  simpa [copyableFromRing3] using hCopy

theorem rustCapReplyMint_eq_some {src : Addr} {destSpace : Nat}
    (hMint : rustCapReplyMint mem nextSerial (some src)
        (some destSpace) size dest newRights token = some result) :
    result = (update mem ⟨destSpace, dest⟩ (tokenedCap (mem src) newRights token
            (assignFreshSerial nextSerial).1),
          (assignFreshSerial nextSerial).2) ∧
      dest < cnodeSize ∧ (mem src).typ = .endpoint ∧ (mem src).serial ≠ 0 ∧
      (mem ⟨destSpace, dest⟩).typ = .null ∧ (assignFreshSerial nextSerial).1 ≠ 0 := by
  simp only [rustCapReplyMint] at hMint
  split_ifs at hMint with _ hDest hTyp hNull hFresh
  push Not at hTyp
  refine ⟨(Option.some.inj hMint).symm, ?_, hTyp.1, hTyp.2, not_not.mp hNull, hFresh⟩
  omega

end Checked

end Horus
