import Horus.Storage.GptRoundTrip

/-
  What a partition that was found in a table is.

  The table comes from the disk, so its numbers are arbitrary.
  A range is given out only for the one entry of its type, and
  only inside the device and the usable range of the header,
  behind the entry array.

  Main declarations:
    * `SafePart`, `UncheckedOk`
    * `found_partition_safe`
-/

namespace Horus.Storage

open Horus.Lib

/- A range of blocks that may be used as the partition of a type. -/
def SafePart (buf : List UInt8) (deviceBlocks : Nat) (ty : List UInt8) (r : Nat × Nat) : Prop :=
  ∃ h entries stop e, gptHeader (slice buf sector sector) = .ok h ∧
    gptEntries buf h = .ok (entries, stop) ∧
    -- the only entry of the type, and its two ends
    (entryRows entries h.num).filter (slice · 0 16 = ty) = [e] ∧
    rdU64 e 32 = some (r.1 * sectorsPerBlock) ∧
    rdU64 e 40 = some ((r.1 + r.2) * sectorsPerBlock - 1) ∧
    0 < r.2 ∧ r.1 + r.2 ≤ deviceBlocks ∧ h.firstUsable ≤ r.1 * sectorsPerBlock ∧
    (r.1 + r.2) * sectorsPerBlock ≤ h.lastUsable + 1 ∧ stop ≤ r.1 * sectorsPerBlock * sector

/-
  The slices that the reader takes without a check, and the
  one difference, stay inside what they are taken of.
-/
structure UncheckedOk (buf : List UInt8) : Prop where
  text : 2 * sector ≤ buf.length → 16 ≤ (slice buf sector sector).length
  checksum : 2 * sector ≤ buf.length → ∀ headerSize,
    rdU32 (slice buf sector sector) 12 = some headerSize →
    ¬ (headerSize < 92 ∨ sector < headerSize) →
    20 ≤ headerSize ∧ headerSize ≤ (slice buf sector sector).length
  rows : ∀ h entries stop, gptEntries buf h = .ok (entries, stop) →
    h.num * entrySize ≤ entries.length ∧ ∀ e ∈ entryRows entries h.num, 16 ≤ e.length
  count : ∀ first last stop, ¬ first > last → checkedAdd last 1 = some stop → first ≤ stop

theorem length_slice {b : List UInt8} {off n : Nat} (hFits : off + n ≤ b.length) :
    (slice b off n).length = n := by
  rw [slice, List.length_take, List.length_drop]
  omega

theorem orError_eq_ok {α : Type} {err : GptError} {x : Option α} {a : α}
    (hOk : orError err x = .ok a) : x = some a := by
  cases x with
  | none => cases hOk
  | some =>
    cases hOk
    rfl

section Find

variable {buf ty entries : List UInt8} {deviceBlocks tableEnd stop : Nat} {h : GptHeader}
  {two : GptError} {r : Nat × Nat} {found : Option (Nat × Nat)}

theorem gptEntries_ok (hArray : gptEntries buf h = .ok (entries, stop)) :
    ∃ start, start + h.num * entrySize = stop ∧ stop ≤ buf.length ∧
      entries = slice buf start (h.num * entrySize) := by
  unfold gptEntries at hArray
  split at hArray
  · cases hArray
  rename_i hFields
  rw [not_or, not_not] at hFields
  rw [hFields.1] at hArray
  obtain ⟨start, _, hArray⟩ := bind_eq_ok hArray
  obtain ⟨span, hSpan, hArray⟩ := bind_eq_ok hArray
  obtain ⟨stop', hStop, hArray⟩ := bind_eq_ok hArray
  have hSum := checkedAdd_eq_some (orError_eq_ok hStop)
  have hProduct : span = h.num * entrySize := by
    have hSome := orError_eq_ok hSpan
    unfold checkedMul at hSome
    split at hSome
    · exact (Option.some.inj hSome).symm
    · cases hSome
  split at hArray
  · cases hArray
  simp only at hArray
  split at hArray
  · cases hArray
  cases hArray
  subst hProduct
  exact ⟨start, hSum.symm, by omega, rfl⟩

theorem volumeBlocks_eq_some {first last firstUsable lastUsable : Nat}
    (hRange : volumeBlocks first last firstUsable lastUsable tableEnd deviceBlocks = some r) :
    first = r.1 * sectorsPerBlock ∧ last = (r.1 + r.2) * sectorsPerBlock - 1 ∧ 0 < r.2 ∧
      r.1 + r.2 ≤ deviceBlocks ∧ firstUsable ≤ first ∧ last ≤ lastUsable ∧ tableEnd ≤ first := by
  unfold volumeBlocks at hRange
  split at hRange
  · cases hRange
  split at hRange
  · cases hRange
  obtain ⟨stop, hStop, hRange⟩ := Option.bind_eq_some_iff.mp hRange
  have hEnd := checkedAdd_eq_some hStop
  split at hRange
  · cases hRange
  obtain ⟨reach, hReach, hRange⟩ := Option.bind_eq_some_iff.mp hRange
  have hSum := checkedAdd_eq_some hReach
  split at hRange
  · cases hRange
  cases hRange
  simp only [sectorsPerBlock] at *
  omega

/- The range comes from the only entry of its type. -/
theorem findRows_some {rows : List (List UInt8)}
    (hFind : findRows h tableEnd deviceBlocks ty two found rows = .ok (some r)) :
    (found = some r ∧ rows.filter (slice · 0 16 = ty) = []) ∨
      found = none ∧ ∃ e first last, rows.filter (slice · 0 16 = ty) = [e] ∧
        rdU64 e 32 = some first ∧ rdU64 e 40 = some last ∧
        volumeBlocks first last h.firstUsable h.lastUsable tableEnd deviceBlocks = some r := by
  induction rows generalizing found with
  | nil =>
    cases hFind
    exact .inl ⟨rfl, rfl⟩
  | cons e rows ih =>
    unfold findRows at hFind
    split at hFind
    · rename_i hOther
      rw [List.filter_cons_of_neg (by simpa using hOther)]
      exact ih hFind
    rename_i hOwn
    rw [List.filter_cons_of_pos (by simpa using hOwn)]
    split at hFind
    · cases hFind
    rename_i hFound
    obtain ⟨first, hFirst, hFind⟩ := bind_eq_ok hFind
    obtain ⟨last, hLast, hFind⟩ := bind_eq_ok hFind
    obtain ⟨range, hRange, hFind⟩ := bind_eq_ok hFind
    rcases ih hFind with ⟨hSame, hNone⟩ | ⟨hSome, _⟩
    · cases hSame
      exact .inr ⟨by simpa using hFound, e, first, last, by rw [hNone], orError_eq_ok hFirst,
        orError_eq_ok hLast, orError_eq_ok hRange⟩
    · cases hSome

theorem findPart_safe (hFind : findPart buf deviceBlocks ty two = .ok (some r)) :
    SafePart buf deviceBlocks ty r := by
  unfold findPart at hFind
  split at hFind
  · cases hFind
  obtain ⟨h, hHeader, hFind⟩ := bind_eq_ok hFind
  obtain ⟨⟨entries, stop⟩, hArray, hFind⟩ := bind_eq_ok hFind
  rcases findRows_some hFind with ⟨hSome, _⟩ | ⟨_, e, first, last, hOnly, hFirst, hLast, hRange⟩
  · cases hSome
  obtain ⟨rfl, rfl, hCount, hEnd, hFrom, hTo, hBehind⟩ := volumeBlocks_eq_some hRange
  refine ⟨h, entries, stop, e, hHeader, hArray, hOnly, hFirst, hLast, hCount, hEnd, hFrom, ?_, ?_⟩
  · omega
  · have hUp := Nat.div_add_mod' (stop + sector - 1) sector
    have hFar := Nat.mul_le_mul_right sector hBehind
    rw [divCeil] at hFar
    simp only [sector] at *
    omega

theorem uncheckedOk (buf : List UInt8) : UncheckedOk buf where
  text := by
    intro hLength
    rw [length_slice (by omega)]
    decide
  checksum := by
    intro hLength headerSize _ hRange
    rw [length_slice (by omega)]
    omega
  rows := by
    intro h entries stop hArray
    obtain ⟨start, hStop, hEnd, rfl⟩ := gptEntries_ok hArray
    have hLength : (slice buf start (h.num * entrySize)).length = h.num * entrySize :=
      length_slice (by omega)
    refine ⟨hLength.ge, fun e hMem => ?_⟩
    obtain ⟨i, hIndex, rfl⟩ := List.mem_map.mp hMem
    have hBelow := Nat.mul_le_mul_right entrySize (List.mem_range.mp hIndex)
    rw [length_slice (by rw [hLength]; rwa [Nat.succ_mul] at hBelow)]
    decide
  count := by
    intro first last stop hOrder hStop
    have := checkedAdd_eq_some hStop
    omega

theorem findVolume_safe (hFind : findVolume buf deviceBlocks = .ok r) :
    SafePart buf deviceBlocks horusVolumeType r := by
  obtain ⟨found, hPart, hFound⟩ := bind_eq_ok hFind
  cases orError_eq_ok hFound
  exact findPart_safe hPart

end Find

/-
  A partition that is found is safe to use, whatever the
  buffer holds, and no read leaves the buffer on the way.
-/
theorem found_partition_safe (buf : List UInt8) (deviceBlocks : Nat) : UncheckedOk buf ∧
    (∀ r, findVolume buf deviceBlocks = .ok r → SafePart buf deviceBlocks horusVolumeType r) ∧
    ∀ r, findSwap buf deviceBlocks = .ok r → SafePart buf deviceBlocks horusSwapType r ∧
      ∀ v, findVolume buf deviceBlocks = .ok v → v.1 + v.2 ≤ r.1 ∨ r.1 + r.2 ≤ v.1 := by
  refine ⟨uncheckedOk buf, fun r => findVolume_safe, fun r hFind => ?_⟩
  obtain ⟨vol, hVolume, hFind⟩ := bind_eq_ok hFind
  obtain ⟨found, hPart, hFind⟩ := bind_eq_ok hFind
  obtain ⟨swap, hFound, hFind⟩ := bind_eq_ok hFind
  split at hFind
  swap
  · cases hFind
  rename_i hDisjoint
  cases hFind
  cases orError_eq_ok hFound
  refine ⟨findPart_safe hPart, fun v hSame => ?_⟩
  cases hVolume.symm.trans hSame
  unfold rangesDisjoint at hDisjoint
  split at hDisjoint
  · rename_i hFront hBack
    rw [checkedAdd_eq_some hFront, checkedAdd_eq_some hBack] at hDisjoint
    simpa using hDisjoint
  · cases hDisjoint

end Horus.Storage
