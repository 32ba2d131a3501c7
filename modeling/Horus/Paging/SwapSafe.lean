import Horus.Paging.Swap

/-
  The swap store gives back the right page or refuses.

  What memory holds for a slot in use names one entry of what
  was sealed. As long as generations are not issued twice, no
  two seals have one nonce, so that entry is the only one the
  scheme opens for the slot, whatever the disk holds.

  Main declarations:
    * `swapPut_cases`
    * `HeldSlot`, `SwapSafe`
    * `SwapSafe.apply`, `safe_of_run`
    * `swap_returns_right_page_or_refuses`
    * `UsedUp`, `swap_generation_repeats`
-/

namespace Horus.Paging

open Swap
open Function (update update_eq_self update_idem update_of_ne update_self)
open Lib

variable {i slot : Nat} {c : SwapCall} {v : SwapSlot} {page page' : List UInt8} {read : Bool}

theorem swapSlotsMax_lt : swapSlotsMax < 256 ^ 4 := by
  decide

theorem leBytes_inj {n v w : Nat} (hLow : v < 256 ^ n) (hLow' : w < 256 ^ n)
    (hBytes : leBytes n v = leBytes n w) : v = w := by
  rw [← ofLe_leBytes_of_lt hLow, hBytes, ofLe_leBytes_of_lt hLow']

/- A nonce determines the slot and the generation. -/
theorem nonce_inj {j g h : Nat} (hSlot : i < swapSlotsMax)
    (hSlot' : j < swapSlotsMax) (hGen : g < 2 ^ 64) (hGen' : h < 2 ^ 64)
    (hNonce : (sealParams i g).1 = (sealParams j h).1) : i = j ∧ g = h := by
  have hMax := swapSlotsMax_lt
  have hParts := List.append_inj hNonce (by simp)
  exact ⟨leBytes_inj (by omega) (by omega) hParts.1, leBytes_inj (by omega) (by omega) hParts.2⟩

variable {s : Swap}

/- The slot found is free and inside the partition. -/
theorem freeSlot_some (hFree : s.freeSlot = some i) : i < s.slots ∧ (s.slot i).gen = 0 := by
  have hTest := List.find?_some hFree
  have hMem := List.mem_of_find?_eq_some hFree
  obtain ⟨k, hRange, hIndex⟩ := List.mem_map.mp hMem
  have hSome : k < s.slots := List.mem_range.mp hRange
  have hInside : i < s.slots := by
    rw [← hIndex]
    exact Nat.mod_lt _ (by omega)
  exact ⟨hInside, by simpa using hTest⟩

/- The state after a seal that is not in use yet. -/
def Swap.sealing (s : Swap) (slot : Nat) (page cipher tag : List UInt8) : Swap :=
  s.issue.noteSealed (s.issue.entry slot page cipher tag)

/- The state after a put that succeeds. -/
def Swap.putDone (s : Swap) (slot : Nat) (page cipher tag : List UInt8) : Swap :=
  (((s.sealing slot page cipher tag).fill slot cipher tag).taken slot).note (.put slot page)

/- All that a put can do. -/
inductive PutCase (s : Swap) (page : List UInt8) : Swap × Int × Option Nat → Prop where
  | refused : PutCase s page (s, -1, none)
  | unsealed (hOn : s.on = true) : PutCase s page (s.issue, -1, none)
  | unwritten {slot : Nat} {cipher tag : List UInt8} (hOn : s.on = true) (hSlot : slot < s.slots)
      (hFree : (s.slot slot).gen = 0) :
      PutCase s page (s.sealing slot page cipher tag, -1, none)
  | done {slot : Nat} {cipher tag : List UInt8} (hOn : s.on = true) (hSlot : slot < s.slots)
      (hFree : (s.slot slot).gen = 0) :
      PutCase s page (s.putDone slot page cipher tag, 0, some slot)

theorem swapPut_cases (s : Swap) (page : List UInt8) (io : SealIo) :
    PutCase s page (swapPut s page io) := by
  unfold swapPut
  split
  case isFalse => exact .refused
  case isTrue hOn =>
    split
    case h_1 => exact .refused
    case h_2 slot hFound =>
      obtain ⟨hSlot, hFree⟩ := freeSlot_some hFound
      unfold sealAndWrite
      rcases hMade : io.made with _ | ⟨cipher, tag⟩
      · exact .unsealed hOn
      cases hWritten : io.written with
      | false => exact .unwritten hOn hSlot hFree
      | true => exact .done hOn hSlot hFree

section Counting

variable {n i : Nat} {slot : Nat → SwapSlot} {v : SwapSlot}

theorem slotsInUse_card_le (n : Nat) (slot : Nat → SwapSlot) : (slotsInUse n slot).card ≤ n := by
  have hSub : slotsInUse n slot ⊆ Finset.range n := Finset.filter_subset _ _
  simpa using Finset.card_le_card hSub

/- A slot that stays in use, or stays free. -/
theorem slotsInUse_same (hSame : v.gen = 0 ↔ (slot i).gen = 0) :
    slotsInUse n (update slot i v) = slotsInUse n slot := by
  ext j
  rcases eq_or_ne j i with rfl | hAt
  · simp [slotsInUse, hSame]
  · simp [slotsInUse, update_of_ne hAt]

theorem slotsInUse_take (hInside : i < n) (hFree : (slot i).gen = 0)
    (hTaken : v.gen ≠ 0) : (slotsInUse n (update slot i v)).card =
      (slotsInUse n slot).card + 1 := by
  have hInsert : slotsInUse n (update slot i v) = insert i (slotsInUse n slot) := by
    ext j
    rcases eq_or_ne j i with rfl | hAt
    · simp [slotsInUse, hInside, hTaken]
    · simp [slotsInUse, hAt]
  have hNew : i ∉ slotsInUse n slot := by
    simp [slotsInUse, hFree]
  rw [hInsert, Finset.card_insert_of_notMem hNew]

theorem slotsInUse_drop (hInside : i < n) (hUsed : (slot i).gen ≠ 0) (hFreed : v.gen = 0) :
    (slotsInUse n (update slot i v)).card + 1 = (slotsInUse n slot).card := by
  have hFree : (update slot i v i).gen = 0 := by
    simpa using hFreed
  have hBack := slotsInUse_take hInside hFree hUsed
  rw [← hBack, update_idem, update_eq_self]

end Counting

/- A slot in use, as memory and the callers know it. -/
structure HeldSlot (s : Swap) (i : Nat) : Prop where
  inside : i < s.slots
  entry : ∃ e ∈ s.sealed, e.nonce = (sealParams i (s.slot i).gen).1 ∧
      lastPut i s.calls = some e.plain
  released : freesSince i s.calls ≤ refsSince i s.calls
  refs : (s.slot i).refs = (1 + refsSince i s.calls - freesSince i s.calls) % 2 ^ 32

structure SwapSafe (s : Swap) : Prop where
  off : s.on = false → s.issued = 0 ∧ s.sealed = [] ∧ s.used = 0 ∧ ∀ i, s.slot i = SwapSlot.free
  bound : s.slots ≤ swapSlotsMax
  gen : s.gen = s.issued % 2 ^ 64
  distinct : NoncesDistinct s.sealed
  named : ∀ e ∈ s.sealed, ∃ i g, i < s.slots ∧ g ≤ s.issued ∧ e.nonce = (sealParams i g).1
  free : ∀ i, (s.slot i).gen = 0 → (s.slot i).refs = 0
  held : ∀ i, (s.slot i).gen ≠ 0 → HeldSlot s i
  used : s.used = s.inUse.card

theorem SwapSafe.boot (disk : Nat → List UInt8) : SwapSafe (Swap.boot disk) where
  off := fun _ => ⟨rfl, rfl, rfl, fun _ => rfl⟩
  bound := Nat.zero_le _
  gen := rfl
  distinct := List.nodup_nil
  named := nofun
  free := fun _ _ => rfl
  held := fun _ hGen => absurd rfl hGen
  used := rfl

----
-- Steps
----

section Steps

variable {s : Swap}

namespace SwapSafe

variable (hSafe : SwapSafe s)

include hSafe

theorem issue (hOn : s.on = true) : SwapSafe s.issue where
  off := fun hOff => nomatch hOn.symm.trans hOff
  __ := hSafe
  gen := by
    change (s.gen + 1) % 2 ^ 64 = (s.issued + 1) % 2 ^ 64
    rw [hSafe.gen, Nat.mod_add_mod]
  named := by
    intro e hMem
    obtain ⟨i, g, hSlot, hOld, hNonce⟩ := hSafe.named e hMem
    exact ⟨i, g, hSlot, Nat.le_succ_of_le hOld, hNonce⟩
  held := by
    intro i hGen
    exact { hSafe.held i hGen with }

/- The generation of a fresh seal is the number issued. -/
theorem gen_issue (hFew : s.issued + 1 < 2 ^ 64) : s.issue.gen = s.issued + 1 := by
  change (s.gen + 1) % 2 ^ 64 = s.issued + 1
  rw [hSafe.gen, Nat.mod_add_mod, Nat.mod_eq_of_lt hFew]

/- The nonce of a fresh seal was not used before. -/
theorem nonce_fresh
    (hFew : s.issued + 1 < 2 ^ 64) (hSlot : slot < s.slots) {e : Sealed} (hMem : e ∈ s.sealed) :
    e.nonce ≠ (sealParams slot s.issue.gen).1 := by
  intro hNonce
  obtain ⟨i, g, hSlot', hOld, hNamed⟩ := hSafe.named e hMem
  have hBound := hSafe.bound
  have hFresh := hSafe.gen_issue hFew
  have hSame := nonce_inj (by omega) (by omega) (by omega) (by omega) (hNamed.symm.trans hNonce)
  omega

theorem sealing (hOn : s.on = true)
    (hFew : s.issued + 1 < 2 ^ 64) (hSlot : slot < s.slots) (page cipher tag : List UInt8) :
    SwapSafe (s.sealing slot page cipher tag) := by
  have hIssue := hSafe.issue hOn
  have hGen := hSafe.gen_issue hFew
  refine
    { hIssue with
      off := fun hOff => nomatch hOn.symm.trans hOff
      distinct := ?_
      named := ?_
      held := ?_
      used := hIssue.used }
  · refine List.nodup_cons.mpr ⟨?_, hIssue.distinct⟩
    intro hMem
    obtain ⟨e, hOld, hNonce⟩ := List.mem_map.mp hMem
    exact hSafe.nonce_fresh hFew hSlot hOld hNonce
  · intro e hMem
    rcases List.mem_cons.mp hMem with rfl | hOld
    · exact ⟨slot, s.issue.gen, hSlot, hGen.le, rfl⟩
    · exact hIssue.named e hOld
  · intro i hUsed
    have hHeld := hIssue.held i hUsed
    obtain ⟨e, hOld, hEntry⟩ := hHeld.entry
    exact { hHeld with entry := ⟨e, List.mem_cons_of_mem _ hOld, hEntry⟩ }

end SwapSafe

/- Notes on other slots change nothing for a slot. -/
theorem HeldSlot.congr {s' : Swap} (hHeld : HeldSlot s i)
    (hSlots : s'.slots = s.slots) (hSealed : ∀ e ∈ s.sealed, e ∈ s'.sealed)
    (hSlot : s'.slot i = s.slot i) (hPut : lastPut i s'.calls = lastPut i s.calls)
    (hRefs : refsSince i s'.calls = refsSince i s.calls)
    (hFrees : freesSince i s'.calls = freesSince i s.calls) : HeldSlot s' i := by
  obtain ⟨e, hMem, hNonce, hPlain⟩ := hHeld.entry
  refine ⟨hSlots ▸ hHeld.inside, ⟨e, hSealed e hMem, ?_, ?_⟩, ?_, ?_⟩
  · rw [hSlot]
    exact hNonce
  · rw [hPut]
    exact hPlain
  · rw [hRefs, hFrees]
    exact hHeld.released
  · rw [hSlot, hRefs, hFrees]
    exact hHeld.refs

namespace SwapSafe

variable (hSafe : SwapSafe s)

include hSafe

theorem putDone (hOn : s.on = true) (hFew : s.issued + 1 < 2 ^ 64) (hSlot : slot < s.slots)
    (hFree : (s.slot slot).gen = 0) (page cipher tag : List UInt8) :
    SwapSafe (s.putDone slot page cipher tag) := by
  have hSealed := hSafe.sealing hOn hFew hSlot page cipher tag
  have hGen := hSafe.gen_issue hFew
  have hGenNe : s.issue.gen ≠ 0 := by omega
  have hRefs : (s.slot slot).refs = 0 := hSafe.free slot hFree
  have hAt : (s.putDone slot page cipher tag).slot slot =
        { gen := s.issue.gen, tag := tag, refs := 1 } := by
    change update s.slot slot _ slot = _
    rw [update_self]
    change SwapSlot.mk s.issue.gen tag (if (s.slot slot).refs = 0 then 1
        else (s.slot slot).refs) = _
    rw [if_pos hRefs]
  have hOther : ∀ i, i ≠ slot → (s.putDone slot page cipher tag).slot i = s.slot i := by
    intro i hNe
    change update s.slot slot _ i = _
    rw [update_of_ne hNe]
  refine
    { hSealed with
      off := fun hOff => nomatch hOn.symm.trans hOff
      free := ?_
      held := ?_
      used := ?_ }
  · intro i hZero
    rcases eq_or_ne i slot with rfl | hSame
    · rw [hAt] at hZero
      exact absurd hZero hGenNe
    · rw [hOther i hSame] at hZero ⊢
      exact hSafe.free i hZero
  · intro i hUsed
    rcases eq_or_ne i slot with rfl | hSame
    · refine ⟨hSlot, ⟨s.issue.entry i page cipher tag, List.mem_cons_self, ?_, ?_⟩, ?_, ?_⟩
      · rw [hAt]
        rfl
      · simp [putDone, note, lastPut, entry]
      · simp [putDone, note, freesSince]
      · rw [hAt]
        simp [putDone, note, refsSince, freesSince]
    · rw [hOther i hSame] at hUsed
      have hSkip : slot ≠ i := fun hEq => hSame hEq.symm
      refine (hSafe.held i hUsed).congr rfl (fun e hMem => List.mem_cons_of_mem _ hMem)
        (hOther i hSame) ?_ ?_ ?_
      · exact if_neg hSkip
      · exact if_neg hSkip
      · exact if_neg hSkip
  · have hMax := swapSlotsMax_lt
    have hBound := hSafe.bound
    have hLe := slotsInUse_card_le s.slots s.slot
    have hUsed : s.used = (slotsInUse s.slots s.slot).card := hSafe.used
    change (s.used + 1) % 2 ^ 64 = (slotsInUse s.slots (update s.slot slot _)).card
    rw [slotsInUse_take hSlot hFree, hUsed, Nat.mod_eq_of_lt (by omega)]
    exact hGenNe

/- A slot in use means that swap is on. -/
theorem on_of_held (hUsed : (s.slot i).gen ≠ 0) : s.on = true := by
  cases hOn : s.on with
  | true => rfl
  | false =>
    obtain ⟨_, _, _, hAll⟩ := hSafe.off hOn
    rw [hAll i] at hUsed
    exact absurd rfl hUsed

/-
  A call about one slot that keeps all the others and what
  was sealed keeps the store safe, if that slot is accounted
  for.
-/
theorem slot_step (used : Nat)
    (hCall : c = .ref slot ∨ c = .free slot) (hOff : s.on = false → v = SwapSlot.free ∧ used = 0)
    (hFree : v.gen = 0 → v.refs = 0)
    (hHeld : v.gen ≠ 0 → HeldSlot ({ s with used := used, slot := update s.slot slot v }.note c)
        slot)
    (hUsed : used = (slotsInUse s.slots (update s.slot slot v)).card) : SwapSafe
      ({ s with used := used, slot := update s.slot slot v }.note c) where
  off := by
    intro hNot
    obtain ⟨hIssued, hNone, _, hAll⟩ := hSafe.off hNot
    obtain ⟨hV, hZero⟩ := hOff hNot
    refine ⟨hIssued, hNone, hZero, ?_⟩
    intro i
    change update s.slot slot v i = _
    by_cases hSame : i = slot
    · rw [hSame, update_self, hV]
    · rw [update_of_ne hSame, hAll i]
  __ := hSafe
  free := by
    intro i hZero
    change (update s.slot slot v i).gen = 0 at hZero
    change (update s.slot slot v i).refs = 0
    by_cases hSame : i = slot
    · rw [hSame, update_self] at hZero ⊢
      exact hFree hZero
    · rw [update_of_ne hSame] at hZero ⊢
      exact hSafe.free i hZero
  held := by
    intro i hGen
    change (update s.slot slot v i).gen ≠ 0 at hGen
    rcases eq_or_ne i slot with rfl | hSame
    · rw [update_self] at hGen
      exact hHeld hGen
    rw [update_of_ne hSame] at hGen
    have hSkip : slot ≠ i := fun hEq => hSame hEq.symm
    refine (hSafe.held i hGen).congr rfl (fun e hMem => hMem) (update_of_ne hSame _ _) ?_ ?_ ?_ <;>
    rcases hCall with rfl | rfl <;>
    simp [note, lastPut, refsSince, freesSince, hSkip]
  used := hUsed

/- Calls about a free slot leave it free. -/
theorem free_slot (hZero : (s.slot slot).gen = 0)
    (hV : v = s.slot slot ∨ v = SwapSlot.free) (hCall : c = .ref slot ∨ c = .free slot) :
    SwapSafe ((s.setSlot slot v).note c) := by
  have hGen : v.gen = 0 := by
    rcases hV with rfl | rfl
    · exact hZero
    · rfl
  refine hSafe.slot_step s.used hCall ?_ ?_ ?_ ?_
  · intro hOff
    obtain ⟨_, _, hNone, hAll⟩ := hSafe.off hOff
    refine ⟨?_, hNone⟩
    rcases hV with rfl | rfl
    · exact hAll slot
    · rfl
  · intro _
    rcases hV with rfl | rfl
    · exact hSafe.free slot hZero
    · rfl
  · intro hNe
    exact absurd hGen hNe
  · rw [slotsInUse_same (iff_of_true hGen hZero)]
    exact hSafe.used

/- The references to a slot in use are counted anew. -/
theorem recount (hUsed : (s.slot slot).gen ≠ 0)
    (hCall : c = .ref slot ∨ c = .free slot) {refs : Nat}
    (hReleased : freesSince slot (c :: s.calls) ≤ refsSince slot (c :: s.calls))
    (hRefs : refs = (1 + refsSince slot (c :: s.calls) - freesSince slot (c :: s.calls)) % 2 ^ 32) :
    SwapSafe ((s.setSlot slot { s.slot slot with refs := refs }).note c) := by
  have hHeld := hSafe.held slot hUsed
  have hOn := hSafe.on_of_held hUsed
  refine hSafe.slot_step _ hCall (fun hOff => nomatch hOn.symm.trans hOff)
    (fun hZero => absurd hZero hUsed) (fun _ => ⟨hHeld.inside, ?_, hReleased, ?_⟩) ?_
  · rcases hCall with rfl | rfl <;> simpa [note, lastPut] using hHeld.entry
  · simpa [note] using hRefs
  · rw [slotsInUse_same]
    · exact hSafe.used
    · exact Iff.rfl

theorem ref (slot : Nat) : SwapSafe ((swapRef s slot).note (.ref slot)) := by
  by_cases hUsed : (s.slot slot).gen = 0
  · have hSame : swapRef s slot = s.setSlot slot (s.slot slot) := by
      simp [swapRef, hUsed, setSlot]
    rw [hSame]
    exact hSafe.free_slot hUsed (.inl rfl) (.inl rfl)
  have hHeld := hSafe.held slot hUsed
  have hLe := hHeld.released
  have hRefs := hHeld.refs
  rw [swapRef, if_pos ⟨hSafe.on_of_held hUsed, hHeld.inside, hUsed⟩]
  apply hSafe.recount hUsed (.inl rfl)
  · simp only [refsSince, freesSince, if_true]
    omega
  · simp only [refsSince, freesSince, if_true]
    omega

theorem release (slot : Nat) : SwapSafe ((swapFree s slot).note (.free slot)) := by
  by_cases hUsed : (s.slot slot).gen = 0
  · by_cases hIn : s.on ∧ slot < s.slots
    · rw [swapFree, if_pos hIn, if_neg (by simp [hUsed]), if_neg (by simp [hUsed])]
      exact hSafe.free_slot hUsed (.inr rfl) (.inr rfl)
    · have hSame : swapFree s slot = s.setSlot slot (s.slot slot) := by
        rw [swapFree, if_neg hIn]
        simp [setSlot]
      rw [hSame]
      exact hSafe.free_slot hUsed (.inl rfl) (.inr rfl)
  have hHeld := hSafe.held slot hUsed
  have hOn := hSafe.on_of_held hUsed
  have hRefs := hHeld.refs
  rw [swapFree, if_pos ⟨hOn, hHeld.inside⟩]
  by_cases hMany : 1 < (s.slot slot).refs
  · -- more than one reference is left, so the count of releases
    -- stays behind
    rw [if_pos ⟨hUsed, hMany⟩]
    apply hSafe.recount hUsed (.inr rfl)
    · simp only [refsSince, freesSince, if_true]
      omega
    · simp only [refsSince, freesSince, if_true]
      omega
  · rw [if_neg (fun hBoth => hMany hBoth.2), if_pos hUsed]
    have hCount : s.used = (slotsInUse s.slots s.slot).card := hSafe.used
    have hDrop := slotsInUse_drop (v := SwapSlot.free) hHeld.inside hUsed rfl
    have hLess : (if s.used = 0 then 2 ^ 64 - 1 else s.used - 1) =
          (slotsInUse s.slots (update s.slot slot SwapSlot.free)).card := by
      rw [if_neg (by omega)]
      omega
    simp only [dropUsed, setSlot, hLess]
    exact hSafe.slot_step _ (.inr rfl) (fun hOff => nomatch hOn.symm.trans hOff) (fun _ => rfl)
      (fun hNe => absurd rfl hNe) rfl

theorem enable (count : Nat) (memory : Bool) : SwapSafe (swapEnable s count memory) := by
  unfold swapEnable
  split
  case isTrue => exact hSafe
  case isFalse hStart =>
    have hOff : s.on = false := by
      cases hOn : s.on with
      | false => rfl
      | true => exact absurd (.inl hOn) hStart
    obtain ⟨hIssued, hNone, _, _⟩ := hSafe.off hOff
    refine
      { off := nofun
        bound := Nat.min_le_right _ _
        gen := ?_
        distinct := hSafe.distinct
        named := ?_
        free := fun _ _ => rfl
        held := fun _ hNe => absurd rfl hNe
        used := ?_ }
    · rw [hIssued, Nat.zero_mod]
    · rw [hNone]
      nofun
    · simp [inUse, slotsInUse, SwapSlot.free]

theorem tamper (slot : Nat) (block : List UInt8) : SwapSafe (s.tamper slot block) where
  __ := hSafe
  held := by
    intro i hUsed
    exact (hSafe.held i hUsed).congr rfl (fun _ hMem => hMem) rfl rfl rfl rfl

end SwapSafe

end Steps

/- Generations are only ever issued. -/
theorem issued_le (s : Swap) (op : SwapOp) : s.issued ≤ (s.apply op).issued := by
  cases op with
  | enable =>
    simp only [apply, swapEnable]
    split <;> exact le_refl _
  | put page io =>
    simp only [apply]
    generalize hRes : swapPut s page io = r
    have hCase := swapPut_cases s page io
    rw [hRes] at hCase
    cases hCase with
    | refused => exact le_refl _
    | unsealed | unwritten | done => exact Nat.le_succ _
  | ref =>
    simp only [apply, swapRef]
    split <;> exact le_refl _
  | get => exact le_refl _
  | free slot =>
    have hSame : (swapFree s slot).issued = s.issued := by
      unfold swapFree
      split
      · split
        · rfl
        · split <;> simp [setSlot, dropUsed]
      · rfl
    simp only [apply, note, hSame, le_refl]
  | tamper => exact le_refl _

theorem SwapSafe.apply (hSafe : SwapSafe s) (op : SwapOp)
    (hFew : (s.apply op).issued < 2 ^ 64) : SwapSafe (s.apply op) := by
  cases op with
  | enable count memory => exact hSafe.enable count memory
  | put page io =>
    simp only [Swap.apply] at hFew ⊢
    generalize hRes : swapPut s page io = r at hFew ⊢
    have hCase := swapPut_cases s page io
    rw [hRes] at hCase
    cases hCase with
    | refused => exact hSafe
    | unsealed hOn => exact hSafe.issue hOn
    | unwritten hOn hSlot => exact hSafe.sealing hOn hFew hSlot _ _ _
    | done hOn hSlot hFree => exact hSafe.putDone hOn hFew hSlot hFree _ _ _
  | ref slot => exact hSafe.ref slot
  | get => exact hSafe
  | free slot => exact hSafe.release slot
  | tamper slot block => exact hSafe.tamper slot block

/- Any sequence of calls, from power-on. -/
abbrev SwapRun := Run apply fun _ _ => True

theorem safe_of_run {disk : Nat → List UInt8}
    (hRun : SwapRun (Swap.boot disk) s) (hFew : s.issued < 2 ^ 64) : SwapSafe s := by
  refine Run.invariant (fun s => s.issued < 2 ^ 64 → SwapSafe s)
    ?_ hRun (fun _ => SwapSafe.boot disk) hFew
  intro s op hBefore _ hFew
  have hLe := issued_le s op
  exact (hBefore (by omega)).apply op hFew

----
-- The Right Page or a Refusal
----

/- A page is given back for a slot in use only. -/
theorem swapGet_ok (hGet : swapGet s slot page read = (0, page')) :
    (s.slot slot).gen ≠ 0 ∧ openSealed s.sealed (sealParams slot (s.slot slot).gen).1
        (sealParams slot (s.slot slot).gen).2
        (s.disk slot) (s.slot slot).tag = some page' := by
  unfold swapGet at hGet
  split at hGet
  · cases hGet
  split at hGet
  · cases hGet
  case isFalse hUse =>
    split at hGet
    · cases hGet
    split at hGet
    · cases hGet
    case h_2 plain hOpen =>
      cases hGet
      exact ⟨fun hZero => hUse (.inr hZero), hOpen⟩

theorem SwapSafe.get_right (hSafe : SwapSafe s) (hGet : swapGet s slot page read = (0, page')) :
    lastPut slot s.calls = some page' ∧ freesSince slot s.calls < 1 + refsSince slot s.calls := by
  obtain ⟨hUsed, hOpen⟩ := swapGet_ok hGet
  have hHeld := hSafe.held slot hUsed
  obtain ⟨e, hMem, hNonce, hPlain⟩ := hHeld.entry
  obtain ⟨e', hMem', hNonce', _, _, _, hPage⟩ := openSealed_some hOpen
  have hSame : e = e' :=
    List.inj_on_of_nodup_map hSafe.distinct hMem hMem' (hNonce.trans hNonce'.symm)
  have hLe := hHeld.released
  refine ⟨?_, by omega⟩
  rw [hPlain, hSame, hPage]

/- A refusal leaves the caller's page as it was. -/
theorem swapGet_refused (hGet : (swapGet s slot page read).1 ≠ 0) :
    (swapGet s slot page read).2 = page := by
  unfold swapGet at hGet ⊢
  iterate 4
    split
    · rfl
  case h_2 hOn hUse hRead _ _ hOpen =>
    simp only [hOn, hUse, hRead, hOpen] at hGet
    simp at hGet

/- A put that fails changes no slot. -/
theorem swapPut_failed {io : SealIo} (hPut : (swapPut s page io).2.1 ≠ 0) :
    (swapPut s page io).1.slot = s.slot ∧ (swapPut s page io).1.used = s.used ∧
      (swapPut s page io).2.2 = none := by
  generalize hRes : swapPut s page io = r at hPut ⊢
  have hCase := swapPut_cases s page io
  rw [hRes] at hCase
  cases hCase with
  | refused | unsealed | unwritten => exact ⟨rfl, rfl, rfl⟩
  | done => exact absurd rfl hPut

/-
  In a boot with fewer than 2^64 seals, a page that is given
  back is the page of the put that last returned the slot,
  and the slot was released less often than it was put and
  referenced since; no two seals have one nonce; a call that
  fails changes no slot and no page of its caller; and the
  count of slots in use is right.
-/
theorem swap_returns_right_page_or_refuses {disk : Nat → List UInt8}
    {s : Swap} (hRun : SwapRun (Swap.boot disk) s) (hFew : s.issued < 2 ^ 64) :
    (∀ slot page read page', swapGet s slot page read = (0, page') →
        lastPut slot s.calls = some page' ∧ freesSince slot s.calls < 1 + refsSince slot s.calls) ∧
      NoncesDistinct s.sealed ∧
      (∀ page io, (swapPut s page io).2.1 ≠ 0 → (swapPut s page io).1.slot = s.slot ∧
          (swapPut s page io).1.used = s.used ∧ (swapPut s page io).2.2 = none) ∧
      (∀ slot page read, (swapGet s slot page read).1 ≠ 0 → s.apply (.get slot page read) = s ∧
            (swapGet s slot page read).2 = page) ∧
      s.used = s.inUse.card := by
  have hSafe := safe_of_run hRun hFew
  refine ⟨?_, hSafe.distinct, ?_, ?_, hSafe.used⟩
  · intro slot page read page' hGet
    exact hSafe.get_right hGet
  · intro page io hPut
    exact swapPut_failed hPut
  · intro slot page read hGet
    exact ⟨rfl, swapGet_refused hGet⟩

/- A page put, shared and released once. -/
def sharedPut : Swap :=
  runAll apply (Swap.boot fun _ => [])
    [.enable 1 true, .put [7] ⟨some ([1], [2]), true⟩, .ref 0, .free 0]

theorem swap_right_page_after_shared_put :
    ∃ s, SwapRun (Swap.boot fun _ => []) s ∧ s.issued < 2 ^ 64 ∧ swapGet s 0 [] true = (0, [7]) ∧
        lastPut 0 s.calls = some [7] := by
  have hRun : SwapRun (Swap.boot fun _ => []) sharedPut :=
    run_runAll _ ⟨trivial, trivial, trivial, trivial, trivial⟩
  have hFew : sharedPut.issued < 2 ^ 64 := by decide
  have hGet : swapGet sharedPut 0 [] true = (0, [7]) := by decide
  exact ⟨_, hRun, hFew, hGet,
    ((swap_returns_right_page_or_refuses hRun hFew).1 0 [] true [7] hGet).1⟩

----
-- The End of the Generations
----

def failedPut (page : List UInt8) : SwapOp := .put page { made := some ([], []), written := false }

theorem apply_failedPut (hOn : s.on = true) (hFree : s.freeSlot = some slot) (page : List UInt8) :
    s.apply (failedPut page) = s.sealing slot page [] [] := by
  simp [apply, failedPut, swapPut, hOn, hFree, sealAndWrite, sealing]

/- Failed puts use up generations and leave the rest. -/
structure UsedUp (s t : Swap) (n : Nat) : Prop where
  run : SwapRun s t
  on : t.on = true
  free : t.freeSlot = s.freeSlot
  slots : t.slots = s.slots
  used : t.used = s.used
  gen : t.gen = (s.gen + n) % 2 ^ 64
  sealed : ∀ e ∈ s.sealed, e ∈ t.sealed

theorem exists_usedUp (hOn : s.on = true) (hFree : s.freeSlot = some slot) (hGen : s.gen < 2 ^ 64)
    (page : List UInt8) (n : Nat) : ∃ t, UsedUp s t n := by
  induction n with
  | zero =>
    refine ⟨s, Run.refl s, hOn, rfl, rfl, rfl, ?_, fun _ hMem => hMem⟩
    rw [Nat.add_zero, Nat.mod_eq_of_lt hGen]
  | succ n ih =>
  obtain ⟨t, hUp⟩ := ih
  have hStep : t.apply (failedPut page) = t.sealing slot page [] [] :=
    apply_failedPut hUp.on (hUp.free.trans hFree) page
  have hMore : SwapRun s (t.sealing slot page [] []) := by
    rw [← hStep]
    exact hUp.run.snoc (failedPut page) trivial
  refine ⟨t.sealing slot page [] [], hMore, hUp.on, hUp.free, hUp.slots, hUp.used, ?_, ?_⟩
  · change (t.gen + 1) % 2 ^ 64 = _
    rw [hUp.gen, Nat.mod_add_mod, Nat.add_assoc]
  · intro e hMem
    exact List.mem_cons_of_mem _ (hUp.sealed e hMem)

/- A store of one slot, after its first seal. -/
def firstSeal : Swap := runAll apply (Swap.boot fun _ => []) [.enable 1 true, failedPut [5]]

/- Its generations are used up. -/
theorem exists_last_generation :
    ∃ t, SwapRun (Swap.boot fun _ => []) t ∧ t.on = true ∧ t.slots = 1 ∧ t.used = 0 ∧
        t.freeSlot = some 0 ∧ t.gen = 2 ^ 64 - 1 ∧
        ∃ e ∈ t.sealed, e.plain = [5] ∧ e.nonce = (sealParams 0 1).1 := by
  have hStart : SwapRun (Swap.boot fun _ => []) firstSeal := run_runAll _ ⟨trivial, trivial, trivial⟩
  have hOn : firstSeal.on = true := by decide
  have hFree : firstSeal.freeSlot = some 0 := by decide
  have hGen : firstSeal.gen < 2 ^ 64 := by decide
  obtain ⟨t, hUp⟩ := exists_usedUp hOn hFree hGen [5] (2 ^ 64 - 2)
  refine ⟨t, hStart.trans hUp.run, hUp.on, hUp.slots, hUp.used, hUp.free, ?_, ?_⟩
  · rw [hUp.gen]
    decide
  · exact ⟨_, hUp.sealed _ List.mem_cons_self, rfl, rfl⟩

/-
  The put after 2^64 - 1 seals is given generation 0: it
  returns a slot that looks free, and the count of slots in
  use is wrong. The next seal repeats a nonce.
-/
theorem swap_generation_repeats :
    ∃ s, SwapRun (Swap.boot fun _ => []) s ∧ s.used = 1 ∧ s.inUse.card = 0 ∧
        lastPut 0 s.calls = some [6] ∧ freesSince 0 s.calls = 0 ∧
        ∃ e ∈ s.sealed, ∃ e' ∈ s.sealed, e.nonce = e'.nonce ∧ e.plain ≠ e'.plain := by
  obtain ⟨t, hRun, hOn, hSlots, hUsed, hFind, hGen, e, hMem,
    hPlain, hNonce⟩ := exists_last_generation
  have hPut : t.apply (.put [6] ⟨some ([], []), true⟩) = t.putDone 0 [6] [] [] := by
    simp [apply, swapPut, hOn, hFind, sealAndWrite, sealing, putDone]
  have hZero : t.issue.gen = 0 := by
    change (t.gen + 1) % 2 ^ 64 = 0
    rw [hGen]
    decide
  have hAt : ((t.putDone 0 [6] [] []).slot 0).gen = 0 := by
    exact hZero
  have hAgain : (t.putDone 0 [6] [] []).freeSlot = some 0 := by
    have hOne : (t.putDone 0 [6] [] []).slots = 1 := hSlots
    simp [freeSlot, hOne, hAt, Nat.mod_one]
  have hLast : (t.putDone 0 [6] [] []).apply (failedPut [9]) =
        (t.putDone 0 [6] [] []).sealing 0 [9] [] [] :=
    apply_failedPut (s := t.putDone 0 [6] [] []) hOn hAgain [9]
  have hEnd : SwapRun (Swap.boot fun _ => []) ((t.putDone 0 [6] [] []).sealing 0 [9] [] []) := by
    rw [← hLast, ← hPut]
    exact (hRun.snoc _ trivial).snoc _ trivial
  refine ⟨_, hEnd, ?_, ?_, ?_, ?_, e, ?_, _, List.mem_cons_self, ?_, ?_⟩
  · change (t.used + 1) % 2 ^ 64 = 1
    rw [hUsed]
    decide
  · change (slotsInUse t.slots (t.putDone 0 [6] [] []).slot).card = 0
    rw [hSlots]
    simp [slotsInUse, Finset.filter_eq_empty_iff, hAt]
  · rfl
  · rfl
  · exact List.mem_cons_of_mem _ (List.mem_cons_of_mem _ hMem)
  · have hOne : (t.putDone 0 [6] [] []).issue.gen = 1 := by
      change (t.issue.gen + 1) % 2 ^ 64 = 1
      rw [hZero]
      decide
    change e.nonce = (sealParams 0 (t.putDone 0 [6] [] []).issue.gen).1
    rw [hOne, hNonce]
  · rw [hPlain]
    change [5] ≠ [9]
    decide

end Horus.Paging
