import Horus.Capability.RevokeCorrect

/-
  `rust_cap_revoke_global` on every input.

  The marking loop ends by itself, each counter loses one for
  each of its slots that is emptied, and the tally counts the
  pipe ends that are removed, each exactly once, whether they
  are met when they are marked or when they are swept.

  Main declarations:
    * `PromoteEnds`
    * `pipeEnd`, `Told`
    * `removedRefs`, `RevokeExact`
    * `revoke_global_exact`
-/

namespace Horus

open SlotRef
open Function

----
-- The Loop Ends
----

/- The marking loop of `revoke_subtree` stops in a state. -/
inductive PromoteEnds (refs : List SlotRef) : Sweep → Sweep → Prop where
  | done {w : Sweep} (hDone : (promoteLoop refs refs w false).2 = false) :
      PromoteEnds refs w (promoteLoop refs refs w false).1
  | again {w w' : Sweep} (hMore : (promoteLoop refs refs w false).2 = true)
      (hRest : PromoteEnds refs (promoteLoop refs refs w false).1 w') :
      PromoteEnds refs w w'

variable {mem : CapMem} {refs : List SlotRef}

theorem promotePasses_ends (root : Nat)
    (hUnmarked : capMarking.Unmarked (refs.map addr) mem) (fuel : Nat) (w : Sweep)
    (hFuel : (capMarking.undone (refs.map addr) w.mem).card < fuel)
    (hSound : capMarking.Sound (refs.map addr) mem root w.mem)
    (hClosed : capMarking.Closed (refs.map addr) mem root w.mem) :
    PromoteEnds refs w (promotePasses refs fuel w) := by
  induction fuel generalizing w with
  | zero => omega
  | succ _ ih =>
  have hPass := Lib.Marking.pass_spec hUnmarked (refs.map addr)
    (fun _ hIn => hIn) w.mem false hSound hClosed
  rw [← promoteLoop_eq_pass] at hPass
  unfold promotePasses
  split
  · rename_i hMore
    have hLess := hPass.promoted hMore rfl
    dsimp only at hLess
    exact .again hMore (ih _ (by omega) hPass.sound hPass.closed)
  · rename_i hDone
    exact .done (by simpa using hDone)

theorem NoMarks.unmarked (hMarks : NoMarks mem (· ∈ refs.map addr)) :
    capMarking.Unmarked (refs.map addr) mem := by
  intro b hb
  simp [capMarking_marked, (hMarks b hb).1, (hMarks b hb).2]

/- Seeded with the children of the root, it ends. -/
theorem marking_ends {w : Sweep} (hMarks : NoMarks w.mem (· ∈ refs.map addr)) (root : Nat) :
    PromoteEnds refs (markChildrenOf refs root w)
      (promotePasses refs (refs.length + 1) (markChildrenOf refs root w)) := by
  have hStart : capMarking.Sound (refs.map addr) w.mem root w.mem := fun b => .inl rfl
  refine promotePasses_ends root hMarks.unmarked _ _ ?_ ?_ ?_
  · have hCard := Lib.Marking.undone_card_le (M := capMarking)
      (refs.map addr) (markChildrenOf refs root w).mem
    rw [List.length_map] at hCard
    omega
  · rw [markChildrenOf_mem]
    exact hStart.markKids Relation.ReflTransGen.refl
  · rw [markChildrenOf_mem]
    exact Lib.Marking.closed_markKids hMarks.unmarked

----
-- The Tally
----

/- An end of a pipe with index `i`, in one direction. -/
def pipeEnd (i : Nat) (writer : Bool) (c : Capability) : Bool :=
  decide (c.typ = .pipe) && decide (c.object % 2 ^ 32 = i) &&
    (decide (c.rights &&& Right.write ≠ 0) == writer)

namespace PipeTally

variable {t : PipeTally} {i : Nat}

theorem note_len (t : PipeTally) (c : Capability) : (t.note c).len = t.len := by
  unfold note
  dsimp only
  split_ifs <;> rfl

theorem note_count (hIndex : i < t.len / pipeTallyCells) (writer : Bool) (c : Capability) :
    (t.note c).cells (i * pipeTallyCells + writer.toNat) = if pipeEnd i writer c then
        min (t.cells (i * pipeTallyCells + writer.toNat) + 1) 0xFFFFFFFF
      else t.cells (i * pipeTallyCells + writer.toNat) := by
  have hBit : writer.toNat ≤ 1 := Bool.toNat_le writer
  unfold note pipeEnd pipeTallyCells at *
  by_cases hPipe : c.typ = .pipe
  case neg => simp [hPipe]
  by_cases hSame : c.object % 2 ^ 32 = i
  · have hRoom : ¬ t.len / 3 ≤ i := by omega
    simp only [hPipe, hSame, ne_eq, not_true_eq_false, if_false, hRoom,
      decide_true, Bool.and_self, Bool.true_and]
    cases writer <;> by_cases hWrite : c.rights &&& Right.write = 0 <;>
      simp [hWrite] <;> split_ifs <;> simp
  · simp only [hPipe, hSame, ne_eq, not_true_eq_false, if_false,
      decide_true, decide_false, Bool.and_false, Bool.false_and,
      Bool.false_eq_true]
    split_ifs <;> simp only [update_apply] <;>
      split_ifs <;> first | rfl | omega

/- Each removed end is counted once, up to the largest number. -/
theorem notes_count (hIndex : i < t.len / pipeTallyCells) (writer : Bool)
    (hCell : t.cells (i * pipeTallyCells + writer.toNat) ≤ 0xFFFFFFFF) (cs : List Capability) :
    (cs.foldl note t).cells (i * pipeTallyCells + writer.toNat) =
      min (t.cells (i * pipeTallyCells + writer.toNat) +
        cs.countP (pipeEnd i writer)) 0xFFFFFFFF := by
  induction cs generalizing t with
  | nil => simp [hCell]
  | cons c _ ih =>
    have hNote := note_count hIndex writer c
    rw [List.foldl_cons, ih (by rwa [note_len]) (by rw [hNote]; split <;> omega),
      hNote, List.countP_cons]
    split <;> omega

end PipeTally

----
-- What Was Noted
----

/-
  The tally has noted the records, as they were at entry, of
  the slots that carry a mark.
-/
def Told (mem : CapMem) (t : PipeTally) (cells : List Addr) (w : Sweep) : Prop :=
  (∀ a, capMarking.marked (w.mem a) = false → w.mem a = mem a) ∧ ∃ noted : List Addr, noted.Nodup ∧
      (∀ a, a ∈ noted ↔ a ∈ cells ∧ capMarking.marked (w.mem a) = true) ∧
      w.tally = (noted.map mem).foldl PipeTally.note t

section Told

variable {mem : CapMem} {t : PipeTally} {cells : List Addr} {w : Sweep}

theorem Told.markLoop (p : Nat) (refs : List SlotRef)
    (hRefs : ∀ ref ∈ refs, ref.addr ∈ cells) (hTold : Told mem t cells w) :
    Told mem t cells (markLoop p refs w) := by
  induction refs generalizing w with
  | nil => exact hTold
  | cons ref _ ih =>
  have hRest := fun r hIn => hRefs r (List.mem_cons_of_mem _ hIn)
  unfold Horus.markLoop
  dsimp only
  split
  · exact ih hRest hTold
  rename_i hOut
  split
  · exact ih hRest hTold
  split
  case isFalse => exact ih hRest hTold
  case isTrue =>
    refine ih hRest ?_
    have hFree : capMarking.marked (w.mem ref.addr) = false := by
      push Not at hOut
      simp [capMarking_marked, hOut.2.1, hOut.2.2]
    rcases hTold with ⟨hSame, noted, hNodup, hNoted, hTally⟩
    have hNew : ref.addr ∉ noted := by
      rw [hNoted, hFree]
      simp
    refine ⟨?_, noted ++ [ref.addr], ?_, ?_, ?_⟩
    · intro a hA
      rcases eq_or_ne a ref.addr with rfl | hEq
      · simp [capMarking_marked] at hA
      · dsimp only at hA ⊢
        rw [update_of_ne hEq] at hA ⊢
        exact hSame a hA
    · refine List.Nodup.append hNodup (List.nodup_singleton _) ?_
      simpa using hNew
    · intro a
      rw [List.mem_append, hNoted]
      rcases eq_or_ne a ref.addr with rfl | hEq
      · simp [capMarking_marked, hRefs ref List.mem_cons_self]
      · simp [hEq]
    · rw [List.map_append, List.foldl_append, ← hTally, hSame _ hFree]
      rfl

theorem Told.markChildrenOf (p : Nat)
    (hRefs : ∀ ref ∈ refs, ref.addr ∈ cells) (hTold : Told mem t cells w) :
    Told mem t cells (markChildrenOf refs p w) := by
  unfold Horus.markChildrenOf
  split
  · exact hTold
  · exact hTold.markLoop p refs hRefs

theorem Told.promoteLoop (hRefs : ∀ ref ∈ refs, ref.addr ∈ cells) (rest : List SlotRef)
    (progress : Bool) (hTold : Told mem t cells w) :
    Told mem t cells (promoteLoop refs rest w progress).1 := by
  induction rest generalizing w progress with
  | nil => exact hTold
  | cons ref _ ih =>
  unfold Horus.promoteLoop
  dsimp only
  split
  case isFalse => exact ih progress hTold
  case isTrue hNew =>
    refine ih true ?_
    -- A promotion exchanges one mark for the other.
    have hMarks : ∀ a, capMarking.marked (update w.mem ref.addr
        { w.mem ref.addr with typ := .markDone } a) = capMarking.marked (w.mem a) := by
      intro a
      rcases eq_or_ne a ref.addr with rfl | hEq
      · simp [capMarking_marked, hNew]
      · rw [update_of_ne hEq]
    have hDone : Told mem t cells
        { w with mem := update w.mem ref.addr { w.mem ref.addr with typ := .markDone } } := by
      refine ⟨?_, ?_⟩
      · intro a hA
        dsimp only at hA ⊢
        rw [hMarks] at hA
        rw [update_of_ne, hTold.1 a hA]
        rintro rfl
        simp [capMarking_marked, hNew] at hA
      · simp only [hMarks]
        exact hTold.2
    split
    · exact hDone
    · exact hDone.markChildrenOf _ hRefs

theorem Told.promotePasses (hRefs : ∀ ref ∈ refs, ref.addr ∈ cells) (fuel : Nat)
    (hTold : Told mem t cells w) : Told mem t cells (promotePasses refs fuel w) := by
  induction fuel generalizing w with
  | zero => exact hTold
  | succ _ ih =>
  have hPass := hTold.promoteLoop hRefs refs false
  unfold Horus.promotePasses
  split
  · exact ih hPass
  · exact hPass

end Told

/- The sweep notes what it meets without a mark. -/
theorem sweepLoop_tally (rs ro : Nat) (refs : List SlotRef)
    (hNodup : (refs.map addr).Nodup) (w : Sweep) : (sweepLoop rs ro refs w).tally =
      (((refs.map addr).filter fun a =>
        decide ((w.mem a).typ ≠ .null) && sweepHit rs ro (w.mem a) &&
          !capMarking.marked (w.mem a)).map w.mem).foldl PipeTally.note
            w.tally := by
  induction refs generalizing w with
  | nil => rfl
  | cons ref rest ih =>
  rw [List.map_cons, List.nodup_cons] at hNodup
  unfold sweepLoop
  dsimp only
  rw [List.map_cons, List.filter_cons]
  split
  · rename_i hNull
    rw [ih hNodup.2, if_neg (by simp [hNull])]
  rename_i hUsed
  split
  case isFalse hMiss => rw [ih hNodup.2, if_neg (by simp [hMiss])]
  case isTrue hHit =>
    rw [ih hNodup.2]
    -- The rest does not look at this slot again.
    have hRest : ∀ a ∈ rest.map addr, update w.mem ref.addr Capability.nullify a = w.mem a := by
      intro a hIn
      refine update_of_ne ?_ _ _
      rintro rfl
      exact hNodup.1 hIn
    have hFilter : ((rest.map addr).filter fun a =>
        decide ((update w.mem ref.addr Capability.nullify a).typ ≠ .null) &&
        sweepHit rs ro (update w.mem ref.addr Capability.nullify a) &&
        !capMarking.marked (update w.mem ref.addr Capability.nullify a)).map
          (update w.mem ref.addr Capability.nullify) =
        ((rest.map addr).filter fun a =>
          decide ((w.mem a).typ ≠ .null) && sweepHit rs ro (w.mem a) &&
            !capMarking.marked (w.mem a)).map w.mem := by
      rw [List.filter_congr fun a hIn => by rw [hRest a hIn]]
      refine List.map_congr_left fun a hIn => ?_
      exact hRest a (List.mem_filter.mp hIn).1
    rw [hFilter]
    by_cases hMark : capMarking.marked (w.mem ref.addr) = true
    · rw [if_neg (by simp [hMark]), PipeTally.note, if_pos]
      simp only [capMarking_marked, Bool.or_eq_true, decide_eq_true_eq] at hMark
      rcases hMark with hMark | hMark <;> simp [hMark]
    · rw [if_pos (by simp [hUsed, hHit, hMark])]
      rfl

----
-- Exactness
----

/- The target is emptied before the sweep. -/
def Sweep.nulled (w : Sweep) (target : Addr) (counter : Option Nat) : Sweep where
  mem := update w.mem target Capability.nullify
  capsInUse := decrementInUse counter w.capsInUse
  tally := w.tally.note (w.mem target)

/- The other listed slots that lose their record. -/
def removedRefs (spaces : List CSpaceDesc) (target : Addr) (before after : CapMem) : List SlotRef :=
  (slotRefs spaces).filter fun ref =>
    decide (ref.addr ≠ target) && decide ((before ref.addr).typ ≠ .null) &&
      decide ((after ref.addr).typ = .null)

/- The records that are removed, the target's first. -/
def removedCaps (spaces : List CSpaceDesc) (target : Addr)
    (before after : CapMem) : List Capability :=
  before target :: (removedRefs spaces target before after).map
    fun ref => before ref.addr

/- All that a revocation does, from what it found at entry. -/
structure RevokeExact (spaces : List CSpaceDesc) (target : Addr) (counter : Option Nat)
    (w w' : Sweep) : Prop where
  ends : (w.mem target).serial ≠ 0 → PromoteEnds (slotRefs spaces)
      (markChildrenOf (slotRefs spaces) (w.mem target).serial (w.nulled target counter))
      (promotePasses (slotRefs spaces) ((slotRefs spaces).length + 1)
        (markChildrenOf (slotRefs spaces) (w.mem target).serial (w.nulled target counter)))
  empty : ∀ a, (w'.mem a).typ = .null ↔ (w.mem a).typ = .null ∨
    Emptied w.mem (· ∈ slotAddrs spaces) target a
  kept : ∀ a, ¬ Emptied w.mem (· ∈ slotAddrs spaces) target a → w'.mem a = w.mem a
  counters : ∀ t, w'.capsInUse t = w.capsInUse t - ((if counter = some t then 1 else 0) +
      (removedRefs spaces target w.mem w'.mem).countP
        fun ref => ref.capsInUse = some t)
  pipes : ∀ i < w.tally.len / pipeTallyCells, ∀ writer,
    w'.tally.cells (i * pipeTallyCells + writer.toNat) =
      min (w.tally.cells (i * pipeTallyCells + writer.toNat) +
        (removedCaps spaces target w.mem w'.mem).countP (pipeEnd i writer)) 0xFFFFFFFF

section Exact

variable {spaces : List CSpaceDesc} {w : Sweep}

/- The slots whose records a sweep notes are those it empties. -/
theorem revokeSubtree_tally (rs ro : Nat) (hMarks : NoMarks w.mem (· ∈ slotAddrs spaces))
    (hNodup : (slotAddrs spaces).Nodup) : ∃ noted : List Addr, noted.Nodup ∧
      (∀ a, a ∈ noted ↔ a ∈ slotAddrs spaces ∧ (w.mem a).typ ≠ .null ∧
        ((revokeSubtree spaces rs ro w).mem a).typ = .null) ∧
      (revokeSubtree spaces rs ro w).tally = (noted.map w.mem).foldl PipeTally.note w.tally := by
  have hRefs : ∀ ref ∈ slotRefs spaces, ref.addr ∈ slotAddrs spaces :=
    fun ref hIn => List.mem_map_of_mem hIn
  have hClean : ∀ a ∈ slotAddrs spaces, capMarking.marked (w.mem a) = false :=
    fun a hIn => NoMarks.unmarked hMarks a hIn
  have hStart : Told w.mem w.tally (slotAddrs spaces) w := by
    refine ⟨fun _ _ => rfl, [], List.nodup_nil, ?_, rfl⟩
    intro a
    constructor
    · nofun
    · rintro ⟨hIn, hMark⟩
      rw [hClean a hIn] at hMark
      cases hMark
  unfold revokeSubtree
  dsimp only
  generalize hMarked : (if rs = 0 then w else
    promotePasses (slotRefs spaces) ((slotRefs spaces).length + 1)
      (markChildrenOf (slotRefs spaces) rs w)) = w₁
  have hTold : Told w.mem w.tally (slotAddrs spaces) w₁ := by
    rw [← hMarked]
    split
    · exact hStart
    · exact (hStart.markChildrenOf rs hRefs).promotePasses hRefs _
  have hUsed : ∀ a ∈ slotAddrs spaces,
      capMarking.marked (w₁.mem a) = true → (w.mem a).typ ≠ .null := by
    intro a hIn hMark
    rw [← hMarked] at hMark
    split at hMark
    · rw [hClean a hIn] at hMark
      cases hMark
    by_contra hNull
    rw [(marked_mem (slotRefs spaces) rs w hMarks a).2, hClean a hIn] at hMark
    · cases hMark
    · exact fun hBelow => hBelow.2.1.1 hNull
  rcases hTold with ⟨hSame, noted, hOnce, hNoted, hTally⟩
  refine ⟨noted ++ (slotAddrs spaces).filter fun a =>
    decide ((w₁.mem a).typ ≠ .null) && sweepHit rs ro (w₁.mem a) &&
      !capMarking.marked (w₁.mem a), ?_, ?_, ?_⟩
  · refine List.Nodup.append hOnce (hNodup.filter _) ?_
    intro a hIn hIn'
    have hMark := ((hNoted a).mp hIn).2
    simp [hMark] at hIn'
  · intro a
    rw [List.mem_append, hNoted, List.mem_filter, sweepLoop_mem_apply]
    refine ⟨?_, ?_⟩
    · rintro (⟨hIn, hMark⟩ | ⟨hIn, hHit⟩)
      · refine ⟨hIn, hUsed a hIn hMark, ?_⟩
        simp only [capMarking_marked, Bool.or_eq_true, decide_eq_true_eq] at hMark
        rw [if_pos]
        · rfl
        · refine ⟨hIn, ?_, ?_⟩ <;> rcases hMark with hMark | hMark <;> simp [sweepHit, hMark]
      · simp only [Bool.and_eq_true, decide_eq_true_eq, Bool.not_eq_true'] at hHit
        rw [if_pos ⟨hIn, hHit.1⟩, ← hSame a hHit.2]
        exact ⟨hIn, hHit.1.1, rfl⟩
    · rintro ⟨hIn, hBefore, hAfter⟩
      cases hMark : capMarking.marked (w₁.mem a) with
      | true => exact .inl ⟨hIn, rfl⟩
      | false =>
      refine .inr ⟨hIn, ?_⟩
      rw [hSame a hMark] at hAfter ⊢
      split at hAfter
      · rename_i hHit
        simp [hHit.2.1, hHit.2.2]
      · exact absurd hAfter hBefore
  · rw [sweepLoop_tally rs ro _ hNodup, List.map_append, List.foldl_append]
    congr 1
    refine List.map_congr_left fun a hIn => hSame a ?_
    have hHit := (List.mem_filter.mp hIn).2
    simp only [Bool.and_eq_true, Bool.not_eq_true'] at hHit
    exact hHit.2

end Exact

/-
  Whatever the slots hold, as long as none carries a sentinel
  and none is listed twice, a revocation of an occupied slot
  that passes the checks does exactly this.
-/
theorem revoke_global_exact (space size slot : Nat) (counter : Option Nat)
    (spaces : List CSpaceDesc) (w : Sweep) (hMarks : NoMarks w.mem (· ∈ slotAddrs spaces))
    (hNodup : (slotAddrs spaces).Nodup) (hCells : ∀ k, w.tally.cells k ≤ 0xFFFFFFFF)
    (hSlot : slot < size ∧ slot < cnodeSize) (hRoot : isPrimordialRoot w.mem ⟨space, slot⟩ = false)
    (hUsed : (w.mem ⟨space, slot⟩).typ ≠ .null) :
    (rustCapRevokeGlobal space size slot counter spaces w).1 = true ∧
      RevokeExact spaces ⟨space, slot⟩ counter w
        (rustCapRevokeGlobal space size slot counter spaces w).2 := by
  have hTrue := (rustCapRevokeGlobal_fst_iff space size slot counter spaces
    w).mpr ⟨hSlot.1, hSlot.2, hRoot⟩
  have hMem := rustCapRevokeGlobal_mem space size slot counter spaces w hMarks hTrue
  have hEq : (rustCapRevokeGlobal space size slot counter spaces w).2 =
      revokeSubtree spaces (w.mem ⟨space, slot⟩).serial
        (w.mem ⟨space, slot⟩).object (w.nulled ⟨space, slot⟩ counter) := by
    unfold rustCapRevokeGlobal
    rw [if_neg (by omega), if_neg (by simp [hRoot])]
    rw [if_neg hUsed]
    rfl
  have hNulled : NoMarks (w.nulled ⟨space, slot⟩ counter).mem
      (· ∈ slotAddrs spaces) := hMarks.update_nullify _
  refine ⟨hTrue, ?_⟩
  rcases revokeSubtree_tally (w.mem ⟨space, slot⟩).serial
      (w.mem ⟨space, slot⟩).object hNulled hNodup with
    ⟨noted, hOnce, hNoted, hTally⟩
  have hCount := fun t => revokeSubtree_capsInUse spaces
    (w.mem ⟨space, slot⟩).serial (w.mem ⟨space, slot⟩).object t
    (w.nulled ⟨space, slot⟩ counter) hNulled hNodup
  rw [← hEq] at hNoted hTally hCount
  generalize (rustCapRevokeGlobal space size slot counter spaces w).2 = w'
    at hMem hNoted hTally hCount ⊢
  generalize (⟨space, slot⟩ : Addr) = target at *
  have hElse : ∀ a, ((w.nulled target counter).mem a).typ ≠ .null ↔
      a ≠ target ∧ (w.mem a).typ ≠ .null := by
    intro a
    rcases eq_or_ne a target with rfl | hA
    · simp [Sweep.nulled, Capability.nullify]
    · simp [Sweep.nulled, hA]
  have hPerm : (removedCaps spaces target w.mem w'.mem).Perm
      (w.mem target :: noted.map (w.nulled target counter).mem) := by
    refine List.Perm.cons _ ?_
    have hSlots : ((removedRefs spaces target w.mem w'.mem).map addr).Perm noted := by
      refine (List.perm_ext_iff_of_nodup ?_ hOnce).mpr ?_
      · exact (List.filter_sublist.map addr).nodup hNodup
      intro a
      rw [hNoted, hElse]
      simp only [removedRefs, List.mem_map, List.mem_filter, slotAddrs,
        Bool.and_eq_true, decide_eq_true_eq]
      constructor
      · rintro ⟨ref, ⟨hIn, hRest⟩, rfl⟩
        exact ⟨⟨ref, hIn, rfl⟩, hRest.1, hRest.2⟩
      · rintro ⟨⟨ref, hIn, rfl⟩, hRest⟩
        exact ⟨ref, ⟨hIn, hRest⟩, rfl⟩
    have hMap := hSlots.map (w.nulled target counter).mem
    rw [List.map_map] at hMap
    rw [List.map_congr_left] at hMap
    · exact hMap
    intro ref hIn
    have hRef := (List.mem_filter.mp hIn).2
    simp only [Bool.and_eq_true, decide_eq_true_eq] at hRef
    exact update_of_ne hRef.1.1 _ _
  have hFold : w'.tally = (w.mem target ::
      noted.map (w.nulled target counter).mem).foldl PipeTally.note
        w.tally := hTally
  constructor
  case ends => exact fun _ => marking_ends hNulled _
  case empty =>
    intro a
    by_cases hIn : Emptied w.mem (· ∈ slotAddrs spaces) target a
    · simp [(hMem a).1 hIn hUsed, hIn, Capability.nullify]
    · simp [(hMem a).2 hIn, hIn]
  case kept => exact fun a => (hMem a).2
  case counters =>
    intro t
    rw [hCount t, removedRefs, List.countP_filter, emptiedFor]
    have hSame : ((slotRefs spaces).countP fun ref =>
        decide (ref.capsInUse = some t) &&
          decide (((w.nulled target counter).mem ref.addr).typ ≠ .null) &&
          decide ((w'.mem ref.addr).typ = .null)) =
        (slotRefs spaces).countP fun ref =>
          decide (ref.capsInUse = some t) && (decide (ref.addr ≠ target) &&
            decide ((w.mem ref.addr).typ ≠ .null) &&
            decide ((w'.mem ref.addr).typ = .null)) := by
      refine List.countP_congr fun ref _ => ?_
      simp only [hElse, Bool.and_eq_true, decide_eq_true_eq]
      tauto
    change decrementInUse counter w.capsInUse t - _ = _
    rw [decrementInUse_apply]
    split <;> omega
  case pipes =>
    intro i hIndex writer
    rw [hFold, PipeTally.notes_count hIndex writer (hCells _), hPerm.countP_eq]

def endpointCap (object badge serial : Nat) : Capability :=
  ⟨.endpoint, Right.all, object, badge, serial, 0⟩

def readEnd (object badge serial : Nat) : Capability :=
  ⟨.pipe, Right.read, object, badge, serial, 0⟩

/- One space with these records, and room for 32 pipes. -/
def oneSpace (cs : List Capability) : Sweep where
  mem a := if a.space = 1 then cs.getD a.slot Capability.nullify
    else Capability.nullify
  capsInUse _ := cs.length
  tally := ⟨fun _ => 0, 96⟩

/- A child that is also its own parent, and a pipe end below. -/
def knot : Sweep := oneSpace [endpointCap 7 6 5, endpointCap 7 5 6, readEnd (2 ^ 32) 6 8]

theorem revoke_global_exact_knot :
    RevokeExact [⟨some 1, 3, some 4⟩] ⟨1, 0⟩ (some 4) knot
        (rustCapRevokeGlobal 1 3 0 (some 4) [⟨some 1, 3, some 4⟩] knot).2 ∧
      ((rustCapRevokeGlobal 1 3 0 (some 4) [⟨some 1, 3, some 4⟩]
        knot).2.mem ⟨1, 2⟩).typ = .null := by
  have hMarks : NoMarks knot.mem (· ∈ slotAddrs [⟨some 1, 3, some 4⟩]) := by
    unfold NoMarks
    decide
  exact ⟨(revoke_global_exact 1 3 0 (some 4) [⟨some 1, 3, some 4⟩] knot
    hMarks (by decide) (fun _ => Nat.zero_le _) (by decide) (by decide)
    (by decide)).2, by decide +kernel⟩

/-
  The target with a copy that has no serial, a record with the
  type of a mark, and ends of two pipes with one index.
-/
def offTheChain : Sweep :=
  (rustCapRevokeGlobal 1 5 0 none [⟨some 1, 5, none⟩]
    (oneSpace [endpointCap 7 0 5, endpointCap 7 5 0,
      { endpointCap 7 0 6 with typ := .markDone }, readEnd (2 ^ 32) 5 7,
      readEnd (2 * 2 ^ 32) 5 8])).2

/-
  The copy stays, the record goes, and the ends fall into one
  cell. A target without a serial takes along what names its
  object.
-/
theorem revoke_global_off_the_chain :
    offTheChain.mem ⟨1, 1⟩ = endpointCap 7 5 0 ∧ (offTheChain.mem ⟨1, 2⟩).typ = .null ∧
      offTheChain.tally.cells 0 = 2 ∧ ((rustCapRevokeGlobal 1 2 0 none [⟨some 1, 2, none⟩]
        (oneSpace [endpointCap 7 0 0, endpointCap 7 9 6])).2.mem ⟨1, 1⟩).typ = .null := by
  decide +kernel

end Horus
