import Horus.Capability.RevokeCorrect
import Horus.Lib.Contraction
import Horus.Lib.PairTable

/-
  Reparenting at task death (`rust/src/capability.rs`).

  The serials and badges of the dying space are copied to a
  scratch table, sorted and searched. A capability elsewhere
  whose parent is dying takes the first serial on its chain of
  badges that the dying space does not hold.
-/

namespace Horus

open Lib.PairTable
open Function
open Relation

/- The scratch array, as pairs of a serial and a badge. -/
abbrev Scratch := Nat → Nat × Nat

/-
  Copy the used slots of the dying space while the scratch
  array has room, and count them.
-/
def collectPairs (mem : CapMem) (dying capPairs : Nat) : List Nat → Scratch → Nat → Scratch × Nat
  | [], t, n => (t, n)
  | i :: rest, t, n =>
    if capPairs ≤ n then (t, n)
    else
      let c := mem ⟨dying, i⟩
      if c.typ = .null ∨ c.serial = 0 then collectPairs mem dying capPairs rest t n
      else collectPairs mem dying capPairs rest (update t n (c.serial, c.badge)) (n + 1)

/-
  The last loop: follow the chain of each surviving capability
  out of the dying space and store where it comes out. The
  counter is the number of capabilities moved.
-/
def reparentLoop (dying n : Nat) (find : Nat → Option Nat) :
    List SlotRef → CapMem → Nat → CapMem × Nat
  | [], mem, moved => (mem, moved)
  | ref :: rest, mem, moved =>
    if ref.addr.space = dying then reparentLoop dying n find rest mem moved
    else
      let c := mem ref.addr
      if c.typ = .null ∨ c.badge = 0 then reparentLoop dying n find rest mem moved
      else
        match find c.badge with
        | none => reparentLoop dying n find rest mem moved
        | some first =>
        let out := climb find 0 n n first 1
        if n < out.2 then reparentLoop dying n find rest mem moved
        else
          reparentLoop dying n find rest (update mem ref.addr { c with badge := out.1 }) (moved + 1)

def rustCapReparentDying (dying dyingSize : Nat) (spaces : List CSpaceDesc)
    (scratch : Scratch) (scratchLen : Nat) (mem : CapMem) : CapMem × Nat :=
  let size := min dyingSize cnodeSize
  let pairs := collectPairs mem dying (scratchLen / 2) (List.range size) scratch 0
  let n := pairs.2
  if n = 0 then (mem, 0)
  else
    let table := insertionSort n pairs.1
    reparentLoop dying n (lookup n table) (slotRefs spaces) mem 0

/- A used slot of the dying space has serial `k`, badge `k'`. -/
def DyingLink (mem : CapMem) (dying size : Nat) (k k' : Nat) : Prop :=
  ∃ i < min size cnodeSize, (mem ⟨dying, i⟩).typ ≠ .null ∧ k ≠ 0 ∧ (mem ⟨dying, i⟩).serial = k ∧
      (mem ⟨dying, i⟩).badge = k'

/- The dying space holds serial `k`. -/
def DyingKey (mem : CapMem) (dying size : Nat) (k : Nat) : Prop :=
  ∃ k', DyingLink mem dying size k k'

/-
  What reparenting relies on: the scratch array holds every
  slot, no two slots of the dying space share a serial with
  different parents, and parents are older than children.
-/
structure ReparentOk (mem : CapMem) (dying size scratchLen : Nat) : Prop where
  room : min size cnodeSize ≤ scratchLen / 2
  functional : ∀ k b b', DyingLink mem dying size k b → DyingLink mem dying size k b' → b = b'
  older : ∀ k b, DyingLink mem dying size k b → b < k

theorem collectPairs_spec (mem : CapMem) (dying capPairs : Nat) (slots : List Nat)
    (t : Scratch) (n : Nat) (hRoom : n + slots.length ≤ capPairs) :
    n ≤ (collectPairs mem dying capPairs slots t n).2 ∧
    (collectPairs mem dying capPairs slots t n).2 ≤ n + slots.length ∧
    ∀ e, Holds (collectPairs mem dying capPairs slots t n).2
        (collectPairs mem dying capPairs slots t n).1 e ↔
      Holds n t e ∨ ∃ i ∈ slots, (mem ⟨dying, i⟩).typ ≠ .null ∧ (mem ⟨dying, i⟩).serial ≠ 0 ∧
          e = ((mem ⟨dying, i⟩).serial, (mem ⟨dying, i⟩).badge) := by
  induction slots generalizing t n with
  | nil => simp [collectPairs]
  | cons i _ ih =>
  rw [List.length_cons] at hRoom ⊢
  unfold collectPairs
  rw [if_neg (by omega)]
  by_cases hSkip : (mem ⟨dying, i⟩).typ = .null ∨ (mem ⟨dying, i⟩).serial = 0
  · rw [if_pos hSkip]
    rcases ih t n (by omega) with ⟨hLow, hHigh, hHolds⟩
    refine ⟨hLow, by omega, ?_⟩
    intro e
    rw [hHolds e]
    refine or_congr_right ?_
    constructor
    · rintro ⟨j, hj, hRest⟩
      exact ⟨j, by simp [hj], hRest⟩
    rintro ⟨j, hj, hTyp, hSerial, hEq⟩
    rcases List.mem_cons.mp hj with rfl | hj
    · rcases hSkip with hSkip | hSkip
      · exact absurd hSkip hTyp
      · exact absurd hSkip hSerial
    · exact ⟨j, hj, hTyp, hSerial, hEq⟩
  · rw [if_neg hSkip]
    push Not at hSkip
    rcases ih (update t n ((mem ⟨dying, i⟩).serial, (mem ⟨dying, i⟩).badge))
        (n + 1) (by omega) with ⟨hLow, hHigh, hHolds⟩
    refine ⟨by omega, by omega, ?_⟩
    intro e
    rw [hHolds e]
    constructor
    · rintro (⟨p, hp, hEq⟩ | ⟨j, hj, hRest⟩)
      · rcases eq_or_ne p n with rfl | hpn
        · rw [update_self] at hEq
          exact .inr ⟨i, by simp, hSkip.1, hSkip.2, hEq.symm⟩
        · rw [update_of_ne hpn] at hEq
          exact .inl ⟨p, by omega, hEq⟩
      · exact .inr ⟨j, by simp [hj], hRest⟩
    · rintro (⟨p, hp, hEq⟩ | ⟨j, hj, hTyp, hS, hEq⟩)
      · refine .inl ⟨p, by omega, ?_⟩
        rw [update_of_ne (by omega), hEq]
      rcases List.mem_cons.mp hj with rfl | hj
      · refine .inl ⟨n, by omega, ?_⟩
        rw [update_self, hEq]
      · exact .inr ⟨j, hj, hTyp, hS, hEq⟩

----
-- Following a Chain Out
----

/- Where the chain from badge `b` comes out, if it is dying. -/
def newBadge (n : Nat) (find : Nat → Option Nat) (b : Nat) : Option Nat :=
  match find b with
  | none => none
  | some first =>
    let out := climb find 0 n n first 1
    if n < out.2 then none else some out.1

/- The records the last loop changes, and how. -/
def movesOn (n : Nat) (find : Nat → Option Nat) (c : Capability) : Bool :=
  decide (c.typ ≠ .null) && decide (c.badge ≠ 0) && (newBadge n find c.badge).isSome

def moveOn (n : Nat) (find : Nat → Option Nat) (c : Capability) : Capability :=
  { c with badge := (newBadge n find c.badge).getD c.badge }

/- The slots of the last loop outside the dying space. -/
def survivors (dying : Nat) (refs : List SlotRef) : List Addr :=
  (refs.map SlotRef.addr).filter fun a => a.space ≠ dying

theorem reparentLoop_mem (dying n : Nat) (find : Nat → Option Nat)
    (refs : List SlotRef) (mem : CapMem) (moved : Nat) :
    (reparentLoop dying n find refs mem moved).1 = Lib.updateWhere (movesOn n find) (moveOn n find)
        (survivors dying refs) mem := by
  induction refs generalizing mem moved with
  | nil => rfl
  | cons ref rest ih =>
  unfold reparentLoop
  by_cases hDying : ref.addr.space = dying
  · have hList : survivors dying (ref :: rest) = survivors dying rest := by
      simp [survivors, hDying]
    rw [if_pos hDying, ih, hList]
  have hList : survivors dying (ref :: rest) = ref.addr :: survivors dying rest := by
    simp [survivors, hDying]
  rw [if_neg hDying, hList, Lib.updateWhere]
  by_cases hSkip : (mem ref.addr).typ = .null ∨ (mem ref.addr).badge = 0
  · rw [if_pos hSkip, ih, if_neg]
    rcases hSkip with hSkip | hSkip <;> simp [movesOn, hSkip]
  rw [if_neg hSkip]
  push Not at hSkip
  cases hFind : find (mem ref.addr).badge with
  | none =>
    rw [ih]
    simp [movesOn, newBadge, hFind]
  | some first =>
  dsimp only
  by_cases hLong : n < (climb find 0 n n first 1).2
  · rw [if_pos hLong, ih]
    simp [movesOn, newBadge, hFind, hLong]
  · rw [if_neg hLong, ih, if_pos]
    · simp [moveOn, newBadge, hFind, hLong]
    · simp [movesOn, newBadge, hFind, hLong, hSkip.1, hSkip.2]

/- Only the surviving slots of the array matter. -/
theorem rustCapReparentDying_congr (dying size : Nat) {spaces spaces' : List CSpaceDesc}
    (scratch : Scratch) (scratchLen : Nat) (mem : CapMem)
    (hSame : survivors dying (slotRefs spaces) = survivors dying (slotRefs spaces')) :
    (rustCapReparentDying dying size spaces scratch scratchLen mem).1 =
      (rustCapReparentDying dying size spaces' scratch scratchLen mem).1 := by
  unfold rustCapReparentDying
  dsimp only
  split
  · rfl
  · rw [reparentLoop_mem, reparentLoop_mem, hSame]

section Table

variable {mem : CapMem} {dying size scratchLen : Nat} (scratch : Scratch)

/- The pairs of the dying space, as collected. -/
def dyingPairs (mem : CapMem) (dying size scratchLen : Nat) (scratch : Scratch) : Scratch × Nat :=
  collectPairs mem dying (scratchLen / 2) (List.range (min size cnodeSize)) scratch 0

/- The lookup that the last loop uses. -/
def dyingFind (mem : CapMem) (dying size scratchLen : Nat) (scratch : Scratch) : Nat → Option Nat :=
  let pairs := dyingPairs mem dying size scratchLen scratch
  lookup pairs.2 (insertionSort pairs.2 pairs.1)

/- A lookup for the links of the dying space, at most `n`. -/
structure Finds (mem : CapMem) (dying size n : Nat) (find : Nat → Option Nat) : Prop where
  link : ∀ k b, find k = some b ↔ DyingLink mem dying size k b
  few : ∃ keys : Finset Nat, keys.card ≤ n ∧ ∀ k b, DyingLink mem dying size k b → k ∈ keys

variable {n : Nat} {find : Nat → Option Nat} (hOk : ReparentOk mem dying size scratchLen)

include hOk

theorem holds_dyingPairs_iff (k b : Nat) : Holds (dyingPairs mem dying size scratchLen scratch).2
        (dyingPairs mem dying size scratchLen scratch).1
        (k, b) ↔
      DyingLink mem dying size k b := by
  have hSpec := collectPairs_spec mem dying (scratchLen / 2) (List.range (min size cnodeSize))
    scratch 0 (by simpa using hOk.room)
  unfold dyingPairs
  rw [hSpec.2.2 (k, b)]
  constructor
  · rintro (⟨p, hp, _⟩ | ⟨i, hi, hTyp, hSerial, hEq⟩)
    · omega
    · cases hEq
      exact ⟨i, List.mem_range.mp hi, hTyp, hSerial, rfl, rfl⟩
  · rintro ⟨i, hi, hTyp, hNe, rfl, rfl⟩
    exact .inr ⟨i, List.mem_range.mpr hi, hTyp, hNe, rfl⟩

theorem finds_dyingFind : Finds mem dying size (dyingPairs mem dying size scratchLen scratch).2
    (dyingFind mem dying size scratchLen scratch) := by
  have hHolds := holds_dyingPairs_iff scratch hOk
  unfold dyingFind
  generalize dyingPairs mem dying size scratchLen scratch = pairs at hHolds
  constructor
  · intro k b
    rcases insertionSort_spec pairs.2 pairs.1 with ⟨hSorted, hSame⟩
    rw [lookup_eq_some_iff hSorted, hSame, hHolds]
    intro x v v' hv hv'
    rw [hSame, hHolds] at hv hv'
    exact hOk.functional x v v' hv hv'
  · -- The serials, at most one an entry.
    refine ⟨(Finset.range pairs.2).image fun p => (pairs.1 p).1, ?_, ?_⟩
    · exact le_trans Finset.card_image_le (by simp)
    intro k b hLink
    rcases (hHolds k b).mpr hLink with ⟨p, hp, hEq⟩
    refine Finset.mem_image.mpr ⟨p, Finset.mem_range.mpr hp, ?_⟩
    rw [hEq]

omit hOk in
theorem Finds.none_iff (hFinds : Finds mem dying size n find) (k : Nat) :
    find k = none ↔ ¬ DyingKey mem dying size k := by
  rw [Option.eq_none_iff_forall_not_mem]
  simp only [Option.mem_def, hFinds.link, DyingKey, not_exists]

/-
  The climb always comes out of the dying space: the step
  bound, the number of dying capabilities, is never exceeded.
-/
theorem newBadge_eq_some (hFinds : Finds mem dying size n find)
    (b : Nat) (hKey : DyingKey mem dying size b) : ∃ top, newBadge n find b = some top ∧
      Lib.Through (DyingLink mem dying size) (DyingKey mem dying size) b top ∧
      ¬ DyingKey mem dying size top := by
  rcases hKey with ⟨first, hLink⟩
  rcases hFinds.few with ⟨keys, hCard, hKeys⟩
  have hFirst := (hFinds.link b first).mpr hLink
  have hFewer := card_keysUpTo_lt (hKeys b first hLink) (hOk.older b first hLink)
  have hSub : (keysUpTo keys b).card ≤ keys.card := Finset.card_filter_le _ _
  rcases climb_spec find 0 n keys
      (fun k k' hFind => by
        have hStep := (hFinds.link k k').mp hFind
        exact ⟨hKeys k k' hStep, hOk.older k k' hStep⟩)
      n first 1 (by omega) (by omega) with
    ⟨top, last, hClimb, hLast, hReach, hEnd⟩
  refine ⟨top, ?_, ?_, ?_⟩
  · unfold newBadge
    rw [hFirst]
    simp only [hClimb]
    rw [if_neg (by simpa using hLast)]
  · refine ReflTransGen.head ⟨⟨first, hLink⟩, hLink⟩ ?_
    refine ReflTransGen.mono ?_ _ _ hReach
    rintro k k' ⟨_, hFind⟩
    have hStep := (hFinds.link k k').mp hFind
    exact ⟨⟨k', hStep⟩, hStep⟩
  · rcases hEnd with hZero | hNone
    · subst hZero
      rintro ⟨k', i, _, _, hNe, _⟩
      exact hNe rfl
    · exact (hFinds.none_iff top).mp hNone

theorem movesOn_iff (hFinds : Finds mem dying size n find) (c : Capability) :
    movesOn n find c ↔ c.typ ≠ .null ∧ DyingKey mem dying size c.badge := by
  by_cases hKey : DyingKey mem dying size c.badge
  · rcases newBadge_eq_some hOk hFinds c.badge hKey with ⟨top, hTop, _⟩
    have hBadge : c.badge ≠ 0 := by
      rcases hKey with ⟨k', i, _, _, hNe, _⟩
      exact hNe
    simp [movesOn, hTop, hKey, hBadge]
  · simp [movesOn, newBadge, (hFinds.none_iff _).mpr hKey, hKey]

theorem rustCapReparentDying_mem (spaces : List CSpaceDesc) :
    ∃ n find, Finds mem dying size n find ∧
      (rustCapReparentDying dying size spaces scratch scratchLen mem).1 =
        Lib.updateWhere (movesOn n find) (moveOn n find) (survivors dying (slotRefs spaces)) mem := by
  have hFinds := finds_dyingFind scratch hOk
  refine ⟨_, _, hFinds, ?_⟩
  by_cases hEmpty : (dyingPairs mem dying size scratchLen scratch).2 = 0
  · -- Nothing is dying, so nothing moves.
    refine (congrArg Prod.fst (if_pos hEmpty)).trans ?_
    generalize survivors dying (slotRefs spaces) = l
    induction l with
    | nil => rfl
    | cons a l ih =>
    rw [Lib.updateWhere, if_neg, ← ih]
    intro hMoves
    rcases (movesOn_iff hOk hFinds (mem a)).mp hMoves with ⟨_, k', hLink⟩
    rcases (holds_dyingPairs_iff scratch hOk _ _).mpr hLink with ⟨p, hp, _⟩
    omega
  · refine (congrArg Prod.fst (if_neg hEmpty)).trans ?_
    exact reparentLoop_mem _ _ _ _ _ _

end Table

----
-- Correctness
----

/- The capabilities whose parent is dying. -/
def Orphan (mem : CapMem) (S : Addr → Prop) (dying size : Nat) (a : Addr) : Prop :=
  S a ∧ a.space ≠ dying ∧ (mem a).typ ≠ .null ∧ DyingKey mem dying size (mem a).badge

/-
  Reparenting rewrites the badge of the orphans and nothing
  else. The new badge is the first serial on the chain that
  the dying space does not hold.
-/
theorem rustCapReparentDying_spec (dying size : Nat) (spaces : List CSpaceDesc)
    (scratch : Scratch) (scratchLen : Nat) (mem : CapMem)
    (hOk : ReparentOk mem dying size scratchLen) (a : Addr) :
    (Orphan mem (· ∈ slotAddrs spaces) dying size a → ∃ top,
        (rustCapReparentDying dying size spaces scratch
          scratchLen mem).1 a = { mem a with badge := top } ∧
        Lib.Through (DyingLink mem dying size) (DyingKey mem dying size) (mem a).badge top ∧
        ¬ DyingKey mem dying size top) ∧
    (¬ Orphan mem (· ∈ slotAddrs spaces) dying size a →
      (rustCapReparentDying dying size spaces scratch scratchLen mem).1 a = mem a) := by
  rcases rustCapReparentDying_mem scratch hOk spaces with ⟨n, find, hFinds, hMem⟩
  rw [hMem, Lib.updateWhere_apply]
  · have hIff : (a ∈ survivors dying (slotRefs spaces) ∧ movesOn n find (mem a) = true) ↔
          Orphan mem (· ∈ slotAddrs spaces) dying size a := by
      rw [survivors, List.mem_filter, movesOn_iff hOk hFinds, and_assoc, decide_eq_true_eq]
      rfl
    constructor
    · intro hOrphan
      rcases newBadge_eq_some hOk hFinds _ hOrphan.2.2.2 with ⟨top, hTop, hPath, hOut⟩
      refine ⟨top, ?_, hPath, hOut⟩
      rw [if_pos (hIff.mpr hOrphan)]
      simp [moveOn, hTop]
    · intro hNot
      rw [if_neg (fun hIn => hNot (hIff.mp hIn))]
  · -- A capability that moved has left the dying space.
    intro c hMoves hAgain
    rcases (movesOn_iff hOk hFinds c).mp hMoves with ⟨_, hKey⟩
    rcases newBadge_eq_some hOk hFinds _ hKey with ⟨top, hTop, _, hOut⟩
    have hStill := ((movesOn_iff hOk hFinds _).mp hAgain).2
    simp only [moveOn, hTop, Option.getD_some] at hStill
    exact absurd hStill hOut

end Horus
