import Horus.Storage.Merkle

/-
  The cache of tree nodes, line by line.

  The places of a volume's tree; what the line for a node can
  be; and the order of the cache, in which a walk never gives
  up a line of its own path: the lines that are older than the
  walk go first, and a path is shorter than the cache.
-/

namespace Horus.Storage

open Merkle
open Function
open Lib

----
-- Layout
----

theorem layoutFrom_spec {room n : Nat} {counts : List Nat}
    (hLaid : layoutFrom room n = some counts) : counts.length ≤ room ∧ counts.head? = some n ∧
      counts.getLast? = some 1 ∧ ∀ l k, k < counts.getD l 0 → l + 1 < counts.length →
        k / merkleFanout < counts.getD (l + 1) 0 := by
  induction room generalizing n counts with
  | zero => cases hLaid
  | succ _ ih =>
  rw [layoutFrom] at hLaid
  split at hLaid
  · rename_i hOne
    cases hLaid
    refine ⟨by simp, by simp [hOne], rfl, ?_⟩
    intro l k _ hMore
    simp at hMore
  rw [Option.map_eq_some_iff] at hLaid
  rcases hLaid with ⟨rest, hRest, rfl⟩
  rcases ih hRest with ⟨hLength, hHead, hLast, hStep⟩
  refine ⟨by simpa using hLength, rfl, ?_, ?_⟩
  · cases rest with
    | nil => cases hHead
    | cons => exact hLast
  intro l k hPlace hMore
  cases l with
  | zero =>
    cases rest with
    | nil => cases hHead
    | cons =>
    cases hHead
    simp only [List.getD_cons_zero, List.getD_cons_succ] at hPlace ⊢
    have hPos : 0 < merkleFanout := by decide
    rw [Nat.div_lt_iff_lt_mul hPos]
    have hCeil := Nat.lt_div_mul_add (a := n + merkleFanout - 1) hPos
    omega
  | succ l =>
    simp only [List.getD_cons_succ, List.length_cons] at hPlace hMore ⊢
    exact hStep l k hPlace (by omega)

namespace MerkleTree

variable (g : MerkleTree)

theorem laidFrom :
    layoutFrom merkleMaxLevels ((g.leaves + merkleFanout - 1) / merkleFanout) = some g.counts := by
  have hLaid := g.laid
  unfold merkleLayout at hLaid
  split at hLaid
  · cases hLaid
  · exact hLaid

theorem levels_pos : 0 < g.levels := by
  rcases layoutFrom_spec g.laidFrom with ⟨_, hHead, _⟩
  unfold levels
  cases hCounts : g.counts with
  | nil =>
    rw [hCounts] at hHead
    cases hHead
  | cons => exact Nat.succ_pos _

theorem levels_le : g.levels ≤ merkleMaxLevels := (layoutFrom_spec g.laidFrom).1

theorem parent_lt {l k : Nat} (hPlace : k < g.width l)
    (hLevel : l < g.levels) : k / merkleFanout < g.width (l + 1) := by
  rcases layoutFrom_spec g.laidFrom with ⟨_, hHead, _, hStep⟩
  cases l with
  | zero =>
    simp only [width] at hPlace ⊢
    have hFirst : g.counts.getD 0 0 = (g.leaves + merkleFanout - 1) / merkleFanout := by
      cases hCounts : g.counts with rw [hCounts] at hHead
      | nil => cases hHead
      | cons =>
        cases hHead
        rfl
    have hPos : 0 < merkleFanout := by decide
    rw [hFirst, Nat.div_lt_iff_lt_mul hPos]
    have hCeil := Nat.lt_div_mul_add (a := g.leaves + merkleFanout - 1) hPos
    omega
  | succ l => exact hStep l k hPlace hLevel

theorem ancestor_lt {l k : Nat} (hPlace : k < g.width l) (n : Nat) (hLevel : l + n ≤ g.levels) :
    k / merkleFanout ^ n < g.width (l + n) := by
  induction n with
  | zero => simpa using hPlace
  | succ n ih =>
    have hBelow := ih (by omega)
    rw [Nat.pow_succ, ← Nat.div_div_eq_div_mul]
    exact g.parent_lt hBelow hLevel

theorem width_top : g.width g.levels = 1 := by
  rcases layoutFrom_spec g.laidFrom with ⟨_, _, hLast, _⟩
  have hPos := g.levels_pos
  obtain ⟨top, hTop⟩ : ∃ top, g.levels = top + 1 := ⟨g.levels - 1, by omega⟩
  rw [hTop, width]
  unfold levels at hTop
  rw [List.getLast?_eq_getElem?, hTop, Nat.add_sub_cancel] at hLast
  rw [List.getD_eq_getElem?_getD, hLast]
  rfl

/- The place at the top is the first. -/
theorem ancestor_top {l k : Nat} (hPlace : k < g.width l) (n : Nat)
    (hLevel : l + n = g.levels) : k / merkleFanout ^ n = 0 := by
  have hLess := g.ancestor_lt hPlace n (by omega)
  rw [hLevel, g.width_top] at hLess
  exact Nat.lt_one_iff.mp hLess

end MerkleTree

----
-- Lines
----

section Fresh

variable {H B D : Type} {dev : MerkleDevice H D} {h : TreeHash merkleFanout H B} {g : MerkleTree}

variable {s s' t u : Merkle H D} {new : MerkleLine H} {i j k l m v line level index c low n : Nat}

/- Line `i` holds the node. -/
def Merkle.At (s : Merkle H D) (i level index : Nat) : Prop :=
  i < merkleCacheLines ∧ (s.lines i).index = some index ∧ (s.lines i).level = level

theorem Merkle.find_some (hFound : s.find level index = some i) : s.At i level index := by
  have hFirst := firstIndex_some hFound
  simp only [Bool.and_eq_true, beq_iff_eq] at hFirst
  exact ⟨hFirst.2, hFirst.1⟩

theorem Merkle.find_none (hFound : s.find level index = none) (i : Nat) : ¬ s.At i level index := by
  rintro ⟨hBound, hIndex, hLevel⟩
  unfold find firstIndex at hFound
  rw [List.find?_eq_none] at hFound
  apply hFound i (List.mem_range.mpr hBound)
  simp [hIndex, hLevel]

/- The line that is given up is free, or the oldest. -/
theorem merkleVictim_some (hVictim : merkleVictim dev s = (some v, s')) :
    v < merkleCacheLines ∧ s'.clock = s.clock ∧ s'.root = s.root ∧
      (∀ j, j ≠ v → s'.lines j = s.lines j) ∧ ((s.lines v).index = none ∨ ∀ j < merkleCacheLines,
          (s.lines v).stamp ≤ (s.lines j).stamp) := by
  unfold merkleVictim at hVictim
  split at hVictim
  · rename_i i hFree
    cases hVictim
    have hFirst := firstIndex_some hFree
    exact ⟨hFirst.2, rfl, rfl, fun _ _ => rfl, .inl (Option.isNone_iff_eq_none.mp hFirst.1)⟩
  dsimp only at hVictim
  have hBound : oldest (fun i => (s.lines i).stamp) merkleCacheLines < merkleCacheLines :=
    oldest_lt _ (by decide)
  have hLeast : ∀ j < merkleCacheLines, (s.lines (oldest (fun i => (s.lines i).stamp)
        merkleCacheLines)).stamp ≤ (s.lines j).stamp :=
    fun j hJ => oldest_le (fun i => (s.lines i).stamp) hJ
  split at hVictim
  · split at hVictim
    · rename_i hFlushed
      cases hVictim
      unfold merkleFlushLine at hFlushed ⊢
      split
      · exact ⟨hBound, rfl, rfl, fun _ _ => rfl, .inr hLeast⟩
      dsimp only at hFlushed ⊢
      split
      · exact ⟨hBound, rfl, rfl,
          fun j hJ => update_of_ne hJ _ _,
          .inr hLeast⟩
      · exact ⟨hBound, rfl, rfl, fun _ _ => rfl, .inr hLeast⟩
    · cases hVictim
  · cases hVictim
    exact ⟨hBound, rfl, rfl, fun _ _ => rfl, .inr hLeast⟩

theorem merkleVictim_none (hVictim : merkleVictim dev s = (none, s')) :
    s'.lines = s.lines ∧ s'.clock = s.clock ∧ s'.root = s.root := by
  unfold merkleVictim at hVictim
  split at hVictim
  · cases hVictim
  dsimp only at hVictim
  split at hVictim
  · split at hVictim
    · cases hVictim
    rename_i hFailed
    cases hVictim
    unfold merkleFlushLine at hFailed ⊢
    split
    · exact ⟨rfl, rfl, rfl⟩
    rename_i index hIndex
    rw [hIndex] at hFailed
    dsimp only at hFailed
    split at hFailed
    · exact absurd rfl hFailed
    · rename_i hWrite
      rw [if_neg hWrite]
      exact ⟨rfl, rfl, rfl⟩
  · cases hVictim

/-
  The line for a node has it, with the newest stamp. Either it
  was there already, or it was read into a line that was free
  or the oldest.
-/
structure Merkle.Fetched (s s' : Merkle H D) (level index i : Nat) : Prop where
  at_ : s'.At i level index
  stamp : (s'.lines i).stamp = s'.clock
  clock : s'.clock = s.tick
  root : s'.root = s.root
  rest : ∀ j, j ≠ i → s'.lines j = s.lines j
  came : (s.At i level index ∧ (s'.lines i).img = (s.lines i).img ∧
      (s'.lines i).verified = (s.lines i).verified) ∨
    ((∀ j, ¬ s.At j level index) ∧ (s'.lines i).verified = false ∧
      ((s.lines i).index = none ∨ ∀ j < merkleCacheLines, (s.lines i).stamp ≤ (s.lines j).stamp))

theorem merkleLineFor_some
    (hLine : merkleLineFor dev s level index = (some i, s')) : s.Fetched s' level index i := by
  unfold merkleLineFor at hLine
  split at hLine
  · rename_i j hFound
    cases hLine
    have hAt := find_some hFound
    exact
      { at_ := by
          refine ⟨hAt.1, ?_, ?_⟩
          · simpa [touch, setLine] using hAt.2.1
          · simpa [touch, setLine] using hAt.2.2
        stamp := by simp [touch, setLine]
        clock := rfl
        root := rfl
        rest := fun j hJ => update_of_ne hJ _ _
        came := by
          refine .inl ⟨hAt, ?_, ?_⟩ <;> simp [touch, setLine] }
  · rename_i hMissing
    split at hLine
    · cases hLine
    rename_i v t hVictim
    rcases merkleVictim_some hVictim with ⟨hBound, hClock, hRoot, hRest, hOld⟩
    unfold merkleLoad at hLine
    dsimp only at hLine
    split at hLine
    · cases hLine
    cases hLine
    exact
      { at_ := by
          refine ⟨hBound, ?_, ?_⟩ <;> simp [setLine]
        stamp := by simp [setLine]
        clock := by simp [tick, hClock]
        root := hRoot
        rest := by
          intro j hJ
          simp only [setLine]
          rw [update_of_ne hJ]
          exact hRest j hJ
        came := by
          refine .inr ⟨find_none hMissing, ?_, hOld⟩
          simp [setLine] }

/- A line is lost at most. -/
theorem merkleLineFor_none (hLine : merkleLineFor dev s level index = (none, s')) :
    s'.root = s.root ∧ ((s'.lines = s.lines ∧ s'.clock = s.clock) ∨
        (s'.clock = s.tick ∧ ∃ v, (s'.lines v).index = none ∧ (s'.lines v).stamp = s'.clock ∧
            ∀ j, j ≠ v → s'.lines j = s.lines j)) := by
  unfold merkleLineFor at hLine
  split at hLine
  · cases hLine
  split at hLine
  · rename_i t hVictim
    cases hLine
    rcases merkleVictim_none hVictim with ⟨hLines, hClock, hRoot⟩
    exact ⟨hRoot, .inl ⟨hLines, hClock⟩⟩
  rename_i v t hVictim
  rcases merkleVictim_some hVictim with ⟨_, hClock, hRoot, hRest, _⟩
  unfold merkleLoad at hLine
  dsimp only at hLine
  split at hLine
  · cases hLine
    refine ⟨hRoot, .inr ⟨by simp [tick, hClock], v, by simp [setLine], by simp [setLine], ?_⟩⟩
    intro j hJ
    simp only [setLine]
    rw [update_of_ne hJ]
    exact hRest j hJ
  · cases hLine

----
-- The Invariant
----

/- The nodes that the recorded leaves decide. -/
abbrev truth (h : TreeHash merkleFanout H B) (g : MerkleTree)
    (recorded : Nat → B) : Nat → Nat → MerkleNode H :=
  h.nodeAt g.width recorded

/- The cache in order: stamps, and no node twice. -/
structure MerkleTidy (g : MerkleTree) (s : Merkle H D) : Prop where
  stamps : ∀ i < merkleCacheLines, (s.lines i).stamp ≤ s.clock
  once : ∀ i j level index, s.At i level index → s.At j level index → i = j
  inside : ∀ i level index, s.At i level index → level < g.levels

/- Each verified line holds the node of its place. -/
def Trusts (s : Merkle H D) (nodes : Nat → Nat → MerkleNode H) : Prop :=
  ∀ i level index, s.At i level index → (s.lines i).verified = true →
      (s.lines i).img = nodes level index

structure MerkleSound (h : TreeHash merkleFanout H B) (g : MerkleTree) (recorded : Nat → B)
    (s : Merkle H D) : Prop where
  tidy : MerkleTidy g s
  trusted : Trusts s (truth h g recorded)
  root : s.root = h.root (truth h g recorded (g.levels - 1) 0)

theorem Merkle.At.congr (hLine : s'.lines i = s.lines i) :
    s'.At i level index ↔ s.At i level index := by
  unfold At
  rw [hLine]

theorem Merkle.At.unique {level' index' : Nat}
    (hAt : s.At i level index) (hAt' : s.At i level' index') : level = level' ∧ index = index' :=
  ⟨hAt.2.2.symm.trans hAt'.2.2, Option.some.inj (hAt.2.1.symm.trans hAt'.2.1)⟩

/- Every node stays in its line. -/
theorem MerkleTidy.of_at (hTidy : MerkleTidy g s)
    (hAt : ∀ i level index, s'.At i level index → s.At i level index)
    (hStamps : ∀ i < merkleCacheLines, (s'.lines i).stamp ≤ s'.clock) : MerkleTidy g s' where
  stamps := hStamps
  once := fun i j level index hI hJ =>
    hTidy.once i j level index (hAt i level index hI) (hAt j level index hJ)
  inside := fun i level index hI => hTidy.inside i level index (hAt i level index hI)

/- A line changes, and keeps its node and its stamp. -/
structure Rewritten (s s' : Merkle H D) (line : Nat) (new : MerkleLine H) : Prop where
  here : s'.lines line = new
  rest : ∀ j, j ≠ line → s'.lines j = s.lines j
  at_iff : ∀ j level index, s'.At j level index ↔ s.At j level index
  stamp : ∀ j, (s'.lines j).stamp = (s.lines j).stamp
  clock : s'.clock = s.clock
  root : s'.root = s.root

theorem rewritten_setLine
    (hWritten : s' = s.setLine line new) (hIndex : new.index = (s.lines line).index)
    (hLevel : new.level = (s.lines line).level) (hStamp : new.stamp = (s.lines line).stamp) :
    Rewritten s s' line new := by
  subst hWritten
  have hLine : (s.setLine line new).lines line = new := update_self _ _ _
  have hRest : ∀ j, j ≠ line → (s.setLine line new).lines j = s.lines j :=
    fun j hNe => update_of_ne hNe _ _
  refine ⟨hLine, hRest, ?_, ?_, rfl, rfl⟩
  · intro j level index
    by_cases hNe : j = line
    · unfold At
      rw [hNe, hLine, hIndex, hLevel]
    · exact At.congr (hRest j hNe)
  · intro j
    by_cases hNe : j = line
    · rw [hNe, hLine, hStamp]
    · rw [hRest j hNe]

theorem Rewritten.tidy
    (hRewritten : Rewritten s s' line new) (hTidy : MerkleTidy g s) : MerkleTidy g s' := by
  apply hTidy.of_at fun j level index => (hRewritten.at_iff j level index).mp
  intro j hBound
  rw [hRewritten.stamp, hRewritten.clock]
  exact hTidy.stamps j hBound

/- A change to one line that is kept tidy. -/
theorem MerkleTidy.setLine (hTidy : MerkleTidy g s) (hRest : ∀ j, j ≠ v → s'.lines j = s.lines j)
    (hClock : s.clock ≤ s'.clock) (hStamp : (s'.lines v).stamp ≤ s'.clock)
    (hInside : ∀ level index, s'.At v level index → level < g.levels)
    (hOnce : ∀ j level index, s'.At v level index → j ≠ v → ¬ s.At j level index) :
    MerkleTidy g s' where
  stamps := by
    intro i hBound
    by_cases hEq : i = v
    · rw [hEq]
      exact hStamp
    · rw [hRest i hEq]
      exact (hTidy.stamps i hBound).trans hClock
  once := by
    intro i j level index hI hJ
    by_cases hIv : i = v
    · by_cases hJv : j = v
      · rw [hIv, hJv]
      · subst hIv
        rw [At.congr (hRest j hJv)] at hJ
        exact absurd hJ (hOnce j level index hI hJv)
    · rw [At.congr (hRest i hIv)] at hI
      rcases eq_or_ne j v with rfl | hJv
      · exact absurd hI (hOnce i level index hJ hIv)
      · rw [At.congr (hRest j hJv)] at hJ
        exact hTidy.once i j level index hI hJ
  inside := by
    intro i level index hI
    rcases eq_or_ne i v with rfl | hIv
    · exact hInside level index hI
    · rw [At.congr (hRest i hIv)] at hI
      exact hTidy.inside i level index hI

theorem MerkleTidy.fetched (hTidy : MerkleTidy g s) (hFetched : s.Fetched s' level index i)
    (hWrap : s.clock + 1 < 2 ^ 32) (hLevel : level < g.levels) :
    MerkleTidy g s' ∧ s'.clock = s.clock + 1 := by
  have hClock : s'.clock = s.clock + 1 := by
    rw [hFetched.clock]
    exact Nat.mod_eq_of_lt hWrap
  refine ⟨?_, hClock⟩
  apply hTidy.setLine hFetched.rest (by omega)
  · rw [hFetched.stamp]
  · intro level' index' hAt
    rw [← (hFetched.at_.unique hAt).1]
    exact hLevel
  · intro j level' index' hAt hNe hOther
    rcases hFetched.at_.unique hAt with ⟨rfl, rfl⟩
    rcases hFetched.came with ⟨hWas, _⟩ | ⟨hMissing, _⟩
    · exact hNe (hTidy.once j i _ _ hOther hWas)
    · exact hMissing j hOther

theorem Trusts.fetched {nodes : Nat → Nat → MerkleNode H} (hTrusts : Trusts s nodes)
    (hFetched : s.Fetched s' level index i) : Trusts s' nodes := by
  intro j level' index' hAt hVerified
  rcases eq_or_ne j i with rfl | hEq
  · rcases hFetched.at_.unique hAt with ⟨rfl, rfl⟩
    rcases hFetched.came with ⟨hWas, hImg, hSame⟩ | ⟨_, hUnverified, _⟩
    · rw [hImg]
      rw [hSame] at hVerified
      exact hTrusts j _ _ hWas hVerified
    · rw [hUnverified] at hVerified
      cases hVerified
  · have hLine := hFetched.rest j hEq
    rw [At.congr hLine] at hAt
    rw [hLine] at hVerified ⊢
    exact hTrusts j _ _ hAt hVerified

variable {recorded : Nat → B}

theorem MerkleSound.missed (hSound : MerkleSound h g recorded s)
    (hLine : merkleLineFor dev s level index = (none, s')) (hWrap : s.clock + 1 < 2 ^ 32) :
    MerkleSound h g recorded s' ∧ s'.clock ≤ s.clock + 1 := by
  rcases merkleLineFor_none hLine with ⟨hRoot, hCases⟩
  rcases hCases with ⟨hLines, hClock⟩ | ⟨hClock, v, hNone, hStamp, hRest⟩
  · have hAt : ∀ i level index, s'.At i level index → s.At i level index :=
      fun i _ _ => (At.congr (congrFun hLines i)).mp
    refine ⟨⟨hSound.tidy.of_at hAt ?_, ?_, hRoot.trans hSound.root⟩, by omega⟩
    · rw [hLines, hClock]
      exact hSound.tidy.stamps
    · intro i level index hI
      rw [hLines]
      exact hSound.trusted i level index (hAt i level index hI)
  · have hTick : s'.clock = s.clock + 1 := by
      rw [hClock]
      exact Nat.mod_eq_of_lt hWrap
    have hGone : ∀ level index, ¬ s'.At v level index := by
      rintro level index ⟨_, hSome, _⟩
      rw [hNone] at hSome
      cases hSome
    refine ⟨⟨?_, ?_, hRoot.trans hSound.root⟩, by omega⟩
    · apply hSound.tidy.setLine hRest (by omega)
      · rw [hStamp]
      · intro level index hAt
        exact absurd hAt (hGone level index)
      · intro j level index hAt
        exact absurd hAt (hGone level index)
    · intro j level index hAt hVerified
      have hNe : j ≠ v := by
        rintro rfl
        exact hGone level index hAt
      rw [At.congr (hRest j hNe)] at hAt
      rw [hRest j hNe] at hVerified ⊢
      exact hSound.trusted j level index hAt hVerified

----
-- Walks
----

/- The place of the node above a leaf. -/
def above (i l : Nat) : Nat := i / merkleFanout ^ (l + 1)

theorem above_div (i l n : Nat) : above i l / merkleFanout ^ n = above i (l + n) := by
  unfold above
  rw [Nat.div_div_eq_div_mul, ← Nat.pow_add]
  congr 2
  omega

theorem above_succ (i l : Nat) : above i l / merkleFanout = above i (l + 1) := by
  have hStep := above_div i l 1
  rwa [Nat.pow_one] at hStep

theorem MerkleTree.above_lt (g : MerkleTree)
    (hLeaf : i < g.leaves) (hLevel : l < g.levels) : above i l < g.width (l + 1) := by
  have hLess := g.ancestor_lt (l := 0) hLeaf (l + 1) (by omega)
  rwa [Nat.zero_add] at hLess

/-
  The nodes above leaf `i` from level `low` on are verified
  since the clock was `c`, and no others were used since.
-/
structure Walked (g : MerkleTree) (c i low : Nat) (s : Merkle H D) : Prop where
  here : ∀ l, low ≤ l → l < g.levels → ∃ j, s.At j l (above i l) ∧ (s.lines j).verified = true ∧
      c < (s.lines j).stamp
  only : ∀ j < merkleCacheLines, c < (s.lines j).stamp → ∃ l, low ≤ l ∧ s.At j l (above i l)

/- Before the walk nothing was used. -/
theorem MerkleTidy.walked (hTidy : MerkleTidy g s)
    (i : Nat) (hTop : g.levels ≤ low) : Walked g s.clock i low s := by
  constructor
  · omega
  · intro j hBound hRecent
    have hStamp := hTidy.stamps j hBound
    omega

/- A path is shorter than the cache. -/
theorem MerkleTidy.exists_off (hTidy : MerkleTidy g s)
    (i : Nat) : ∃ j < merkleCacheLines, ∀ l, ¬ s.At j l (above i l) := by
  by_contra hAll
  push Not at hAll
  have hInto : ∀ j ∈ Finset.range merkleCacheLines, (s.lines j).level ∈ Finset.range g.levels := by
    intro j hJ
    rcases hAll j (Finset.mem_range.mp hJ) with ⟨l, hAt⟩
    rw [hAt.2.2]
    exact Finset.mem_range.mpr (hTidy.inside j l _ hAt)
  have hInjective : Set.InjOn (fun j => (s.lines j).level)
      (Finset.range merkleCacheLines : Set Nat) := by
    intro j hJ k hK hSame
    simp only [Finset.coe_range, Set.mem_Iio] at hJ hK
    rcases hAll j hJ with ⟨l, hAtJ⟩
    rcases hAll k hK with ⟨m, hAtK⟩
    have hLevel : l = m := by
      rw [← hAtJ.2.2, ← hAtK.2.2]
      exact hSame
    rw [← hLevel] at hAtK
    exact hTidy.once j k l _ hAtJ hAtK
  have hCard := Finset.card_le_card_of_injOn _ hInto hInjective
  rw [Finset.card_range, Finset.card_range] at hCard
  have hLevels := g.levels_le
  have hRoom : merkleMaxLevels < merkleCacheLines := by decide
  omega

/- A walk does not evict its own path. -/
theorem Walked.keeps (hWalked : Walked g c i low s) (hTidy : MerkleTidy g s)
    (hFetched : s.Fetched s' l index line) (hBelow : l < low) (hMember : low ≤ m)
    (hAt : s.At j m (above i m)) (hRecent : c < (s.lines j).stamp) : j ≠ line := by
  rintro rfl
  rcases hFetched.came with ⟨hWas, _⟩ | ⟨_, _, hFree | hOldest⟩
  · have hLevel := (hWas.unique hAt).1
    omega
  · rw [hAt.2.1] at hFree
    cases hFree
  rcases hTidy.exists_off i with ⟨k, hBound, hOff⟩
  have hOlder := hOldest k hBound
  rcases hWalked.only k hBound (by omega) with ⟨o, _, hOn⟩
  exact hOff o hOn

/- The node that is fetched next joins the path. -/
theorem Walked.extend (hWalked : Walked g c i (l + 1) s) (hTidy : MerkleTidy g s)
    (hFetched : s.Fetched s' l (above i l) line) (hNow : c < s'.clock)
    (hMarked : s'' = s'.setLine line { s'.lines line with verified := true }) :
    Walked g c i l s'' := by
  have hRewritten := rewritten_setLine hMarked rfl rfl rfl
  have hRest : ∀ j, j ≠ line → s''.lines j = s.lines j :=
    fun j hNe => (hRewritten.rest j hNe).trans (hFetched.rest j hNe)
  have hAt : s''.At line l (above i l) := (hRewritten.at_iff line l _).mpr hFetched.at_
  constructor
  · intro m hLow hLevel
    rcases eq_or_ne m l with rfl | hEq
    · refine ⟨line, hAt, by rw [hRewritten.here], ?_⟩
      rw [hRewritten.stamp, hFetched.stamp]
      exact hNow
    rcases hWalked.here m (by omega) hLevel with ⟨j, hJ, hVerified, hRecent⟩
    have hNe := hWalked.keeps hTidy hFetched (by omega) (by omega) hJ hRecent
    refine ⟨j, (At.congr (hRest j hNe)).mpr hJ, ?_, ?_⟩
    · rw [hRest j hNe]
      exact hVerified
    · rw [hRest j hNe]
      exact hRecent
  · intro j hBound hRecent
    by_cases hNe : j = line
    · rw [hNe]
      exact ⟨l, Nat.le_refl l, hAt⟩
    · rw [hRest j hNe] at hRecent
      rcases hWalked.only j hBound hRecent with ⟨m, hLow, hJ⟩
      exact ⟨m, by omega, (At.congr (hRest j hNe)).mpr hJ⟩

theorem MerkleSound.fetched (hSound : MerkleSound h g recorded s)
    (hFetched : s.Fetched t l index line) (hWrap : s.clock + 1 < 2 ^ 32) (hLevel : l < g.levels) :
    MerkleSound h g recorded t ∧ t.clock = s.clock + 1 := by
  rcases hSound.tidy.fetched hFetched hWrap hLevel with ⟨hTidy, hClock⟩
  exact ⟨⟨hTidy, hSound.trusted.fetched hFetched, hFetched.root.trans hSound.root⟩, hClock⟩

/- Marking a line as verified, when it holds its node. -/
theorem MerkleSound.mark (hSound : MerkleSound h g recorded s) (hAt : s.At line l index)
    (hImg : (s.lines line).img = truth h g recorded l index)
    (hMarked : s' = s.setLine line { s.lines line with verified := true }) :
    MerkleSound h g recorded s' := by
  have hRewritten := rewritten_setLine hMarked rfl rfl rfl
  refine ⟨hRewritten.tidy hSound.tidy, ?_, hRewritten.root.trans hSound.root⟩
  intro j m k hOther hVerified
  rw [hRewritten.at_iff] at hOther
  rcases eq_or_ne j line with rfl | hNe
  · rcases hAt.unique hOther with ⟨rfl, rfl⟩
    rw [hRewritten.here]
    exact hImg
  · rw [hRewritten.rest j hNe] at hVerified ⊢
    exact hSound.trusted j m k hOther hVerified

----
-- Stamps
----

theorem Merkle.touch_mark (hVerified : (s.lines j).verified = true) :
    ((s.touch j).lines j).verified = true ∧ (s.touch j).setLine j
        { (s.touch j).lines j with verified := true } = s.touch j := by
  have hTouched : ((s.touch j).lines j).verified = true := by
    simpa [touch, setLine] using hVerified
  rw [← hTouched]
  simp [setLine]

/- The path of a leaf, all in the cache. -/
def Resident (g : MerkleTree) (i : Nat) (s : Merkle H D) : Prop :=
  ∀ l < g.levels, ∃ j, s.At j l (above i l) ∧ (s.lines j).verified = true

/- Only stamps are different. -/
structure Restamped (s s' : Merkle H D) : Prop where
  root : s'.root = s.root
  lines : ∀ j, s'.lines j = { s.lines j with stamp := (s'.lines j).stamp }

theorem MerkleTidy.find_eq (hTidy : MerkleTidy g s) (hAt : s.At j l k) : s.find l k = some j := by
  cases hFound : s.find l k with
  | none => exact absurd hAt (find_none hFound j)
  | some o => rw [hTidy.once o j l k (find_some hFound) hAt]

theorem Restamped.touch (s : Merkle H D) (j : Nat) : Restamped s (s.touch j) := by
  refine ⟨rfl, ?_⟩
  intro o
  rcases eq_or_ne o j with rfl | hEq
  · simp [Merkle.touch, Merkle.setLine]
  · simp [Merkle.touch, Merkle.setLine, hEq]

theorem Restamped.trans (hFirst : Restamped s t) (hSecond : Restamped t u) : Restamped s u := by
  refine ⟨hSecond.root.trans hFirst.root, ?_⟩
  intro j
  rw [hSecond.lines j, hFirst.lines j]

theorem Restamped.at_iff (hStamped : Restamped s t) : t.At j l k ↔ s.At j l k := by
  unfold At
  rw [hStamped.lines j]

theorem Restamped.resident (hStamped : Restamped s t)
    (hResident : Resident g i s) : Resident g i t := by
  intro l hLevel
  rcases hResident l hLevel with ⟨j, hAt, hVerified⟩
  refine ⟨j, hStamped.at_iff.mpr hAt, ?_⟩
  rw [hStamped.lines j]
  exact hVerified

theorem Restamped.trusts (hStamped : Restamped s t)
    {nodes : Nat → Nat → MerkleNode H} (hTrusts : Trusts s nodes) : Trusts t nodes := by
  intro j l k hAt hVerified
  rw [hStamped.lines j] at hVerified ⊢
  exact hTrusts j l k (hStamped.at_iff.mp hAt) hVerified

theorem MerkleTidy.touch (hTidy : MerkleTidy g s) (j : Nat)
    (hWrap : s.clock + 1 < 2 ^ 32) : MerkleTidy g (s.touch j) ∧
      (s.touch j).clock = s.clock + 1 := by
  have hClock : (s.touch j).clock = s.clock + 1 := Nat.mod_eq_of_lt hWrap
  have hStamped := Restamped.touch s j
  refine ⟨⟨?_, ?_, ?_⟩, hClock⟩
  · intro o hBound
    rcases eq_or_ne o j with rfl | hEq
    · simp [Merkle.touch, Merkle.setLine]
    have hOld := hTidy.stamps o hBound
    have hSame : (s.touch j).lines o = s.lines o := update_of_ne hEq _ _
    rw [hSame]
    omega
  · intro o p l k hO hP
    exact hTidy.once o p l k (hStamped.at_iff.mp hO) (hStamped.at_iff.mp hP)
  · intro o l k hO
    exact hTidy.inside o l k (hStamped.at_iff.mp hO)

end Fresh

end Horus.Storage
