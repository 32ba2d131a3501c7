import Horus.Storage.MerkleCache

/-
  The tree of hashes is fresh: what it accepts for a leaf is
  what was last recorded there, whatever the device answers.

  A verified line holds the node that the recorded leaves
  decide. An update rewrites the nodes above a leaf from the
  bottom up and may stop half-way only if one of them is gone
  from the cache. Its first walk has brought all of them in
  and has not evicted any, as long as the stamps are in the
  order of the accesses: the 32-bit clock has not wrapped.

  Main declarations:
    * `MerkleSound.walk`, `merkleWalk_resident`
    * `Updating`, `MerkleSound.update`, `MerkleSound.verify`
    * `MerkleSound.mounted`
    * `FreshState`, `FreshOp`, `freshExec`, `NoWrap`
    * `Digest`, `digestHash`
    * `merkle_verify_fresh`
-/

namespace Horus.Storage

open Function
open Lib

section Fresh

variable {H B D : Type} {dev : MerkleDevice H D}
    {h : TreeHash merkleFanout H B} {g : MerkleTree} {recorded : Nat → B}

variable {l line level index top n c j : Nat} {s' s t : Merkle H D}
    {img : MerkleNode H} {parent r : Option Nat}

----
-- Updates
----

/- The nodes while a leaf is updated: new ones up to `l`. -/
def mixed (h : TreeHash merkleFanout H B) (g : MerkleTree)
    (old new : Nat → B) (l : Nat) : Nat → Nat → MerkleNode H :=
  fun m k => if m < l then truth h g new m k
    else truth h g old m k

structure Updating (h : TreeHash merkleFanout H B) (g : MerkleTree) (recorded : Nat → B) (i : Nat)
    (b : B) (l : Nat) (s : Merkle H D) : Prop where
  tidy : MerkleTidy g s
  resident : Resident g i s
  trusted : Trusts s (mixed h g recorded (update recorded i b) l)

variable {i : Nat} {b : B}

/- The node at level `l` is rewritten. -/
theorem Updating.write (hUpdating : Updating h g recorded i b l s) (hLeaf : i < g.leaves)
    (hLevel : l < g.levels) (hAt : s.At line l (above i l))
    (hNew : img = update (s.lines line).img (slot merkleFanout (i / merkleFanout ^ l))
      (h.childHash g.width (update recorded i b) i l))
    (hWritten : s' = s.setLine line { s.lines line with img := img, dirty := true }) :
    Updating h g recorded i b (l + 1) s' ∧ img = truth h g (update recorded i b) l (above i l) := by
  have hHere : (s.lines line).verified = true := by
    rcases hUpdating.resident l hLevel with ⟨j, hJ, hVerified⟩
    rwa [← hUpdating.tidy.once j line l _ hJ hAt]
  have hOld := hUpdating.trusted line l _ hAt hHere
  rw [mixed, if_neg (Nat.lt_irrefl l)] at hOld
  have hPlace : i / merkleFanout ^ l < g.width l := by
    have hLess := g.ancestor_lt (l := 0) hLeaf l (by omega)
    rwa [Nat.zero_add] at hLess
  have hImg : img = truth h g (update recorded i b) l (above i l) := by
    rw [hNew, hOld]
    exact (h.nodeAt_set_above g.width recorded i b l hPlace).symm
  refine ⟨?_, hImg⟩
  have hRewritten := rewritten_setLine hWritten rfl rfl rfl
  have hVerified : ∀ j, (s'.lines j).verified = (s.lines j).verified := by
    intro j
    by_cases hNe : j = line
    · rw [hNe, hRewritten.here]
    · rw [hRewritten.rest j hNe]
  refine ⟨hRewritten.tidy hUpdating.tidy, ?_, ?_⟩
  · intro m hM
    rcases hUpdating.resident m hM with ⟨j, hJ, hWas⟩
    exact ⟨j, (hRewritten.at_iff j m _).mpr hJ, (hVerified j).trans hWas⟩
  intro j m k hJ hWas
  rw [hRewritten.at_iff] at hJ
  rw [hVerified] at hWas
  by_cases hNe : j = line
  · rw [hNe] at hJ
    rcases hAt.unique hJ with ⟨rfl, rfl⟩
    rw [hNe, hRewritten.here, mixed, if_pos (Nat.lt_succ_self l)]
    exact hImg
  rw [hRewritten.rest j hNe, hUpdating.trusted j m k hJ hWas]
  unfold mixed
  by_cases hBelow : m < l
  · rw [if_pos hBelow, if_pos (by omega)]
  rw [if_neg hBelow]
  rcases eq_or_ne m l with rfl | hThis
  · rw [if_pos (Nat.lt_succ_self m)]
    -- another node of this level is not above the leaf
    refine (h.nodeAt_set_of_ne g.width recorded i b ?_).symm
    rintro rfl
    exact hNe (hUpdating.tidy.once j line m _ hJ hAt)
  · rw [if_neg (by omega)]

/- What goes to the level above `l`. -/
def hashFor (h : TreeHash merkleFanout H B) (g : MerkleTree) (new : Nat → B) (i l : Nat) : H :=
  if l = g.levels then h.root (truth h g new (g.levels - 1) 0) else h.childHash g.width new i l

/- What the loop does with the node that it was given. -/
theorem Updating.next {t' : Merkle H D}
    (hUpdating : Updating h g recorded i b l t) (hLeaf : i < g.leaves)
    (hLevel : l < g.levels) (hAt : t.At line l (above i l))
    (hNew : img = update (t.lines line).img (slot merkleFanout (i / merkleFanout ^ l))
      (hashFor h g (update recorded i b) i l))
    (hWritten : t' = t.setLine line { t.lines line with img := img, dirty := true }) :
    Updating h g recorded i b (l + 1) t' ∧ t'.clock = t.clock ∧ (if l + 1 = g.levels then h.root img
        else h.node l (above i l) img) =
      hashFor h g (update recorded i b) i (l + 1) := by
  rw [hashFor, if_neg (by omega)] at hNew
  rcases hUpdating.write hLeaf hLevel hAt hNew hWritten with ⟨hNext, hImg⟩
  refine ⟨hNext, by rw [hWritten]; rfl, ?_⟩
  unfold hashFor
  by_cases hTop : l + 1 = g.levels
  · rw [if_pos hTop, if_pos hTop, hImg, ← hTop, Nat.add_sub_cancel]
    have hPlace : above i l = 0 := g.ancestor_top (l := 0) hLeaf (l + 1) (by omega)
    rw [hPlace]
  · rw [if_neg hTop, if_neg hTop, hImg]
    rfl

theorem above_eq (i l : Nat) : i / merkleFanout ^ l / merkleFanout = above i l := by
  unfold above
  rw [Nat.pow_succ, Nat.div_div_eq_div_mul]

theorem merkleBuildNodes_spec (leaves : Nat → B) (l : Nat) (disk : MerkleBlocks H) (m : Nat) :
    (∀ l', l' ≠ l → (List.range m).foldl (merkleBuildNode h g leaves l) disk l' = disk l') ∧
    ∀ k < m, (List.range m).foldl (merkleBuildNode h g leaves l) disk
        l k = merkleBuildNode h g leaves l disk k l k := by
  induction m with
  | zero => exact ⟨fun _ _ => rfl, by simp⟩
  | succ m ih =>
  rw [List.range_succ, List.foldl_append]
  simp only [List.foldl_cons, List.foldl_nil]
  constructor
  · intro l' hNe
    rw [← ih.1 l' hNe]
    simp [merkleBuildNode, hNe]
  intro k hK
  rcases eq_or_ne k m with rfl | hLast
  · simp only [merkleBuildNode, update_self]
    cases l with
    | zero => rfl
    | succ l =>
      -- the level below is as it was
      dsimp only
      rw [ih.1 l (by omega)]
  · rw [← ih.2 k (by omega)]
    simp [merkleBuildNode, hLast]

theorem merkleBuild_spec (leaves : Nat → B)
    (disk : MerkleBlocks H) (n : Nat) : ∀ l < n, ∀ k < g.width (l + 1),
      (List.range n).foldl (merkleBuildLevel h g leaves) disk l k = truth h g leaves l k := by
  induction n with
  | zero => simp
  | succ n ih =>
  rw [List.range_succ, List.foldl_append]
  generalize (List.range n).foldl (merkleBuildLevel h g leaves) disk = before at ih ⊢
  simp only [List.foldl_cons, List.foldl_nil]
  rcases merkleBuildNodes_spec (h := h) (g := g) leaves n
    before (g.width (n + 1)) with ⟨hOthers, hThese⟩
  intro l hL k hK
  rcases eq_or_ne l n with rfl | hLast
  · rw [merkleBuildLevel, hThese k hK]
    funext c
    simp only [merkleBuildNode, update_self]
    cases l with
    | zero => rfl
    | succ l =>
    simp only [truth, TreeHash.nodeAt]
    split
    · rename_i hInside
      rw [ih l (by omega) _ hInside]
    · rfl
  · rw [merkleBuildLevel, hOthers l hLast]
    exact ih l (by omega) k hK

theorem merkleBuild_root (leaves : Nat → B) (disk : MerkleBlocks H) :
    (merkleBuild h g leaves disk).1 = h.root (truth h g leaves (g.levels - 1) 0) := by
  have hPos := g.levels_pos
  have hTop : 0 < g.width (g.levels - 1 + 1) := by
    rw [Nat.sub_add_cancel hPos, g.width_top]
    exact Nat.one_pos
  unfold merkleBuild
  dsimp only
  rw [merkleBuild_spec leaves disk g.levels _ (by omega) 0 hTop]

/- Nothing is cached, and the root is that of the leaves. -/
theorem MerkleSound.mounted (leaves : Nat → B)
    (disk : MerkleBlocks H) (d : D) : MerkleSound h g leaves
      (merkleMounted (merkleBuild h g leaves disk).1 d) := by
  have hEmpty : ∀ j l k, ¬ (merkleMounted (merkleBuild h g leaves disk).1 d).At j l k := by
    rintro j l k ⟨_, hSome, _⟩
    cases hSome
  refine ⟨⟨?_, ?_, ?_⟩, ?_, merkleBuild_root leaves disk⟩
  · intro j _
    exact Nat.le_refl 0
  · intro j j' l k hAt
    exact absurd hAt (hEmpty j l k)
  · intro j l k hAt
    exact absurd hAt (hEmpty j l k)
  · intro j l k hAt
    exact absurd hAt (hEmpty j l k)

----
-- Checks
----

variable [DecidableEq H]

/- A node that matches its parent's entry is the right one. -/
theorem merkleChecks_truth (hSound : MerkleSound h g recorded s)
    {i : Nat} (hLeaf : i < g.leaves) (hLevel : l < g.levels)
    (hParent : l + 1 < g.levels → ∃ p, parent = some p ∧ s.At p (l + 1) (above i (l + 1)) ∧
        (s.lines p).verified = true)
    (hChecks : merkleChecks h s (g.levels - 1) l (above i l) parent line = true) :
    (s.lines line).img = truth h g recorded l (above i l) := by
  unfold merkleChecks at hChecks
  split at hChecks
  · rename_i hTop
    rw [decide_eq_true_eq, hSound.root] at hChecks
    have hPlace : above i l = 0 := g.ancestor_top (l := 0) hLeaf (l + 1) (by omega)
    rw [h.root_injective hChecks, ← hTop, hPlace]
  · rcases hParent (by omega) with ⟨p, rfl, hAt, hVerified⟩
    rw [decide_eq_true_eq, hSound.trusted p _ _ hAt hVerified, ← above_succ] at hChecks
    have hEntry := h.nodeAt_node g.width recorded (g.above_lt hLeaf hLevel)
    exact h.node_injective l (above i l) (hChecks.trans hEntry)

/- A level of a walk: no node, a wrong node, or one more. -/
theorem merkleWalk_cases (hRun : merkleWalk dev h top level index n parent s = (r, s')) :
    (r = none ∧ merkleLineFor dev s (level + n) (index / merkleFanout ^ n) = (none, s')) ∨
    (r = none ∧ ∃ line, merkleLineFor dev s (level + n)
        (index / merkleFanout ^ n) = (some line, s') ∧
      merkleChecks h s' top (level + n) (index / merkleFanout ^ n) parent line = false) ∨
    ∃ line t, merkleLineFor dev s (level + n) (index / merkleFanout ^ n) = (some line, t) ∧
      ((t.lines line).verified = true ∨ merkleChecks h t top (level + n)
          (index / merkleFanout ^ n) parent line = true) ∧
      match n with
      | 0 => r = some line ∧ s' = t.setLine line { t.lines line with verified := true }
      | n + 1 => merkleWalk dev h top level index n (some line) (t.setLine line
            { t.lines line with verified := true }) = (r, s') := by
  unfold merkleWalk at hRun
  dsimp only at hRun
  split at hRun
  · rename_i t hLine
    cases hRun
    exact .inl ⟨rfl, hLine⟩
  rename_i line t hLine
  split at hRun
  · rename_i hWrong
    cases hRun
    exact .inr (.inl ⟨rfl, line, hLine, hWrong.2⟩)
  rename_i hGood
  refine .inr (.inr ⟨line, t, hLine, ?_, ?_⟩)
  · by_cases hVerified : (t.lines line).verified = true
    · exact .inl hVerified
    right
    rw [Bool.not_eq_true] at hVerified
    by_contra hWrong
    rw [Bool.not_eq_true] at hWrong
    exact hGood ⟨hVerified, hWrong⟩
  · cases n with
    | zero =>
      cases hRun
      exact ⟨rfl, rfl⟩
    | succ => exact hRun

/- What a walk has after a level that it passed. -/
theorem MerkleSound.visit {u : Merkle H D} {i : Nat} (hSound : MerkleSound h g recorded s)
    (hLeaf : i < g.leaves) (hLevel : l < g.levels) (hWalked : Walked g c i (l + 1) s)
    (hParent : l + 1 < g.levels → ∃ p, parent = some p ∧ s.At p (l + 1) (above i (l + 1)) ∧
        (s.lines p).verified = true ∧ c < (s.lines p).stamp)
    (hSince : c ≤ s.clock) (hWrap : s.clock + 1 < 2 ^ 32)
    (hLine : merkleLineFor dev s l (above i l) = (some line, t))
    (hGood : (t.lines line).verified = true ∨
      merkleChecks h t (g.levels - 1) l (above i l) parent line = true)
    (hMarked : u = t.setLine line { t.lines line with verified := true }) :
    MerkleSound h g recorded u ∧ Walked g c i l u ∧
      u.clock = s.clock + 1 ∧ u.At line l (above i l) ∧ (u.lines line).verified = true ∧
      c < (u.lines line).stamp := by
  have hFetched := merkleLineFor_some hLine
  rcases hSound.fetched hFetched hWrap hLevel with ⟨hFetchedSound, hClock⟩
  have hImg : (t.lines line).img = truth h g recorded l (above i l) := by
    rcases hGood with hVerified | hChecks
    · exact hFetchedSound.trusted line _ _ hFetched.at_ hVerified
    refine merkleChecks_truth hFetchedSound hLeaf hLevel ?_ hChecks
    intro hMore
    rcases hParent hMore with ⟨p, rfl, hAt, hVerified, hRecent⟩
    have hNe := hWalked.keeps hSound.tidy hFetched (Nat.lt_succ_self l) (Nat.le_refl _) hAt hRecent
    have hSame := hFetched.rest p hNe
    refine ⟨p, rfl, (Merkle.At.congr hSame).mpr hAt, ?_⟩
    rw [hSame]
    exact hVerified
  have hLast : u.lines line = { t.lines line with verified := true } := by
    rw [hMarked]
    exact update_self _ _ _
  refine ⟨hFetchedSound.mark hFetched.at_ hImg hMarked,
    hWalked.extend hSound.tidy hFetched (by omega) hMarked,
    ?_, ?_, ?_, ?_⟩
  · rw [hMarked]
    exact hClock
  · unfold Merkle.At
    rw [hLast]
    exact hFetched.at_
  · rw [hLast]
  rw [hLast]
  rw [hFetched.stamp]
  omega

/-
  A walk down the path of a leaf. Induction on how far it has
  to go, with `Walked` for the levels behind it.
-/
theorem MerkleSound.walk {i : Nat} (hSound : MerkleSound h g recorded s)
    (hLeaf : i < g.leaves) (hLevel : level + n < g.levels)
    (hWalked : Walked g c i (level + n + 1) s)
    (hParent : level + n + 1 < g.levels → ∃ p, parent = some p ∧
        s.At p (level + n + 1) (above i (level + n + 1)) ∧
        (s.lines p).verified = true ∧ c < (s.lines p).stamp)
    (hSince : c ≤ s.clock) (hWrap : s.clock + (n + 1) < 2 ^ 32)
    (hRun : merkleWalk dev h (g.levels - 1) level (above i level) n parent s = (r, s')) :
    MerkleSound h g recorded s' ∧ s'.clock ≤ s.clock + (n + 1) ∧ ∀ line, r = some line →
        Walked g c i level s' ∧ s'.At line level (above i level) ∧
          (s'.lines line).verified = true := by
  induction n generalizing s parent with have hCases := merkleWalk_cases hRun
  | zero =>
    rw [above_div] at hCases
    rcases hCases with ⟨rfl, hLine⟩ | ⟨rfl, line, hLine, _⟩ | ⟨line, t, hLine, hGood, rfl, hMarked⟩
    · rcases hSound.missed hLine hWrap with ⟨hKept, hClock⟩
      exact ⟨hKept, hClock, by simp⟩
    · rcases hSound.fetched (merkleLineFor_some hLine) hWrap hLevel with ⟨hKept, hClock⟩
      exact ⟨hKept, by omega, by simp⟩
    rcases hSound.visit hLeaf hLevel hWalked hParent hSince hWrap hLine hGood hMarked with
      ⟨hKept, hPath, hClock, hAt, hVerified, _⟩
    refine ⟨hKept, by omega, ?_⟩
    rintro _ ⟨⟩
    exact ⟨hPath, hAt, hVerified⟩
  | succ n ih =>
    rw [above_div] at hCases
    rcases hCases with ⟨rfl, hLine⟩ | ⟨rfl, line, hLine, _⟩ | ⟨line, t, hLine, hGood, hMore⟩
    · rcases hSound.missed hLine (by omega) with ⟨hKept, hClock⟩
      exact ⟨hKept, by omega, by simp⟩
    · rcases hSound.fetched (merkleLineFor_some hLine) (by omega) hLevel with ⟨hKept, hClock⟩
      exact ⟨hKept, by omega, by simp⟩
    rcases hSound.visit hLeaf hLevel hWalked hParent hSince (by omega) hLine hGood rfl with
      ⟨hKept, hPath, hClock, hLast⟩
    rcases ih hKept (by omega) hPath (fun _ => ⟨line, rfl, hLast⟩)
      (by omega) (by omega) hMore with ⟨hEnd, hTime, hFound⟩
    exact ⟨hEnd, by omega, hFound⟩

/- The node above a leaf, from nothing walked. -/
theorem merkleNode_above (s : Merkle H D) {i : Nat} (hLeaf : i < g.leaves)
    (hLevel : l < g.levels) : merkleNode dev h g s l (above i l) =
      merkleWalk dev h (g.levels - 1) l (above i l) (g.levels - 1 - l) none s := by
  have hPlace := g.above_lt hLeaf hLevel
  unfold merkleNode
  rw [if_neg (by omega)]

theorem MerkleSound.node {i : Nat} (hSound : MerkleSound h g recorded s) (hLeaf : i < g.leaves)
    (hWrap : s.clock + g.levels < 2 ^ 32) (hRun : merkleNode dev h g s 0 (above i 0) = (r, s')) :
    MerkleSound h g recorded s' ∧ s'.clock ≤ s.clock + g.levels ∧ ∀ line, r = some line →
        Walked g s.clock i 0 s' ∧ s'.At line 0 (above i 0) ∧ (s'.lines line).verified = true := by
  have hPos := g.levels_pos
  rw [merkleNode_above s hLeaf hPos] at hRun
  have hWalked := hSound.tidy.walked i (show g.levels ≤ 0 + (g.levels - 1 - 0) + 1 by omega)
  rcases hSound.walk hLeaf (by omega) hWalked (fun hMore => absurd hMore (by omega)) (Nat.le_refl _)
    (by omega) hRun with ⟨hKept, hClock, hFound⟩
  exact ⟨hKept, by omega, hFound⟩

theorem merkleWalk_hit_last (parent : Option Nat) (hFound : s.find level index = some j)
    (hVerified : (s.lines j).verified = true) :
    merkleWalk dev h top level index 0 parent s = (some j, s.touch j) := by
  rcases Merkle.touch_mark hVerified with ⟨hTouched, hMark⟩
  unfold merkleWalk
  simp only [Nat.add_zero, Nat.pow_zero, Nat.div_one, merkleLineFor, hFound]
  rw [hTouched, if_neg (by simp), hMark]

theorem merkleWalk_hit (parent : Option Nat)
    (hFound : s.find (level + (n + 1)) (index / merkleFanout ^ (n + 1)) = some j)
    (hVerified : (s.lines j).verified = true) : merkleWalk dev h top level index (n + 1) parent s =
      merkleWalk dev h top level index n (some j) (s.touch j) := by
  rcases Merkle.touch_mark hVerified with ⟨hTouched, hMark⟩
  rw [merkleWalk]
  simp only [merkleLineFor, hFound]
  rw [hTouched, if_neg (by simp), hMark]

/- A walk on a path that is in the cache reads nothing. -/
theorem merkleWalk_resident
    (dev : MerkleDevice H D) (h : TreeHash merkleFanout H B) {i : Nat} (parent : Option Nat)
    (hTidy : MerkleTidy g s) (hResident : Resident g i s)
    (hLevel : level + n < g.levels) (hWrap : s.clock + (n + 1) < 2 ^ 32) :
    ∃ line t, merkleWalk dev h (g.levels - 1) level (above i level) n parent s = (some line, t) ∧
      Restamped s t ∧ MerkleTidy g t ∧ t.clock = s.clock + (n + 1) ∧
      t.At line level (above i level) := by
  induction n generalizing s parent with
  | zero =>
    rcases hResident level (by omega) with ⟨j, hAt, hVerified⟩
    have hStamped := Restamped.touch s j
    rcases hTidy.touch j hWrap with ⟨hTouched, hClock⟩
    exact ⟨j, s.touch j, merkleWalk_hit_last parent (hTidy.find_eq hAt) hVerified,
      hStamped, hTouched, hClock, hStamped.at_iff.mpr hAt⟩
  | succ n ih =>
  rcases hResident (level + (n + 1)) hLevel with ⟨j, hAt, hVerified⟩
  have hStamped := Restamped.touch s j
  rcases hTidy.touch j (by omega) with ⟨hTouched, hClock⟩
  rcases ih (some j) hTouched (hStamped.resident hResident) (by omega) (by omega) with
    ⟨line, t, hRun, hRest, hEnd, hTime, hLine⟩
  refine ⟨line, t, ?_, hStamped.trans hRest, hEnd, by omega, hLine⟩
  rw [← hRun]
  apply merkleWalk_hit parent _ hVerified
  rw [above_div]
  exact hTidy.find_eq hAt

----
-- The Update of a Leaf
----

/- The levels above the first, which are all in the cache. -/
theorem Updating.run {r : Bool} (hUpdating : Updating h g recorded i b l s) (hLeaf : i < g.leaves)
    (hLevels : l + n = g.levels) (hWrap : s.clock + n * g.levels < 2 ^ 32)
    (hRun : merkleUpdateFrom dev h g n l (i / merkleFanout ^ l)
      (hashFor h g (update recorded i b) i l) s = (r, s')) :
    r = true ∧ MerkleSound h g (update recorded i b) s' ∧ s'.clock ≤ s.clock + n * g.levels := by
  induction n generalizing s l with
  | zero =>
    cases hRun
    have hEnd : l = g.levels := by omega
    refine ⟨rfl, ⟨?_, ?_, ?_⟩, by simp⟩
    · exact ⟨hUpdating.tidy.stamps, hUpdating.tidy.once, hUpdating.tidy.inside⟩
    · intro j m k hAt hVerified
      have hInside := hUpdating.tidy.inside j m k hAt
      have hImg := hUpdating.trusted j m k hAt hVerified
      rwa [mixed, if_pos (by omega)] at hImg
    · exact if_pos hEnd
  | succ n ih =>
    have hLevel : l < g.levels := by omega
    rw [merkleUpdateFrom] at hRun
    rw [Nat.succ_mul] at hWrap ⊢
    rcases merkleWalk_resident dev h none hUpdating.tidy hUpdating.resident
      (show l + (g.levels - 1 - l) < g.levels by omega)
      (by omega) with
      ⟨line, t, hWalk, hStamped, hTidy, hClock, hAt⟩
    rw [above_eq, merkleNode_above s hLeaf hLevel, hWalk] at hRun
    dsimp only at hRun
    have hNow : Updating h g recorded i b l t := ⟨hTidy, hStamped.resident hUpdating.resident,
        hStamped.trusts hUpdating.trusted⟩
    rcases hNow.next hLeaf hLevel hAt rfl rfl with ⟨hNext, hSame, hValue⟩
    rw [hValue] at hRun
    rcases ih hNext (by omega) (by omega) hRun with ⟨hDone, hSound, hTime⟩
    exact ⟨hDone, hSound, by omega⟩

/-
  An update fails before it has changed a node, or is recorded.
-/
theorem MerkleSound.update {r : Bool} (hSound : MerkleSound h g recorded s) (hLeaf : i < g.leaves)
    (hWrap : s.clock + g.levels * g.levels < 2 ^ 32)
    (hRun : merkleUpdateLeaf dev h g s i b = (r, s')) : MerkleSound h g
        (if r then update recorded i b else recorded)
        s' ∧
      s'.clock ≤ s.clock + g.levels * g.levels := by
  obtain ⟨n, hLevels⟩ : ∃ n, g.levels = n + 1 := ⟨g.levels - 1, by have hPos := g.levels_pos; omega⟩
  have hMul : g.levels * g.levels = n * g.levels + g.levels := by
    rw [hLevels, Nat.succ_mul]
  unfold merkleUpdateLeaf at hRun
  rw [hLevels, merkleUpdateFrom] at hRun
  have hFirst : i / merkleFanout = above i 0 := by
    rw [← above_eq, Nat.pow_zero, Nat.div_one]
  rw [hFirst] at hRun
  rcases hNode : merkleNode dev h g s 0 (above i 0) with ⟨found, t⟩
  rcases hSound.node hLeaf (by omega) hNode with ⟨hKept, hClock, hFound⟩
  rw [hNode] at hRun
  cases found with
  | none =>
    cases hRun
    exact ⟨hKept, by omega⟩
  | some line =>
  rcases hFound line rfl with ⟨hWalked, hAt, hVerified⟩
  have hStart : Updating h g recorded i b 0 t := by
    refine ⟨hKept.tidy, ?_, ?_⟩
    · intro l hLevel
      rcases hWalked.here l (Nat.zero_le l) hLevel with ⟨j, hJ, hChecked, _⟩
      exact ⟨j, hJ, hChecked⟩
    · intro j m k hJ hChecked
      exact hKept.trusted j m k hJ hChecked
  have hValue : h.leaf i b = hashFor h g (Function.update recorded i b) i 0 := by
    rw [hashFor, if_neg (by omega)]
    simp [TreeHash.childHash]
  dsimp only at hRun
  rcases hStart.next hLeaf (by omega) hAt (by rw [Nat.pow_zero, Nat.div_one]) rfl with
    ⟨hNext, hSame, hUp⟩
  rw [hValue, hUp] at hRun
  rcases hNext.run hLeaf (by omega) (by omega) hRun with ⟨rfl, hDone, hTime⟩
  exact ⟨hDone, by omega⟩


theorem MerkleSound.verify {r : Bool} (hSound : MerkleSound h g recorded s) (hLeaf : i < g.leaves)
    (hWrap : s.clock + g.levels < 2 ^ 32) (hRun : merkleVerifyLeaf dev h g s i b = (r, s')) :
    MerkleSound h g recorded s' ∧ s'.clock ≤ s.clock + g.levels ∧ (r = true → b = recorded i) := by
  unfold merkleVerifyLeaf at hRun
  have hFirst : i / merkleFanout = above i 0 := by
    rw [← above_eq, Nat.pow_zero, Nat.div_one]
  rw [hFirst] at hRun
  rcases hNode : merkleNode dev h g s 0 (above i 0) with ⟨found, t⟩
  rcases hSound.node hLeaf hWrap hNode with ⟨hKept, hClock, hFound⟩
  rw [hNode] at hRun
  cases found with
  | none =>
    cases hRun
    exact ⟨hKept, hClock, by simp⟩
  | some line =>
  cases hRun
  refine ⟨hKept, hClock, ?_⟩
  intro hSame
  rcases hFound line rfl with ⟨_, hAt, hVerified⟩
  rw [decide_eq_true_eq, hKept.trusted line _ _ hAt hVerified] at hSame
  exact h.leaf_injective i (hSame.trans (h.nodeAt_leaf g.width recorded hLeaf))

/- The tree, and what was last recorded for each leaf. -/
structure FreshState (H B D : Type) where
  tree : Merkle H D
  recorded : Nat → B

inductive FreshOp (B D : Type) where
  | verify (i : Nat) (b : B)
  | update (i : Nat) (b : B)
  | tamper (d : D)

/-
  A call, or anything that becomes of the device between two
  calls. A failed update has recorded nothing.
-/
def freshExec (dev : MerkleDevice H D) (h : TreeHash merkleFanout H B)
    (g : MerkleTree) (s : FreshState H B D) : FreshOp B D → FreshState H B D
  | .verify i b => { s with tree := (merkleVerifyLeaf dev h g s.tree i b).2 }
  | .update i b =>
    let r := merkleUpdateLeaf dev h g s.tree i b
    { tree := r.2, recorded := if r.1 then update s.recorded i b else s.recorded }
  | .tamper d => { s with tree := { s.tree with dev := d } }

/- The leaf is one of the volume's. -/
def freshEnabled (g : MerkleTree) : FreshOp B D → Prop
  | .verify i _ => i < g.leaves
  | .update i _ => i < g.leaves
  | .tamper _ => True

/- A call does not make the access clock wrap. -/
def NoWrap (g : MerkleTree) (s : FreshState H B D) (_ : FreshOp B D) : Prop :=
  s.tree.clock + g.levels * g.levels < 2 ^ 32

def FreshRun (dev : MerkleDevice H D) (h : TreeHash merkleFanout H B) (g : MerkleTree)
    (Cond : FreshState H B D → FreshOp B D → Prop) : FreshState H B D → FreshState H B D → Prop :=
  Lib.Run (freshExec dev h g) (fun s op => freshEnabled g op ∧ Cond s op)

/- A volume that was built over the leaves and mounted. -/
def freshMounted (h : TreeHash merkleFanout H B) (g : MerkleTree)
    (leaves : Nat → B) (disk : MerkleBlocks H) (d : D) : FreshState H B D :=
  { tree := merkleMounted (merkleBuild h g leaves disk).1 d, recorded := leaves }

theorem MerkleSound.exec {s : FreshState H B D} {op : FreshOp B D}
    (hSound : MerkleSound h g s.recorded s.tree)
    (hEnabled : freshEnabled g op) (hWrap : NoWrap g s op) :
    MerkleSound h g (freshExec dev h g s op).recorded (freshExec dev h g s op).tree := by
  unfold NoWrap at hWrap
  have hLess : g.levels ≤ g.levels * g.levels := Nat.le_mul_self g.levels
  cases op with
  | verify i b =>
    exact (hSound.verify hEnabled (by omega)
      (Prod.mk.eta (p := merkleVerifyLeaf dev h g s.tree i b)).symm).1
  | update i b =>
    exact (hSound.update hEnabled hWrap
      (Prod.mk.eta (p := merkleUpdateLeaf dev h g s.tree i b)).symm).1
  | tamper =>
    exact ⟨⟨hSound.tidy.stamps, hSound.tidy.once, hSound.tidy.inside⟩, hSound.trusted, hSound.root⟩

end Fresh

/-
  Terms for hashes. `row` stands for a node whose children are
  all like its first child, `cons` for any other.
-/
inductive Digest where
  | zero
  | leaf (i : Nat) (b : Bool)
  | cons (first rest : Digest)
  | row (first : Digest)
  | node (l k : Nat) (content : Digest)
  | root (content : Digest)
  deriving DecidableEq

namespace Digest

/- The digest of the same content, `c` places further. -/
def further : Digest → Nat → Digest
  | leaf i b, c => leaf (i + c) b
  | node l k (row first), c => node l (k + c) (row (first.further (c * merkleFanout)))
  | d, _ => d

def chain (img : MerkleNode Digest) : Digest := (List.ofFn img).foldr cons zero

def content (img : MerkleNode Digest) : Digest :=
  if ∀ c : Fin merkleFanout, img c = (img 0).further c then row (img 0) else chain img

theorem chain_injective : Injective chain := by
  have hLists : Injective (fun l : List Digest => l.foldr cons zero) := by
    intro l
    induction l with
    | nil =>
      intro l' hSame
      cases l' with
      | nil => rfl
      | cons => cases hSame
    | cons d l ih =>
    intro l' hSame
    cases l' with
    | nil => cases hSame
    | cons =>
      simp only [List.foldr_cons, cons.injEq] at hSame
      rw [hSame.1, ih hSame.2]
  intro img img' hSame
  exact List.ofFn_injective (hLists hSame)

theorem chain_ne_row (img : MerkleNode Digest) (first : Digest) : chain img ≠ row first := by
  unfold chain
  cases List.ofFn img with
  | nil | cons => rintro ⟨⟩

theorem content_injective : Injective content := by
  intro img img' hSame
  unfold content at hSame
  split at hSame
  · rename_i hRow
    split at hSame
    · rename_i hRow'
      funext c
      rw [hRow c, hRow' c, row.inj hSame]
    · exact absurd hSame.symm (chain_ne_row _ _)
  · split at hSame
    · exact absurd hSame (chain_ne_row _ _)
    · exact chain_injective hSame

end Digest

def digestHash : TreeHash merkleFanout Digest Bool where
  leaf := .leaf
  node l k img := .node l k (Digest.content img)
  root img := .root (Digest.content img)
  zero := .zero
  leaf_injective _ _ _ hSame := (Digest.leaf.inj hSame).2
  node_injective _ _ _ _ hSame := Digest.content_injective (Digest.node.inj hSame).2.2
  root_injective _ _ hSame := Digest.content_injective (Digest.root.inj hSame)

----
-- A Volume
----

def wideTree : MerkleTree where
  leaves := 32768
  counts := [256, 2, 1]
  laid := by decide

/- Node blocks, and which of the next reads fail. -/
structure Disk where
  blocks : MerkleBlocks Digest
  fails : List Bool

def diskDevice : MerkleDevice Digest Disk where
  read d level index := (if d.fails.headD false then none
      else some (d.blocks level index),
      { d with fails := d.fails.tail })
  write d level index img := (true,
      { d with
        blocks := update d.blocks level (update (d.blocks level) index img) })
  writeRoot d _ := d

/- The nodes over leaves that are all alike. -/
def leafRow (k : Nat) : MerkleNode Digest := fun c => .leaf (k * merkleFanout + c) false

def middleRow (k : Nat) : MerkleNode Digest :=
  fun c =>
    .node 0 (k * merkleFanout + c) (.row (.leaf ((k * merkleFanout + c) * merkleFanout) false))

def topRow : MerkleNode Digest :=
  fun c =>
    if c.val < 2 then
      .node 1 c (.row (.node 0 (c * merkleFanout)
          (.row (.leaf (c * merkleFanout * merkleFanout) false))))
    else .zero

def honestBlocks : MerkleBlocks Digest
  | 0, k => leafRow k
  | 1, k => middleRow k
  | _, _ => topRow

variable {k : Nat}

theorem truth_leafRow (hPlace : k < 256) :
    truth digestHash wideTree (fun _ => false) 0 k = leafRow k := by
  funext c
  have hInside : k * merkleFanout + c < wideTree.width 0 := by
    have hC := c.isLt
    simp only [merkleFanout] at hC ⊢
    change _ < 32768
    omega
  rw [truth, TreeHash.nodeAt, if_pos hInside]
  rfl

theorem content_leafRow (k : Nat) : Digest.content (leafRow k) =
      .row (.leaf (k * merkleFanout) false) :=
  if_pos fun c => by simp [leafRow, Digest.further]

theorem truth_middleRow (hPlace : k < 2) :
    truth digestHash wideTree (fun _ => false) 1 k = middleRow k := by
  funext c
  have hPlaces : k * merkleFanout + c < 256 := by
    have hC := c.isLt
    simp only [merkleFanout] at hC ⊢
    omega
  have hInside : k * merkleFanout + c < wideTree.width 1 := hPlaces
  rw [truth, TreeHash.nodeAt, if_pos hInside]
  change Digest.node 0 _ (Digest.content (truth _ _ _ _ _)) = _
  rw [truth_leafRow hPlaces, content_leafRow]
  rfl

theorem content_middleRow (k : Nat) : Digest.content (middleRow k) =
      .row (.node 0 (k * merkleFanout) (.row (.leaf (k * merkleFanout * merkleFanout) false))) :=
  if_pos fun c => by
    simp [middleRow, Digest.further, Nat.add_mul]

theorem truth_topRow : truth digestHash wideTree (fun _ => false) 2 0 = topRow := by
  funext c
  rw [truth, TreeHash.nodeAt, Nat.zero_mul, Nat.zero_add, topRow]
  change (if c.val < 2 then _ else _) = _
  split
  · rename_i hPlace
    change Digest.node 1 _ (Digest.content (truth _ _ _ _ _)) = _
    rw [truth_middleRow hPlace, content_middleRow]
  · rfl

/- The volume after it is built and mounted. -/
def startOf (d : Disk) : FreshState Digest Bool Disk :=
  { tree := merkleMounted (digestHash.root topRow) d, recorded := fun _ => false }

theorem freshMounted_eq (disk : MerkleBlocks Digest) (d : Disk) :
    freshMounted digestHash wideTree (fun _ => false) disk d = startOf d := by
  unfold freshMounted startOf
  rw [merkleBuild_root]
  change FreshState.mk (merkleMounted (digestHash.root (truth _ _ _ 2 0)) d) _ = _
  rw [truth_topRow]

abbrev freshStep : FreshState Digest Bool Disk → FreshOp Bool Disk → FreshState Digest Bool Disk :=
  freshExec diskDevice digestHash wideTree

def honestDisk : Disk := { blocks := honestBlocks, fails := [] }

instance freshEnabled.decidable (op : FreshOp Bool Disk) :
    Decidable (freshEnabled wideTree op) := by
  unfold freshEnabled
  cases op <;> infer_instance

instance NoWrap.decidable (s : FreshState Digest Bool Disk) (op : FreshOp Bool Disk) :
    Decidable (NoWrap wideTree s op) :=
  inferInstanceAs (Decidable (_ < _))

/-
  In every run in which the clock does not wrap, only what was
  last recorded for a leaf is accepted for it.
-/
theorem merkle_verify_fresh {H B D : Type} [DecidableEq H]
    {dev : MerkleDevice H D} {h : TreeHash merkleFanout H B} {g : MerkleTree} {leaves : Nat → B}
    {disk : MerkleBlocks H} {d : D} {s : FreshState H B D}
    (hRun : FreshRun dev h g (NoWrap g) (freshMounted h g leaves disk d) s)
    {i : Nat} {b : B} (hLeaf : i < g.leaves) (hWrap : NoWrap g s (.verify i b))
    (hAccepted : (merkleVerifyLeaf dev h g s.tree i b).1 = true) : b = s.recorded i := by
  have hSound : MerkleSound h g s.recorded s.tree := Lib.Run.invariant
      (fun s => MerkleSound h g s.recorded s.tree)
      (fun _ _ hKept hOk => hKept.exec hOk.1 hOk.2) hRun
      (MerkleSound.mounted leaves disk d)
  have hLess : g.levels ≤ g.levels * g.levels := Nat.le_mul_self g.levels
  unfold NoWrap at hWrap
  exact (hSound.verify hLeaf (by omega)
    (Prod.mk.eta (p := merkleVerifyLeaf dev h g s.tree i b)).symm).2.2
    hAccepted

def records : List (FreshOp Bool Disk) := [.update 5 true]

def recordsFive : FreshState Digest Bool Disk := runAll freshStep (startOf honestDisk) records

theorem merkle_verify_fresh_recordsFive :
    (merkleVerifyLeaf diskDevice digestHash wideTree recordsFive.tree 5 true).1 = true ∧
      true = recordsFive.recorded 5 := by
  have hAccepted : (merkleVerifyLeaf diskDevice digestHash
      wideTree recordsFive.tree 5 true).1 = true := by
    decide +kernel
  have hRun : FreshRun diskDevice digestHash wideTree (NoWrap wideTree)
      (freshMounted digestHash wideTree (fun _ => false) honestBlocks honestDisk) recordsFive := by
    rw [freshMounted_eq]
    exact Lib.run_runAll records (by decide +kernel)
  exact ⟨hAccepted, merkle_verify_fresh hRun (by decide) (by decide +kernel) hAccepted⟩

end Horus.Storage
