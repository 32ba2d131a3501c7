import Horus.Storage.MerkleFresh

/-
  The access clock of the node cache wraps.

  Then the line that was used last can have the least stamp,
  and a walk can evict its own path. An update that loses the
  top of the tree in this way, and cannot read it back, stops
  with the lowest node rewritten and still marked as verified.

  The run here needs three levels, nearly three thousand
  million verifications and two failing reads. The long parts
  of it verify one leaf again and again; they are done at once
  by `spin_run`.
-/

namespace Horus.Storage

open Lib

variable {t s : Merkle Digest Disk} {x i z y : Nat}

----
-- Verifying One Leaf for a Long Time
----

/- The path of leaf `i` is in lines `x`, `y` and `z`. -/
structure PathIn (s : Merkle Digest Disk) (i x y z : Nat) : Prop where
  top : s.find 2 (above i 2) = some x
  middle : s.find 1 (above i 1) = some y
  low : s.find 0 (above i 0) = some z
  verified : (s.lines x).verified = true ∧ (s.lines y).verified = true ∧ (s.lines z).verified = true
  apart : x ≠ y ∧ x ≠ z ∧ y ≠ z

/- The three lines were used last, up to the time `n`. -/
def restamp (s : Merkle Digest Disk) (x y z n : Nat) : Merkle Digest Disk :=
  { s with
    lines := fun i =>
      if i = z then { s.lines i with stamp := n }
      else if i = y then { s.lines i with stamp := n - 1 }
      else if i = x then { s.lines i with stamp := n - 2 }
      else s.lines i
    clock := n }

theorem Restamped.find_eq (hStamped : Restamped s t) (l k : Nat) : t.find l k = s.find l k := by
  unfold Merkle.find
  congr 1
  funext i
  rw [hStamped.lines i]

theorem Restamped.pathIn (hStamped : Restamped s t) (hPath : PathIn s i x y z) :
    PathIn t i x y z where
  top := (hStamped.find_eq _ _).trans hPath.top
  middle := (hStamped.find_eq _ _).trans hPath.middle
  low := (hStamped.find_eq _ _).trans hPath.low
  verified := by
    rw [hStamped.lines x, hStamped.lines y, hStamped.lines z]
    exact hPath.verified
  apart := hPath.apart

theorem Restamped.restamp (s : Merkle Digest Disk) (x y z n : Nat) :
    Restamped s (restamp s x y z n) := by
  refine ⟨rfl, ?_⟩
  intro i
  simp only [Storage.restamp]
  split
  · rfl
  · split
    · rfl
    · split <;> rfl

theorem touch_three (hPath : PathIn s i x y z) (hWrap : s.clock + 3 < 2 ^ 32) :
    ((s.touch x).touch y).touch z = restamp s x y z (s.clock + 3) := by
  rcases hPath.apart with ⟨hXy, hXz, hYz⟩
  have hOne : (s.clock + 1) % 2 ^ 32 = s.clock + 1 := Nat.mod_eq_of_lt (by omega)
  have hTwo : (s.clock + 1 + 1) % 2 ^ 32 = s.clock + 1 + 1 := Nat.mod_eq_of_lt (by omega)
  have hThree : (s.clock + 1 + 1 + 1) % 2 ^ 32 = s.clock + 3 := Nat.mod_eq_of_lt (by omega)
  simp only [Merkle.touch, Merkle.setLine, Merkle.tick, hOne,
    hTwo, hThree, restamp, Merkle.mk.injEq, and_true]
  funext j
  by_cases hZ : j = z
  · subst hZ
    simp [hXz.symm, hYz.symm]
  by_cases hY : j = y
  · subst hY
    simp [hZ, hXy.symm]
  by_cases hX : j = x
  · subst hX
    simp [hZ, hY]
  · simp [hX, hY, hZ]

theorem restamp_again (s : Merkle Digest Disk) (x y z n m : Nat) :
    restamp (restamp s x y z n) x y z m = restamp s x y z m := by
  simp only [restamp, Merkle.mk.injEq, and_true]
  funext j
  split
  · rfl
  · split
    · rfl
    · split <;> rfl

/- Nothing is read; three stamps are new. -/
theorem verify_pathIn (hPath : PathIn s i x y z) (hLeaf : i < wideTree.leaves)
    (hWrap : s.clock + 3 < 2 ^ 32) (b : Bool) :
    (merkleVerifyLeaf diskDevice digestHash wideTree s i b).2 = restamp s x y z (s.clock + 3) := by
  rcases hPath.verified with ⟨hX, hY, hZ⟩
  have hFirst : i / merkleFanout = above i 0 := by
    rw [← above_eq, Nat.pow_zero, Nat.div_one]
  have hTouchX := Restamped.touch s x
  have hTouchY := hTouchX.trans (Restamped.touch (s.touch x) y)
  have hLevels : wideTree.levels - 1 - 0 = 1 + 1 := rfl
  unfold merkleVerifyLeaf
  rw [hFirst, merkleNode_above s hLeaf (by decide), hLevels]
  rw [merkleWalk_hit none (by rw [above_div]; exact hPath.top) hX]
  rw [merkleWalk_hit (some x) (by rw [above_div]; exact (hTouchX.pathIn hPath).middle)
    (hTouchX.pathIn hPath).verified.2.1]
  rw [merkleWalk_hit_last (some y) (hTouchY.pathIn hPath).low (hTouchY.pathIn hPath).verified.2.2]
  exact touch_three hPath hWrap

/- A leaf is verified `k + 1` times. -/
theorem spin_run {s : FreshState Digest Bool Disk} (b : Bool)
    (hPath : PathIn s.tree i x y z) (hLeaf : i < wideTree.leaves) (k : Nat)
    (hWrap : s.tree.clock + 3 * (k + 1) < 2 ^ 32) :
    FreshRun diskDevice digestHash wideTree (fun _ _ => True) s
      { s with tree := restamp s.tree x y z (s.tree.clock + 3 * (k + 1)) } := by
  induction k with
  | zero =>
    have hStep := verify_pathIn hPath hLeaf hWrap b
    rw [← hStep]
    exact Lib.Run.single (FreshOp.verify i b) ⟨hLeaf, trivial⟩
  | succ k ih =>
  have hRun := ih (by omega)
  have hSpun := Restamped.restamp s.tree x y z (s.tree.clock + 3 * (k + 1))
  have hStep := verify_pathIn (hSpun.pathIn hPath) hLeaf
    (by change s.tree.clock + 3 * (k + 1) + 3 < _; omega) b
  rw [restamp_again] at hStep
  have hNext := hRun.snoc (FreshOp.verify i b) ⟨hLeaf, trivial⟩
  simp only [freshExec, hStep] at hNext
  exact hNext

/- Fourteen leaves of as many nodes, after a failed read. -/
def fills : List (FreshOp Bool Disk) :=
  [.tamper { honestDisk with fails := [true] }, .verify 0 false] ++
    (List.range 14).map fun k => .verify (k * merkleFanout) false

def filled : FreshState Digest Bool Disk := runAll freshStep (startOf honestDisk) fills

/- The first leaf until the clock is about to wrap. -/
def aged : FreshState Digest Bool Disk :=
  { filled with tree := restamp filled.tree 0 1 2 (2 ^ 32 - 3) }

/- It wraps in the next verification. -/
def wrapped : FreshState Digest Bool Disk := freshStep aged (.verify 0 false)

/- The leaf of the next node, until it is to wrap again. -/
def agedAgain : FreshState Digest Bool Disk :=
  { wrapped with tree := restamp wrapped.tree 0 1 3 (2 ^ 32 - 1) }

/- The update loses the top node and cannot read it again. -/
def interrupted : List (FreshOp Bool Disk) :=
  [.tamper { honestDisk with fails := [false, true] }, .update 1792 true]

def halfUpdated : FreshState Digest Bool Disk := runAll freshStep agedAgain interrupted

/- The node that was rewritten is evicted and replayed. -/
def replays : List (FreshOp Bool Disk) :=
  [.verify 1792 true, .verify 1920 false, .tamper honestDisk]

theorem filled_pathIn : filled.tree.clock = 43 ∧ PathIn filled.tree 0 0 1 2 := by
  have hFacts : filled.tree.clock = 43 ∧ filled.tree.find 2 0 = some 0 ∧
      filled.tree.find 1 0 = some 1 ∧ filled.tree.find 0 0 = some 2 ∧
      ((filled.tree.lines 0).verified = true ∧ (filled.tree.lines 1).verified = true ∧
        (filled.tree.lines 2).verified = true) := by
    decide +kernel
  rcases hFacts with ⟨hClock, hTop, hMiddle, hLow, hVerified⟩
  exact ⟨hClock, hTop, hMiddle, hLow, hVerified, by decide⟩

theorem wrapped_pathIn : wrapped.tree.clock = 0 ∧ PathIn wrapped.tree 128 0 1 3 := by
  have hFacts : wrapped.tree.clock = 0 ∧ wrapped.tree.find 2 0 = some 0 ∧
      wrapped.tree.find 1 0 = some 1 ∧ wrapped.tree.find 0 1 = some 3 ∧
      ((wrapped.tree.lines 0).verified = true ∧ (wrapped.tree.lines 1).verified = true ∧
        (wrapped.tree.lines 3).verified = true) := by
    decide +kernel
  rcases hFacts with ⟨hClock, hTop, hMiddle, hLow, hVerified⟩
  exact ⟨hClock, hTop, hMiddle, hLow, hVerified, by decide⟩

theorem halfUpdated_run :
    FreshRun diskDevice digestHash wideTree (fun _ _ => True) (startOf honestDisk) halfUpdated := by
  rcases filled_pathIn with ⟨hFilled, hPath⟩
  rcases wrapped_pathIn with ⟨hWrapped, hPath'⟩
  have hFill : FreshRun diskDevice digestHash wideTree
      (fun _ _ => True) (startOf honestDisk) filled :=
    Lib.run_runAll fills (by decide +kernel)
  have hAge := spin_run false hPath (by decide) 1431655749 (by rw [hFilled]; decide)
  have hAge' := spin_run false hPath' (by decide) 1431655764 (by rw [hWrapped]; decide)
  rw [hFilled] at hAge
  rw [hWrapped] at hAge'
  have hLast : FreshRun diskDevice digestHash wideTree (fun _ _ => True) agedAgain halfUpdated :=
    Lib.run_runAll interrupted (by decide +kernel)
  exact ((hFill.trans hAge).snoc (.verify 0 false) ⟨by decide, trivial⟩).trans (hAge'.trans hLast)

/-
  A content that was not recorded is accepted, and after it,
  with no update in between, the one that was.
-/
theorem merkle_accepts_unrecorded :
    ∃ s s', FreshRun diskDevice digestHash wideTree (fun _ _ => True)
        (freshMounted digestHash wideTree (fun _ => false) honestBlocks honestDisk) s ∧
      s.recorded 1792 = false ∧
      (merkleVerifyLeaf diskDevice digestHash wideTree s.tree 1792 true).1 = true ∧
      FreshRun diskDevice digestHash wideTree (fun _ op => ∀ i b, op ≠ .update i b) s s' ∧
      (merkleVerifyLeaf diskDevice digestHash wideTree s'.tree 1792 false).1 = true := by
  rw [freshMounted_eq]
  have hReplay : FreshRun diskDevice digestHash wideTree
      (fun _ op => ∀ i b, op ≠ .update i b) halfUpdated
      (runAll freshStep halfUpdated replays) := by
    refine Lib.run_runAll replays ⟨⟨by decide, ?_⟩, ⟨by decide, ?_⟩, ⟨trivial, ?_⟩, trivial⟩
    all_goals
      intro i b hSame
      cases hSame
  exact ⟨halfUpdated, _, halfUpdated_run, by decide +kernel,
    by decide +kernel, hReplay, by decide +kernel⟩

end Horus.Storage
