import Mathlib.Logic.Relation

/-
  Removing nodes from a relation by joining up the paths that
  run through them.

  A path between two kept nodes is a path of the contracted
  relation, in which each step may pass through any number of
  removed nodes. Without the joining up, a path between kept
  nodes survives when no removed node lies inside a path.
-/

namespace Horus

namespace Lib

variable {K : Type}
variable {r : K → K → Prop} {D : K → Prop}
variable {j k root : K}

open Relation

/- A path all of whose nodes but the last are removed. -/
def Through (r : K → K → Prop) (D : K → Prop) : K → K → Prop := ReflTransGen fun x y => D x ∧ r x y

/- One step between kept nodes, over removed ones. -/
def Contract (r : K → K → Prop) (D : K → Prop) (k k' : K) : Prop :=
  ¬ D k ∧ ∃ j, r k j ∧ Through r D j k' ∧ ¬ D k'

theorem Through.reaches (hPath : Through r D k j) : ReflTransGen r k j :=
  ReflTransGen.mono (fun _ _ hStep => hStep.2) _ _ hPath

theorem Contract.reaches (hStep : Contract r D k j) : ReflTransGen r k j := by
  rcases hStep with ⟨_, next, hEdge, hPath, _⟩
  exact ReflTransGen.head hEdge hPath.reaches

/- A path that starts at a kept node does not move. -/
theorem Through.eq_of_kept (hPath : Through r D k j) (hKept : ¬ D k) : k = j := by
  rcases ReflTransGen.cases_head hPath with hEq | hStep
  · exact hEq
  · rcases hStep with ⟨_, ⟨hRemoved, _⟩, _⟩
    exact absurd hRemoved hKept

/- When removed nodes have one successor, the exit is unique. -/
theorem Through.unique {j' : K}
    (hOne : ∀ x y z, D x → r x y → r x z → y = z) (hPath : Through r D k j)
    (hKept : ¬ D j) (hPath' : Through r D k j') (hKept' : ¬ D j') : j = j' := by
  induction hPath using ReflTransGen.head_induction_on with
  | refl => exact Through.eq_of_kept hPath' hKept
  | head hStep _ ih =>
  rcases hStep with ⟨hRemoved, hEdge⟩
  rcases ReflTransGen.cases_head hPath' with hEq | ⟨next, ⟨_, hEdge'⟩, hRest⟩
  · subst hEq
    exact absurd hRemoved hKept'
  · rw [hOne _ _ _ hRemoved hEdge hEdge'] at ih
    exact ih hRest

/-
  A kept node is reached exactly when it is reached from the
  first kept node on the way.
-/
theorem reaches_iff_contract (hRoot : ¬ D root) : ReflTransGen r k root ↔
      ∃ first, Through r D k first ∧ ¬ D first ∧ ReflTransGen (Contract r D) first root := by
  constructor
  · intro hReach
    induction hReach using ReflTransGen.head_induction_on with
    | refl => exact ⟨root, ReflTransGen.refl, hRoot, ReflTransGen.refl⟩
    | @head x y hEdge _ ih =>
    rcases ih with ⟨first, hPath, hKept, hRest⟩
    by_cases hRemoved : D x
    · exact ⟨first, ReflTransGen.head ⟨hRemoved, hEdge⟩ hPath, hKept, hRest⟩
    · exact ⟨x, ReflTransGen.refl, hRemoved, ReflTransGen.head
          ⟨hRemoved, y, hEdge, hPath, hKept⟩ hRest⟩
  · rintro ⟨first, hPath, _, hRest⟩
    refine hPath.reaches.trans ?_
    clear hRoot
    induction hRest with
    | refl => exact ReflTransGen.refl
    | tail _ hStep ih => exact ih.trans hStep.reaches

/- A removed node that ends every path through it. -/
theorem transGen_keep {Keep : K → Prop} (hGap : ∀ x a y, Keep x → r x a → ¬ Keep a → ¬ r a y)
    (hRoot : Keep root) (hReach : TransGen r k root) (hKept : Keep k) :
    TransGen (fun x y => Keep x ∧ Keep y ∧ r x y) k root := by
  induction hReach using TransGen.head_induction_on with
  | single hEdge => exact TransGen.single ⟨hKept, hRoot, hEdge⟩
  | @head x y hEdge hRest ih =>
  rcases TransGen.head'_iff.mp hRest with ⟨z, hNext, _⟩
  have hMid : Keep y := by
    apply Classical.byContradiction
    intro hGone
    exact hGap x y z hKept hEdge hGone hNext
  exact TransGen.head ⟨hKept, hMid, hEdge⟩ (ih hMid)

/- A new node with one edge out of it adds its own paths. -/
theorem transGen_addSource {r' : K → K → Prop} {x w : K}
    (hEdges : ∀ u v, r' u v → r u v ∨ u = x ∧ v = w) (hNew : ∀ u, ¬ r u x ∧ ¬ r x u) (hNe : w ≠ x)
    (hReach : TransGen r' j k) : (j ≠ x ∧ TransGen r j k) ∨ (j = x ∧ (k = w ∨ TransGen r w k)) := by
  induction hReach using TransGen.head_induction_on with
  | @single j hEdge =>
    rcases hEdges _ _ hEdge with hOld | ⟨hJ, hK⟩
    · refine .inl ⟨?_, TransGen.single hOld⟩
      rintro rfl
      exact (hNew _).2 hOld
    · exact .inr ⟨hJ, .inl hK⟩
  | @head j y hEdge _ ih =>
  rcases hEdges _ _ hEdge with hOld | ⟨hJ, rfl⟩
  · rcases ih with ⟨_, hRest⟩ | ⟨rfl, _⟩
    · refine .inl ⟨?_, TransGen.head hOld hRest⟩
      rintro rfl
      exact (hNew _).2 hOld
    · exact absurd hOld (hNew _).1
  · rcases ih with ⟨_, hRest⟩ | ⟨hY, _⟩
    · exact .inr ⟨hJ, .inr hRest⟩
    · exact absurd hY hNe

end Lib

end Horus
