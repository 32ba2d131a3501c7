/-
  Runs of a system whose steps are labelled.

  `apply` carries out a label and `Ok` says when it may be
  carried out. A property that every such step keeps holds
  along every run.
-/

namespace Horus.Lib

section Runs

variable {S A : Type}

/- The states reached from `s` by steps that `Ok` allows. -/
inductive Run (apply : S → A → S) (Ok : S → A → Prop) : S → S → Prop where
  | refl (s : S) : Run apply Ok s s
  | step {s s' : S} (a : A) (hOk : Ok s a) (hRun : Run apply Ok (apply s a) s') : Run apply Ok s s'

variable {apply : S → A → S} {Ok : S → A → Prop} {s s' s'' : S}

theorem Run.trans (hRun : Run apply Ok s s') (hRun' : Run apply Ok s' s'') :
    Run apply Ok s s'' := by
  induction hRun with
  | refl => exact hRun'
  | step a hOk _ ih => exact Run.step a hOk (ih hRun')

theorem Run.single (a : A) (hOk : Ok s a) : Run apply Ok s (apply s a) :=
  Run.step a hOk (Run.refl _)

theorem Run.snoc (hRun : Run apply Ok s s') (a : A) (hOk : Ok s' a) : Run apply Ok s (apply s' a) :=
  hRun.trans (Run.single a hOk)

/- The invariant rule. -/
theorem Run.invariant (I : S → Prop)
    (hStep : ∀ s a, I s → Ok s a → I (apply s a)) (hRun : Run apply Ok s s')
    (hInit : I s) : I s' := by
  induction hRun with
  | refl => exact hInit
  | step a hOk _ ih => exact ih (hStep _ a hInit hOk)

variable (apply Ok)

def runAll (s : S) : List A → S
  | [] => s
  | a :: as => runAll (apply s a) as

theorem runAll_append (s : S) (as bs : List A) : runAll apply s (as ++ bs) =
      runAll apply (runAll apply s as) bs := by
  induction as generalizing s with
  | nil => rfl
  | cons a _ ih => exact ih (apply s a)

/- Each step of the list is allowed in its turn. -/
def AllOk (s : S) : List A → Prop
  | [] => True
  | a :: as => Ok s a ∧ AllOk (apply s a) as

instance AllOk.decidable [∀ s a, Decidable (Ok s a)] : ∀ s as, Decidable (AllOk apply Ok s as)
  | _, [] => inferInstanceAs (Decidable True)
  | s, a :: as =>
    have := AllOk.decidable (apply s a) as
    inferInstanceAs (Decidable (Ok s a ∧ AllOk apply Ok (apply s a) as))

theorem run_runAll {apply : S → A → S} {Ok : S → A → Prop}
    {s : S} (as : List A) (hOk : AllOk apply Ok s as) : Run apply Ok s (runAll apply s as) := by
  induction as generalizing s with
  | nil => exact Run.refl s
  | cons a _ ih => exact Run.step a hOk.1 (ih hOk.2)

end Runs

end Horus.Lib
