import Mathlib.Logic.Relation
import Horus.Lib.Scan

/-
  In-place marking of everything below a key.

  Each cell holds a value with a key of its own and the key of
  its parent, and carries its mark inside the value. Marking
  seeds the children of a root key, then makes passes that
  promote each newly marked cell to done and mark its children,
  until a pass promotes nothing. No stack and no table is
  needed, so the result must not depend on the order of the
  cells or on how the keys are laid out.

  The main result says that the marked cells are exactly those
  whose chain of parent keys, through cells of the list,
  reaches the root key. It holds for cyclic and for duplicated
  keys.
-/

namespace Horus

open Function

namespace Lib

/-
  How a value carries its key, its parent's key and its mark.
  The laws say that marking changes nothing else that the
  passes read.
-/
structure Marking (V K : Type) where
  key : V → K
  up : V → K
  linked : V → Bool
  isNew : V → Bool
  isDone : V → Bool
  setNew : V → V
  setDone : V → V
  key_setNew : ∀ v, key (setNew v) = key v
  isNew_setNew : ∀ v, isNew (setNew v) = true
  isDone_setNew : ∀ v, isDone (setNew v) = false
  isNew_setDone : ∀ v, isNew (setDone v) = false
  isDone_setDone : ∀ v, isDone (setDone v) = true

namespace Marking

variable {A V K : Type}
variable [DecidableEq A] [DecidableEq K]
variable (M : Marking V K)

def marked (v : V) : Bool := M.isNew v || M.isDone v

/- Mark every unmarked linked cell whose parent key is `k`. -/
def markKids (cells : List A) (k : K) (m : A → V) : A → V :=
  updateWhere (fun v => !M.marked v && M.linked v && decide (M.up v = k)) M.setNew cells m

/-
  One pass over the remaining cells, with the flag that says
  whether something was promoted.
-/
def pass (cells : List A) : List A → (A → V) → Bool → (A → V) × Bool
  | [], m, progress => (m, progress)
  | a :: rest, m, progress =>
    if M.isNew (m a) then
      pass cells rest (M.markKids cells (M.key (m a)) (update m a (M.setDone (m a)))) true
    else pass cells rest m progress

/- Passes until one of them promotes nothing. -/
def passes (cells : List A) : Nat → (A → V) → A → V
  | 0, m => m
  | fuel + 1, m =>
    if (M.pass cells cells m false).2 then passes cells fuel (M.pass cells cells m false).1
    else (M.pass cells cells m false).1

/- Some listed cell has key `k` and parent key `k'`. -/
def Up (cells : List A) (m : A → V) (k k' : K) : Prop :=
  ∃ a ∈ cells, M.linked (m a) ∧ M.key (m a) = k ∧ M.up (m a) = k'

/- The chain of parent keys from `a` reaches `root`. -/
def Below (cells : List A) (m : A → V) (root : K) (a : A) : Prop :=
  a ∈ cells ∧ M.linked (m a) ∧ Relation.ReflTransGen (M.Up cells m) (M.up (m a)) root

/-
  Every cell is as it was before marking, or lies below the
  root and carries one of the two marks.
-/
def Sound (cells : List A) (m₀ : A → V) (root : K) (m : A → V) : Prop :=
  ∀ a, m a = m₀ a ∨ (M.Below cells m₀ root a ∧ (m a = M.setNew (m₀ a) ∨
        m a = M.setDone (M.setNew (m₀ a))))

/- The children of key `k` are marked. -/
def KidsMarked (cells : List A) (m₀ : A → V) (k : K) (m : A → V) : Prop :=
  ∀ a ∈ cells, M.linked (m₀ a) → M.up (m₀ a) = k → M.marked (m a)

/- The children of the root and of done cells are marked. -/
def Closed (cells : List A) (m₀ : A → V) (root : K) (m : A → V) : Prop :=
  M.KidsMarked cells m₀ root m ∧ ∀ b ∈ cells, M.isDone (m b) →
      M.KidsMarked cells m₀ (M.key (m₀ b)) m

/- No listed cell carries a mark yet. -/
def Unmarked (cells : List A) (m₀ : A → V) : Prop := ∀ a ∈ cells, M.marked (m₀ a) = false

/- Cells that are not done, which every promotion shrinks. -/
def undone (cells : List A) (m : A → V) : Finset A :=
  cells.toFinset.filter fun a => M.isDone (m a) = false

variable {M}
variable {cells : List A} {m₀ m : A → V} {root k : K} {a : A}

omit [DecidableEq K] in
@[simp] theorem marked_setNew (v : V) : M.marked (M.setNew v) = true := by
  simp [marked, M.isNew_setNew]

omit [DecidableEq K] in
@[simp] theorem marked_setDone (v : V) : M.marked (M.setDone v) = true := by
  simp [marked, M.isDone_setDone]

theorem markKids_apply (cells : List A) (k : K) (m : A → V) (a : A) :
    M.markKids cells k m a = if a ∈ cells ∧ M.marked (m a) = false ∧
          M.linked (m a) ∧ M.up (m a) = k then
        M.setNew (m a)
      else m a := by
  unfold markKids
  rw [updateWhere_apply]
  · simp [and_assoc]
  · intro v _ hAgain
    simp at hAgain

/- A mark survives the marking of more children. -/
theorem markKids_of_marked (hMarked : M.marked (m a)) : M.markKids cells k m a = m a := by
  rw [markKids_apply, if_neg]
  rintro ⟨_, hNot, _⟩
  simp [hMarked] at hNot

theorem isDone_of_isDone_markKids (hDone : M.isDone (M.markKids cells k m a)) : M.isDone (m a) := by
  rw [markKids_apply] at hDone
  split at hDone
  · simp [M.isDone_setNew] at hDone
  · exact hDone

/- A cell without a mark has not been touched. -/
omit [DecidableEq A] [DecidableEq K] in
theorem Sound.eq_of_unmarked (hSound : M.Sound cells m₀ root m)
    (hUnmarked : M.marked (m a) = false) : m a = m₀ a := by
  rcases hSound a with hSame | ⟨_, hNew | hDone⟩
  · exact hSame
  · simp [hNew] at hUnmarked
  · simp [hDone] at hUnmarked

/- A newly marked cell lies below the root. -/
omit [DecidableEq A] [DecidableEq K] in
theorem Sound.below_of_isNew (hSound : M.Sound cells m₀ root m)
    (hUnmarked : M.Unmarked cells m₀) (hMem : a ∈ cells) (hNew : M.isNew (m a)) :
    M.Below cells m₀ root a ∧ m a = M.setNew (m₀ a) := by
  rcases hSound a with hSame | ⟨hBelow, hEq | hEq⟩
  · have hMark := hUnmarked a hMem
    simp [marked, ← hSame, hNew] at hMark
  · exact ⟨hBelow, hEq⟩
  · simp [hEq, M.isNew_setDone] at hNew

theorem Sound.markKids (hSound : M.Sound cells m₀ root m)
    (hKey : Relation.ReflTransGen (M.Up cells m₀) k root) :
    M.Sound cells m₀ root (M.markKids cells k m) := by
  intro a
  rw [markKids_apply]
  split
  · rename_i hHit
    rcases hHit with ⟨hMem, hUnmarked, hLinked, hUp⟩
    rw [hSound.eq_of_unmarked hUnmarked] at hLinked hUp ⊢
    exact .inr ⟨⟨hMem, hLinked, hUp ▸ hKey⟩, .inl rfl⟩
  · exact hSound a

theorem kidsMarked_markKids (hSound : M.Sound cells m₀ root m) :
    M.KidsMarked cells m₀ k (M.markKids cells k m) := by
  intro a hMem hLinked hUp
  cases hMark : M.marked (m a) with
  | true => rw [markKids_of_marked hMark, hMark]
  | false =>
    have hSame := hSound.eq_of_unmarked hMark
    rw [markKids_apply, if_pos, marked_setNew]
    rw [hSame] at hMark ⊢
    exact ⟨hMem, hMark, hLinked, hUp⟩

theorem KidsMarked.markKids {k' : K} (hKids : M.KidsMarked cells m₀ k' m) :
    M.KidsMarked cells m₀ k' (M.markKids cells k m) := by
  intro a hMem hLinked hUp
  have hMark := hKids a hMem hLinked hUp
  rw [markKids_of_marked hMark, hMark]

section Promotion

variable (hSound : M.Sound cells m₀ root m) (hUnmarked : M.Unmarked cells m₀) (hMem : a ∈ cells)
    (hNew : M.isNew (m a))

include hSound hUnmarked hMem hNew

omit [DecidableEq K] in
theorem Sound.promote : M.Sound cells m₀ root (update m a (M.setDone (m a))) := by
  rcases hSound.below_of_isNew hUnmarked hMem hNew with ⟨hBelow, hEq⟩
  intro b
  rcases eq_or_ne b a with rfl | hb
  · rw [update_self, hEq]
    exact .inr ⟨hBelow, .inr rfl⟩
  · rw [update_of_ne hb]
    exact hSound b

/- The key of a cell below the root leads to the root. -/
omit [DecidableEq A] [DecidableEq K] in
theorem Sound.key_reaches : Relation.ReflTransGen (M.Up cells m₀) (M.key (m a)) root := by
  rcases hSound.below_of_isNew hUnmarked hMem hNew with ⟨⟨_, hLinked, hChain⟩, hEq⟩
  rw [hEq, M.key_setNew]
  exact Relation.ReflTransGen.head ⟨a, hMem, hLinked, rfl, rfl⟩ hChain

theorem Closed.promote (hClosed : M.Closed cells m₀ root m) :
    M.Closed cells m₀ root (M.markKids cells (M.key (m a)) (update m a (M.setDone (m a)))) := by
  have hEq := (hSound.below_of_isNew hUnmarked hMem hNew).2
  have hKids : ∀ k', M.KidsMarked cells m₀ k' m → M.KidsMarked cells m₀ k'
          (update m a (M.setDone (m a))) := by
    intro k' hOld b hb hLinked hUp
    rcases eq_or_ne b a with rfl | hba
    · simp
    · rw [update_of_ne hba]
      exact hOld b hb hLinked hUp
  refine ⟨(hKids _ hClosed.1).markKids, ?_⟩
  intro b hb hDone
  rcases eq_or_ne b a with rfl | hba
  · rw [hEq, M.key_setNew, ← hEq]
    exact kidsMarked_markKids (hSound.promote hUnmarked hMem hNew)
  · have hOld := isDone_of_isDone_markKids hDone
    rw [update_of_ne hba] at hOld
    exact (hKids _ (hClosed.2 b hb hOld)).markKids

/- A promotion leaves one cell fewer to promote. -/
theorem undone_promote_ssubset :
    M.undone cells (M.markKids cells (M.key (m a)) (update m a (M.setDone (m a)))) ⊂
      M.undone cells m := by
  have hEq := (hSound.below_of_isNew hUnmarked hMem hNew).2
  refine Finset.ssubset_iff_subset_ne.mpr ⟨?_, ?_⟩
  · intro b hb
    simp only [undone, Finset.mem_filter, List.mem_toFinset] at hb ⊢
    refine ⟨hb.1, ?_⟩
    by_contra hDone
    simp only [Bool.not_eq_false] at hDone
    have hba : b ≠ a := by
      rintro rfl
      simp [hEq, M.isDone_setNew] at hDone
    have hMark : M.marked (update m a (M.setDone (m a)) b) := by
      simp [update_of_ne hba, marked, hDone]
    rw [markKids_of_marked hMark, update_of_ne hba, hDone] at hb
    simp at hb
  · intro hSame
    have hIn : a ∈ M.undone cells m := by
      simp [undone, hMem, hEq, M.isDone_setNew]
    rw [← hSame] at hIn
    have hMark : M.marked (update m a (M.setDone (m a)) a) := by
      simp
    simp only [undone, Finset.mem_filter, markKids_of_marked hMark, update_self,
      M.isDone_setDone] at hIn
    simp at hIn

end Promotion

/- What a pass leaves behind. -/
structure PassSpec (M : Marking V K) (cells rest : List A) (m₀ : A → V) (root : K) (m : A → V)
    (progress : Bool) (r : (A → V) × Bool) : Prop where
  sound : M.Sound cells m₀ root r.1
  closed : M.Closed cells m₀ root r.1
  shrinks : (M.undone cells r.1).card ≤ (M.undone cells m).card
  promoted : r.2 = true → progress = false → (M.undone cells r.1).card < (M.undone cells m).card
  settled : r.2 = false → r.1 = m ∧ ∀ b ∈ rest, M.isNew (m b) = false

theorem pass_spec (hUnmarked : M.Unmarked cells m₀) (rest : List A)
    (hRest : ∀ b ∈ rest, b ∈ cells) (m : A → V) (progress : Bool) (hSound : M.Sound cells m₀ root m)
    (hClosed : M.Closed cells m₀ root m) : PassSpec M cells rest m₀ root m progress
      (M.pass cells rest m progress) := by
  induction rest generalizing m progress with
  | nil =>
    refine ⟨hSound, hClosed, le_rfl, ?_, ?_⟩
    · intro hSet hClear
      simp [pass, hClear] at hSet
    · simp [pass]
  | cons a rest ih =>
  have hMem := hRest a (by simp)
  have hRest' : ∀ b ∈ rest, b ∈ cells := fun b hb => hRest b (by simp [hb])
  unfold pass
  split
  · rename_i hNew
    have hLess := Finset.card_lt_card (undone_promote_ssubset hSound hUnmarked hMem hNew)
    have hNext := ih hRest' _ true ((hSound.promote hUnmarked hMem hNew).markKids
        (hSound.key_reaches hUnmarked hMem hNew))
      (hClosed.promote hSound hUnmarked hMem hNew)
    have hFlag : ∀ (l : List A) (n : A → V), (M.pass cells l n true).2 = true := by
      intro l
      induction l with
      | nil => intro n; rfl
      | cons b l ihl =>
        intro n
        unfold pass
        split <;> exact ihl _
    refine ⟨hNext.sound, hNext.closed, le_trans hNext.shrinks hLess.le, ?_, ?_⟩
    · intro _ _
      exact lt_of_le_of_lt hNext.shrinks hLess
    · intro hSettled
      rw [hFlag] at hSettled
      simp at hSettled
  · rename_i hNew
    have hNext := ih hRest' m progress hSound hClosed
    refine ⟨hNext.sound, hNext.closed, hNext.shrinks, hNext.promoted, ?_⟩
    intro hSettled
    rcases hNext.settled hSettled with ⟨hSame, hNone⟩
    refine ⟨hSame, ?_⟩
    intro b hb
    rcases List.mem_cons.mp hb with rfl | hb
    · simpa using hNew
    · exact hNone b hb

/-
  With one pass more than there are cells to promote, the loop
  stops because nothing is left, not because it ran out.
-/
theorem passes_spec (hUnmarked : M.Unmarked cells m₀) (fuel : Nat)
    (m : A → V) (hFuel : (M.undone cells m).card < fuel) (hSound : M.Sound cells m₀ root m)
    (hClosed : M.Closed cells m₀ root m) : M.Sound cells m₀ root (M.passes cells fuel m) ∧
      M.Closed cells m₀ root (M.passes cells fuel m) ∧ ∀ b ∈ cells,
          M.isNew (M.passes cells fuel m b) = false := by
  induction fuel generalizing m with
  | zero => omega
  | succ _ ih =>
  have hPass := pass_spec hUnmarked cells (fun b hb => hb) m false hSound hClosed
  unfold passes
  cases hFlag : (M.pass cells cells m false).2 with
  | true =>
    have hLess := hPass.promoted hFlag rfl
    exact ih _ (by omega) hPass.sound hPass.closed
  | false =>
    rcases hPass.settled hFlag with ⟨hSame, hNone⟩
    refine ⟨hPass.sound, hPass.closed, ?_⟩
    intro b hb
    simpa [hSame] using hNone b hb

/- When nothing is newly marked, everything below is done. -/
omit [DecidableEq A] [DecidableEq K] in
theorem Closed.isDone_of_below (hClosed : M.Closed cells m₀ root m)
    (hSettled : ∀ b ∈ cells, M.isNew (m b) = false)
    (hBelow : M.Below cells m₀ root a) : M.isDone (m a) := by
  have hDone : ∀ b ∈ cells, M.marked (m b) → M.isDone (m b) := by
    intro b hb hMark
    simpa [marked, hSettled b hb] using hMark
  rcases hBelow with ⟨hMem, hLinked, hChain⟩
  -- Induction from the root end of the chain of keys.
  have hKids : ∀ k', Relation.ReflTransGen (M.Up cells m₀) k' root →
        M.KidsMarked cells m₀ k' m := by
    intro k' hReach
    induction hReach using Relation.ReflTransGen.head_induction_on with
    | refl => exact hClosed.1
    | head hStep _ ih =>
      rcases hStep with ⟨b, hb, hbLinked, rfl, rfl⟩
      exact hClosed.2 b hb (hDone b hb (ih b hb hbLinked rfl))
  exact hDone a hMem (hKids _ hChain a hMem hLinked rfl)

/- With the children of the root marked nothing is missing. -/
theorem closed_markKids (hUnmarked : M.Unmarked cells m₀) :
    M.Closed cells m₀ root (M.markKids cells root m₀) := by
  have hStart : M.Sound cells m₀ root m₀ := fun b => .inl rfl
  refine ⟨kidsMarked_markKids hStart, ?_⟩
  intro b hb hDone
  have hOld := isDone_of_isDone_markKids hDone
  have hMark := hUnmarked b hb
  simp [marked, hOld] at hMark

omit [DecidableEq K] in
theorem undone_card_le (cells : List A) (m : A → V) : (M.undone cells m).card ≤ cells.length :=
  le_trans (Finset.card_filter_le _ _) (List.toFinset_card_le cells)

/-
  Seeding the children of `root` and passing to the end marks
  exactly the cells below `root`.
-/
theorem passes_apply (hUnmarked : M.Unmarked cells m₀) (fuel : Nat)
    (hFuel : cells.length < fuel) (a : A) :
    (M.Below cells m₀ root a → M.passes cells fuel (M.markKids cells root m₀) a =
        M.setDone (M.setNew (m₀ a))) ∧
    (¬ M.Below cells m₀ root a → M.passes cells fuel (M.markKids cells root m₀) a = m₀ a) := by
  have hStart : M.Sound cells m₀ root m₀ := fun b => .inl rfl
  have hSeeded := hStart.markKids (Relation.ReflTransGen.refl (a := root))
  have hCard : (M.undone cells (M.markKids cells root m₀)).card < fuel :=
    lt_of_le_of_lt (undone_card_le cells _) hFuel
  rcases passes_spec hUnmarked fuel _ hCard hSeeded
      (closed_markKids hUnmarked) with ⟨hSound, hFinal, hSettled⟩
  constructor
  · intro hBelow
    have hDone := hFinal.isDone_of_below hSettled hBelow
    rcases hSound a with hSame | ⟨_, hNew | hEq⟩
    · have hMark := hUnmarked a hBelow.1
      simp [marked, ← hSame, hDone] at hMark
    · simp [hNew, M.isDone_setNew] at hDone
    · exact hEq
  · intro hNot
    rcases hSound a with hSame | ⟨hBelow, _⟩
    · exact hSame
    · exact absurd hBelow hNot

/- Every cell is as it was or is a listed one with a mark. -/
def MarksOnly (M : Marking V K) (cells : List A) (m₀ m : A → V) : Prop :=
  ∀ a, m a = m₀ a ∨ (a ∈ cells ∧ M.marked (m a) = true)

theorem MarksOnly.markKids (hMarks : M.MarksOnly cells m₀ m) (k : K) :
    M.MarksOnly cells m₀ (M.markKids cells k m) := by
  intro a
  rw [markKids_apply]
  split
  · rename_i hKid
    exact .inr ⟨hKid.1, marked_setNew _⟩
  · exact hMarks a

theorem MarksOnly.pass (rest : List A) (progress : Bool)
    (hRest : ∀ b ∈ rest, b ∈ cells) (hMarks : M.MarksOnly cells m₀ m) :
    M.MarksOnly cells m₀ (M.pass cells rest m progress).1 := by
  induction rest generalizing m progress with
  | nil => exact hMarks
  | cons b rest ih =>
  have hLater : ∀ c ∈ rest, c ∈ cells := fun c hc => hRest c (List.mem_cons_of_mem b hc)
  unfold Marking.pass
  split
  · refine ih true hLater (MarksOnly.markKids ?_ _)
    intro a
    rcases eq_or_ne a b with rfl | hEq
    · refine .inr ⟨hRest a List.mem_cons_self, ?_⟩
      rw [update_self, marked_setDone]
    · rw [update_of_ne hEq]
      exact hMarks a
  · exact ih progress hLater hMarks

theorem MarksOnly.passes (fuel : Nat) (hMarks : M.MarksOnly cells m₀ m) :
    M.MarksOnly cells m₀ (M.passes cells fuel m) := by
  induction fuel generalizing m with
  | zero => exact hMarks
  | succ _ ih =>
  have hPass := hMarks.pass cells false (fun _ hb => hb)
  unfold Marking.passes
  split
  · exact ih hPass
  · exact hPass

end Marking

end Lib

end Horus
