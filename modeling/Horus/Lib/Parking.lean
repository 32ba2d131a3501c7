import Mathlib.Logic.Function.Basic

/-
  Tasks that wait on objects, where an object has room for the
  name of one waiter.

  A task first intends to wait and then parks. Whoever has
  something for an object wakes the task that the object names;
  a task can also be woken by its own name. An object may hold
  something already, which is its stock.

  Two properties are kept under one condition each. A name on
  an object is that of a task parked there, unless the task is
  gone, if no task is born whose name is still on an object.
  A parked task is named by its object, if no task parks where
  another is parked.

  Main declarations:
    * `Phase`, `Lot`
    * `Turn`, `Turn.apply`, `Turn.Ok`
    * `Linked`, `Linked.turn`
    * `Found`, `Found.turn`
-/

namespace Horus.Lib

open Function (eq_update_iff update update_of_ne update_self)

/-
  What a task is doing. A parked task waits on an object, or
  on none when its object has been forgotten; a task that is
  away waits for something that is not an object.
-/
inductive Phase (O : Type) where
  | gone
  | active
  | away
  | parked (on : Option O)
deriving DecidableEq

@[ext]
structure Lot (T O : Type) where
  phase : T → Phase O
  pending : T → Bool
  present : O → Bool
  stock : O → Bool
  link : O → Option T

inductive Turn (T O : Type) where
  | intend (t : T)
  | cancel (t : T)
  | park (t : T) (o : O)
  | leave (t : T)
  | resume (t : T)
  | back (t : T)
  | hand (o : O) (t : T)
  | pull (t : T)
  | die (t : T)
  | born (t : T) (alive : Bool)
  | make (o : O)
  | remove (o : O)
  | restock (o : O) (b : Bool)

section Parking

variable {T O : Type}

variable {t t' : T} {link : O → Option T} {phase : Phase O} {o : O}

----
-- The Two Properties
----

section Properties

variable {L : Lot T O}

/- A name on an object belongs to a task parked there. -/
structure Linked (L : Lot T O) : Prop where
  idle : ∀ o t, L.link o = some t → L.pending t = false
  there : ∀ o t, L.link o = some t → L.phase t ≠ .gone → L.phase t = .parked (some o)

/- Nothing names a task that is neither gone nor parked. -/
theorem Linked.not_named (hLinked : Linked L)
    (hHere : L.phase t ≠ .gone) (hPhase : ∀ o, L.phase t ≠ .parked (some o))
    (o : O) : L.link o ≠ some t :=
  fun hLink => hPhase o (hLinked.there o t hLink hHere)

theorem Linked.not_named_of_pending (hLinked : Linked L)
    (hPending : L.pending t = true) (o : O) : L.link o ≠ some t := by
  intro hLink
  rw [hLinked.idle o t hLink] at hPending
  cases hPending

variable {L' : Lot T O}

/- Changes to a task that no object names. -/
theorem Linked.change (hLinked : Linked L) (hFree : ∀ o, L.link o ≠ some t)
    (hPhase : ∀ t' ≠ t, L'.phase t' = L.phase t')
    (hPending : ∀ t' ≠ t, L'.pending t' = L.pending t') (hLink : L'.link = L.link) : Linked L' where
  idle := by
    intro o t' hNamed
    rw [hLink] at hNamed
    have hNe : t' ≠ t := fun hEq => hFree o (hEq ▸ hNamed)
    rw [hPending t' hNe]
    exact hLinked.idle o t' hNamed
  there := by
    intro o t' hNamed hHere
    rw [hLink] at hNamed
    have hNe : t' ≠ t := fun hEq => hFree o (hEq ▸ hNamed)
    rw [hPhase t' hNe] at hHere ⊢
    exact hLinked.there o t' hNamed hHere

/- A task is woken and the only name of it is taken away. -/
theorem Linked.wake [DecidableEq T] (hLinked : Linked L)
    (hLink : ∀ o t', link o = some t' → L.link o = some t' ∧ t' ≠ t) : Linked
      { L with phase := update L.phase t .active, link := link } where
  idle := fun o t' hNamed => hLinked.idle o t' (hLink o t' hNamed).1
  there := by
    intro o t' hNamed hHere
    rcases hLink o t' hNamed with ⟨hOld, hNe⟩
    dsimp only at hHere ⊢
    rw [update_of_ne hNe] at hHere ⊢
    exact hLinked.there o t' hOld hHere

/- A parked task is named by its object, which is empty. -/
def Found (L : Lot T O) : Prop :=
  ∀ t p, L.phase t = .parked p → ∃ o, p = some o ∧ L.present o = true ∧
      L.stock o = false ∧ L.link o = some t

/- Changes that leave the objects alone and park no one. -/
theorem Found.change (hFound : Found L)
    (hPhase : ∀ t p, L'.phase t = .parked p → L.phase t = .parked p)
    (hPresent : L'.present = L.present) (hStock : L'.stock = L.stock)
    (hLink : ∀ t o, L'.phase t = .parked (some o) → L.link o = some t → L'.link o = some t) :
    Found L' := by
  intro t p hParked
  rcases hFound t p (hPhase t p hParked) with ⟨o, rfl, hHere, hEmpty, hNamed⟩
  refine ⟨o, rfl, ?_, ?_, hLink t o hParked hNamed⟩
  · rw [hPresent]; exact hHere
  · rw [hStock]; exact hEmpty

/- A task that is given a phase other than parked. -/
theorem parked_of_update [DecidableEq T] (hNot : ∀ p, phase ≠ .parked p) {p : Option O}
    (hParked : update L.phase t phase t' = .parked p) : t' ≠ t ∧ L.phase t' = .parked p := by
  have hNe : t' ≠ t := by
    rintro rfl
    rw [update_self] at hParked
    exact hNot p hParked
  rw [update_of_ne hNe] at hParked
  exact ⟨hNe, hParked⟩

theorem Found.unpark [DecidableEq T] (hFound : Found L) {pending : T → Bool}
    (hNot : ∀ p, phase ≠ .parked p) : Found
      { L with phase := update L.phase t phase, pending := pending } :=
  hFound.change (fun _ _ hParked => (parked_of_update hNot hParked).2)
    rfl rfl (fun _ _ _ hNamed => hNamed)

/- A task is woken and no other name is taken away. -/
theorem Found.wake [DecidableEq T] (hFound : Found L)
    (hLink : ∀ o t', t' ≠ t → L.link o = some t' → link o = some t') : Found
      { L with phase := update L.phase t .active, link := link } := by
  have hNot : ∀ p, (Phase.active : Phase O) ≠ .parked p := nofun
  refine hFound.change ?_ rfl rfl ?_
  · intro t' p hParked
    exact (parked_of_update hNot hParked).2
  · intro t' o hParked hNamed
    exact hLink o t' (parked_of_update hNot hParked).1 hNamed

/- An object that nobody is parked at loses its name. -/
theorem Found.reset [DecidableEq O] (hFound : Found L) {b : Bool}
    (hNobody : ∀ t, L.phase t ≠ .parked (some o)) : Found
      { L with
        present := update L.present o b
        stock := update L.stock o false
        link := update L.link o none } := by
  intro t p hParked
  rcases hFound t p hParked with ⟨o', rfl, hHere, hEmpty, hNamed⟩
  have hObj : o' ≠ o := by
    rintro rfl
    exact hNobody t hParked
  refine ⟨o', rfl, ?_, ?_, ?_⟩ <;> dsimp only <;> rw [update_of_ne hObj] <;> assumption

end Properties

variable [DecidableEq T] [DecidableEq O]

/- The names after a task is woken by its own name. -/
def Lot.unlink (L : Lot T O) (t : T) (o : O) : Option T :=
  if L.phase t = .parked (some o) ∧ L.link o = some t then none else L.link o

def Turn.apply (L : Lot T O) : Turn T O → Lot T O
  | .intend t => { L with pending := update L.pending t true }
  | .cancel t => { L with pending := update L.pending t false }
  | .park t o =>
    { L with
      phase := update L.phase t (.parked (some o))
      pending := update L.pending t false
      link := update L.link o (some t) }
  | .leave t =>
    { L with
      phase := update L.phase t .away
      pending := update L.pending t false }
  | .resume t =>
    { L with
      phase := update L.phase t .active
      pending := update L.pending t false }
  | .back t => { L with phase := update L.phase t .active }
  | .hand o t => { L with phase := update L.phase t .active, link := update L.link o none }
  | .pull t => { L with phase := update L.phase t .active, link := L.unlink t }
  | .die t => { L with phase := update L.phase t .gone }
  | .born t alive =>
    { L with
      phase := update L.phase t (if alive then .active else .gone)
      pending := update L.pending t false }
  | .make o =>
    { L with
      present := update L.present o true
      stock := update L.stock o false
      link := update L.link o none }
  | .remove o =>
    { L with
      present := update L.present o false
      stock := update L.stock o false
      link := update L.link o none }
  | .restock o b => { L with stock := update L.stock o b }

/- A task is parked at `o`, is named there, and `o` is empty. -/
def Lot.Receptive (L : Lot T O) (o : O) : Prop :=
  L.stock o = false ∧ ∃ t, L.link o = some t ∧ L.phase t = .parked (some o)

def Turn.Ok (L : Lot T O) : Turn T O → Prop
  | .intend t => L.phase t = .active ∧ L.pending t = false
  | .cancel t => L.pending t = true
  | .park t o => L.pending t = true ∧ L.present o = true ∧ L.stock o = false
  | .leave t | .resume t => L.pending t = true
  | .back t => L.phase t = .away
  | .hand o t => L.link o = some t ∧ L.phase t ≠ .gone
  | .pull t => ∃ p, L.phase t = .parked p
  | .die _ => True
  | .born t _ => L.phase t = .gone
  | .make o => L.present o = false
  | .remove o => ∀ t, L.link o = some t → L.phase t = .gone
  | .restock o b => b = true → L.stock o = true ∨ ¬ L.Receptive o

theorem Lot.unlink_eq_some {L : Lot T O} (hLink : L.unlink t o = some t') : L.link o = some t' ∧
      ¬ (t' = t ∧ L.phase t = .parked (some o)) := by
  unfold Lot.unlink at hLink
  split at hLink
  · cases hLink
  rename_i hNot
  refine ⟨hLink, ?_⟩
  rintro ⟨rfl, hPhase⟩
  exact hNot ⟨hPhase, hLink⟩

theorem Lot.unlink_of_ne {L : Lot T O} (hLink : L.link o = some t') (hNe : t' ≠ t) :
    L.unlink t o = some t' := by
  unfold Lot.unlink
  rw [if_neg]
  · exact hLink
  · rintro ⟨_, hThere⟩
    rw [hLink] at hThere
    exact hNe (Option.some.inj hThere)

theorem Lot.unlink_nowhere {L : Lot T O} (hPhase : L.phase t = .parked none) :
    L.unlink t = L.link := by
  funext o
  simp [Lot.unlink, hPhase]

theorem Lot.unlink_parked {L : Lot T O} (hPhase : L.phase t = .parked (some o)) :
    L.unlink t = update L.link o (if L.link o = some t then none else L.link o) :=
  eq_update_iff.mpr ⟨by simp [Lot.unlink, hPhase],
    fun o' hNe => by simp [Lot.unlink, hPhase, hNe.symm]⟩

----
-- Names Are Those of Parked Tasks
----

/- No task is born while its name is on an object. -/
def Turn.Unnamed (L : Lot T O) (turn : Turn T O) : Prop :=
  ∀ t alive, turn = .born t alive → ∀ o, L.link o ≠ some t

section Linked

variable {L : Lot T O}

theorem Linked.turn (hLinked : Linked L) (turn : Turn T O) (hOk : turn.Ok L)
    (hUnnamed : turn.Unnamed L) : Linked (turn.apply L) := by
  cases turn with
  | intend t =>
    refine hLinked.change (t := t) (hLinked.not_named ?_ ?_) ?_ ?_ rfl
    · rw [hOk.1]; nofun
    · rw [hOk.1]; nofun
    · intro t' _; rfl
    · intro t' hNe; exact update_of_ne hNe _ _
  | cancel t =>
    refine hLinked.change (t := t) (hLinked.not_named_of_pending hOk) ?_ ?_ rfl
    · intro t' _; rfl
    · intro t' hNe; exact update_of_ne hNe _ _
  | park t o =>
    have hFree := hLinked.not_named_of_pending hOk.1
    constructor
    · intro o' t' hNamed
      dsimp only [Turn.apply] at hNamed ⊢
      by_cases hTask : t' = t
      · rw [hTask, update_self]
      rw [update_of_ne hTask]
      by_cases hObj : o' = o
      · rw [hObj, update_self] at hNamed
        exact absurd (Option.some.inj hNamed).symm hTask
      · rw [update_of_ne hObj] at hNamed
        exact hLinked.idle o' t' hNamed
    · intro o' t' hNamed hHere
      dsimp only [Turn.apply] at hNamed hHere ⊢
      by_cases hObj : o' = o
      · rw [hObj, update_self] at hNamed
        cases hNamed
        rw [update_self, hObj]
      · rw [update_of_ne hObj] at hNamed
        have hTask : t' ≠ t := fun hEq => hFree o' (hEq ▸ hNamed)
        rw [update_of_ne hTask] at hHere ⊢
        exact hLinked.there o' t' hNamed hHere
  | leave t | resume t =>
    refine hLinked.change (t := t) (hLinked.not_named_of_pending hOk) ?_ ?_ rfl
    · intro t' hNe; exact update_of_ne hNe _ _
    · intro t' hNe; exact update_of_ne hNe _ _
  | back t =>
    have hAway : L.phase t = .away := hOk
    refine hLinked.change (t := t) (hLinked.not_named ?_ ?_) ?_ ?_ rfl
    · rw [hAway]; nofun
    · rw [hAway]; nofun
    · intro t' hNe; exact update_of_ne hNe _ _
    · intro t' _; rfl
  | hand o t =>
    have hThere := hLinked.there o t hOk.1 hOk.2
    apply hLinked.wake
    intro o' t' hNamed
    have hObj : o' ≠ o := by
      rintro rfl
      rw [update_self] at hNamed
      cases hNamed
    rw [update_of_ne hObj] at hNamed
    refine ⟨hNamed, ?_⟩
    rintro rfl
    have hOther := hLinked.there o' t' hNamed hOk.2
    rw [hThere] at hOther
    cases hOther
    exact hObj rfl
  | pull =>
    rcases hOk with ⟨p, hPhase⟩
    apply hLinked.wake
    intro o t' hNamed
    rcases Lot.unlink_eq_some hNamed with ⟨hOld, hNot⟩
    refine ⟨hOld, fun hEq => hNot ⟨hEq, ?_⟩⟩
    subst hEq
    apply hLinked.there o t' hOld
    rw [hPhase]; nofun
  | die t =>
    constructor
    · exact hLinked.idle
    intro o t' hNamed hHere
    dsimp only [Turn.apply] at hNamed hHere ⊢
    have hNe : t' ≠ t := by
      rintro rfl
      exact hHere (update_self _ _ _)
    rw [update_of_ne hNe] at hHere ⊢
    exact hLinked.there o t' hNamed hHere
  | born t alive =>
    refine hLinked.change (t := t) (hUnnamed t alive rfl) ?_ ?_ rfl
    · intro t' hNe; exact update_of_ne hNe _ _
    · intro t' hNe; exact update_of_ne hNe _ _
  | make o | remove o =>
    have hOld : ∀ o' t', (update L.link o none) o' = some t' → L.link o' = some t' := by
      intro o' t' hNamed
      by_cases hObj : o' = o
      · rw [hObj, update_self] at hNamed
        cases hNamed
      · rwa [update_of_ne hObj] at hNamed
    constructor
    · exact fun o' t' hNamed => hLinked.idle o' t' (hOld o' t' hNamed)
    · exact fun o' t' hNamed => hLinked.there o' t' (hOld o' t' hNamed)
  | restock => exact ⟨hLinked.idle, hLinked.there⟩

end Linked

/- No task parks where another one is parked. -/
def Turn.NoRival (L : Lot T O) (turn : Turn T O) : Prop :=
  ∀ t o, turn = .park t o → ∀ t' ≠ t, L.phase t' ≠ .parked (some o)

section Found

variable {L : Lot T O}

theorem Found.turn (hFound : Found L) (turn : Turn T O) (hOk : turn.Ok L)
    (hNoRival : turn.NoRival L) : Found (turn.apply L) := by
  cases turn with
  | intend t | cancel t =>
    exact hFound.change (fun _ _ hParked => hParked) rfl rfl (fun _ _ _ hNamed => hNamed)
  | park t o =>
    intro t' p hParked
    dsimp only [Turn.apply] at hParked ⊢
    rcases eq_or_ne t' t with rfl | hTask
    · rw [update_self] at hParked
      cases hParked
      exact ⟨o, rfl, hOk.2.1, hOk.2.2, update_self _ _ _⟩
    rw [update_of_ne hTask] at hParked
    rcases hFound t' p hParked with ⟨o', rfl, hHere, hEmpty, hNamed⟩
    have hObj : o' ≠ o := by
      rintro rfl
      exact hNoRival t o' rfl t' hTask hParked
    refine ⟨o', rfl, hHere, hEmpty, ?_⟩
    rw [update_of_ne hObj]
    exact hNamed
  | leave t | resume t | back | die => exact hFound.unpark nofun
  | born t alive =>
    apply hFound.unpark
    cases alive <;> nofun
  | hand o =>
    apply hFound.wake
    intro o' t' hTask hNamed
    have hObj : o' ≠ o := by
      rintro rfl
      rw [hOk.1] at hNamed
      exact hTask (Option.some.inj hNamed).symm
    rw [update_of_ne hObj]
    exact hNamed
  | pull =>
    apply hFound.wake
    intro o' t' hTask hNamed
    exact Lot.unlink_of_ne hNamed hTask
  | make o =>
    apply hFound.reset
    intro t hParked
    rcases hFound t _ hParked with ⟨o', hEq, hHere, _⟩
    cases hEq
    rw [show L.present o = false from hOk] at hHere
    cases hHere
  | remove =>
    apply hFound.reset
    intro t hParked
    rcases hFound t _ hParked with ⟨o', hEq, _, _, hNamed⟩
    cases hEq
    rw [hOk t hNamed] at hParked
    cases hParked
  | restock o b =>
    intro t p hParked
    rcases hFound t p hParked with ⟨o', rfl, hHere, hEmpty, hNamed⟩
    refine ⟨o', rfl, hHere, ?_, hNamed⟩
    dsimp only [Turn.apply]
    rcases eq_or_ne o' o with rfl | hObj
    · rw [update_self]
      -- nothing is put where a task is ready to take it
      cases b with
      | false => rfl
      | true =>
        rcases hOk rfl with hStock | hNot
        · rw [hEmpty] at hStock
          cases hStock
        · exact absurd ⟨hEmpty, t, hNamed, hParked⟩ hNot
    · rw [update_of_ne hObj]
      exact hEmpty

end Found

end Parking

end Horus.Lib
