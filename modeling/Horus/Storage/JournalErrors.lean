import Horus.Storage.JournalAtomic

/-
  The journal on a device whose requests may fail.

  The results of home writes are not looked at, a commit
  starts while the journal still carries a transaction whose
  home flush failed, and a recovery that cannot read a data
  block clears the header. Where none of the three happens, a
  reported transaction stays home through any other failure.

  `Allowed` says which contents a home block may have, given
  the commits entered so far. Every content a crash may bring
  up is allowed, and so is what any header would redo.

  Main declarations:
    * `Allowed`, `duty`
    * `JournalOp.Spared`, `SparedRun`
    * `ErrorsOk`
    * `reported_commit_survives`
    * `ignored_errors_lose_commit`
-/

namespace Horus.Storage

open JournalState
open Function
open Horus.Lib

section Errors

variable {β τ : Type}
variable {fmt : JournalFormat β τ} {g : Geometry}

variable {past attempts : List (Attempt β)} {v : β} {b seq i : Nat}
    {slots landed : List (Nat × β)} {returned : Bool} {d : WriteCache β} {r : IoResult}

----
-- Contents a Block May Have
----

/-
  For every reported transaction that wrote the block: its
  content, or that of a later transaction.
-/
def Allowed (attempts : List (Attempt β)) (b : Nat) (v : β) : Prop :=
  ∀ before a after, attempts = before ++ a :: after → a.returned → ∀ w, (b, w) ∈ a.slots →
          v = w ∨ ∃ a' ∈ after, (b, v) ∈ a'.slots

/- A list with a last element, split somewhere. -/
theorem concat_eq_append_cons {α : Type} {past before after : List α} {x y : α}
    (hEq : past ++ [x] = before ++ y :: after) :
    (past = before ∧ x = y ∧ after = []) ∨ ∃ after', after = after' ++ [x] ∧
        past = before ++ y :: after' := by
  rcases List.eq_nil_or_concat after with rfl | ⟨after', z, rfl⟩
  · left
    have hParts := List.append_inj_right' hEq rfl
    have hFront := List.append_inj_left' hEq rfl
    exact ⟨hFront, (List.cons.inj hParts).1, rfl⟩
  · right
    rw [List.concat_eq_append, ← List.cons_append, ← List.append_assoc] at hEq
    have hLast := List.append_inj_right' hEq rfl
    have hFront := List.append_inj_left' hEq rfl
    rw [(List.cons.inj hLast).1]
    exact ⟨after', List.concat_eq_append, hFront⟩

theorem allowed_nil (b : Nat) (v : β) : Allowed [] b v := by
  intro before a after hEq
  simp at hEq

/- A new commit, not yet reported, forbids nothing. -/
theorem Allowed.concat (hAllowed : Allowed past b v) (slots : List (Nat × β)) :
    Allowed (past ++ [⟨slots, false⟩]) b v := by
  intro before a after hEq hReturned w hMem
  rcases concat_eq_append_cons hEq with ⟨_, rfl, _⟩ | ⟨after', rfl, hPast⟩
  · simp at hReturned
  rcases hAllowed before a after' hPast hReturned w hMem with hSame | ⟨a', hLater, hWrote⟩
  · exact .inl hSame
  · exact .inr ⟨a', List.mem_append_left _ hLater, hWrote⟩

/- Its own blocks are allowed, reported or not. -/
theorem allowed_of_mem_last (returned : Bool)
    (hDistinct : (slots.map Prod.fst).Nodup) (hMem : (b, v) ∈ slots) :
    Allowed (past ++ [⟨slots, returned⟩]) b v := by
  intro before a after hEq _ w hWrote
  rcases concat_eq_append_cons hEq with ⟨_, rfl, _⟩ | ⟨after', rfl, _⟩
  · left
    have hSame := List.inj_on_of_nodup_map hDistinct hMem hWrote rfl
    exact congrArg Prod.snd hSame
  · right
    exact ⟨⟨slots, returned⟩, List.mem_append_right _ (List.mem_singleton_self _), hMem⟩

/- Reporting the last commit, for a block that has its content. -/
theorem Allowed.report (hAllowed : Allowed (past ++ [⟨slots, returned⟩]) b v)
    (hOwn : ∀ w, (b, w) ∈ slots → v = w) : Allowed (past ++ [⟨slots, true⟩]) b v := by
  intro before a after hEq hReturned w hMem
  rcases concat_eq_append_cons hEq with ⟨_, rfl, _⟩ | ⟨after', rfl, hPast⟩
  · exact .inl (hOwn w hMem)
  have hSplit : past ++ [⟨slots, returned⟩] = before ++ a :: (after' ++ [⟨slots, returned⟩]) := by
    rw [hPast]
    simp
  rcases hAllowed before a _ hSplit hReturned w hMem with hSame | ⟨a', hLater, hWrote⟩
  · exact .inl hSame
  right
  rcases List.mem_append.mp hLater with hOld | hLast
  · exact ⟨a', List.mem_append_left _ hOld, hWrote⟩
  rw [List.mem_singleton.mp hLast] at hWrote
  exact ⟨⟨slots, true⟩, List.mem_append_right _ (List.mem_singleton_self _), hWrote⟩

/-
  The commits with what they owe the medium. A transaction
  that was reported after a failed home flush still depends on
  the journal and counts as not reported.
-/
def duty (s : JournalState β) : List (Attempt β) :=
  if s.owed then
    s.attempts.dropLast ++ (s.attempts.getLast?.map fun a => { a with returned := false }).toList
  else s.attempts

/- Whatever the header would redo is allowed. -/
def Late (fmt : JournalFormat β τ) (g : Geometry) (attempts : List (Attempt β)) (u : β) : Prop :=
  ∀ data, headerHolds fmt g (fmt.unpack u) data →
      ∀ w ∈ headerWrites (fmt.unpack u) data, Allowed attempts w.1 w.2

theorem late_zero : Late fmt g attempts fmt.zero := fun _ hHolds => absurd hHolds.1 fmt.unpack_zero

theorem late_commitHeader (hSlots : SlotsOk g slots)
    (hAllowed : ∀ w ∈ slots, Allowed attempts w.1 w.2) : Late fmt g attempts
      (fmt.pack (commitHeader fmt slots seq)) := by
  intro data hHolds
  rw [unpack_commitHeader hSlots] at hHolds ⊢
  rw [headerWrites_commitHeader hHolds]
  exact hAllowed

/- Every content that may come up is allowed. -/
structure Guarded (fmt : JournalFormat β τ) (g : Geometry) (attempts : List (Attempt β))
    (d : WriteCache β) : Prop where
  home : ∀ b, g.Home b → ∀ v, d.May b v → Allowed attempts b v
  header : ∀ u, d.May g.journalStart u → Late fmt g attempts u

namespace Guarded

variable (hGuarded : Guarded fmt g attempts d)

include hGuarded

theorem concat (slots : List (Nat × β)) : Guarded fmt g (attempts ++ [⟨slots, false⟩]) d where
  home := fun b hHome v hMay => (hGuarded.home b hHome v hMay).concat slots
  header := fun u hMay data hHolds w hMem =>
    (hGuarded.header u hMay data hHolds w hMem).concat slots

theorem mono {d' : WriteCache β}
    (hMay : ∀ b v, d'.May b v → d.May b v) : Guarded fmt g attempts d' where
  home := fun b hHome v hMay' => hGuarded.home b hHome v (hMay b v hMay')
  header := fun u hMay' => hGuarded.header u (hMay _ u hMay')

theorem flush : Guarded fmt g attempts d.flush :=
  hGuarded.mono fun b v hMay => by
    rw [WriteCache.may_flush.mp hMay]
    exact WriteCache.may_read b

theorem crash (hLanded : landed.Sublist d.pending) : Guarded fmt g attempts (d.crash landed) :=
  hGuarded.mono fun _ _ hMay => WriteCache.may_crash hLanded hMay

end Guarded

theorem may_rawWrite {b' : Nat} {v' : β} (hMay : (rawWrite d b v r).May b' v') :
    d.May b' v' ∨ (b' = b ∧ v' = v) := by
  unfold rawWrite at hMay
  split at hMay
  · exact WriteCache.may_write.mp hMay
  · exact .inl hMay

theorem Guarded.rawWrite (hGuarded : Guarded fmt g attempts d) (r : IoResult)
    (hHome : g.Home b → Allowed attempts b v)
    (hHeader : b = g.journalStart → Late fmt g attempts v) :
    Guarded fmt g attempts (rawWrite d b v r) where
  home := by
    intro b' hBlock v' hMay
    rcases may_rawWrite hMay with hOld | ⟨rfl, rfl⟩
    · exact hGuarded.home b' hBlock v' hOld
    · exact hHome hBlock
  header := by
    intro u hMay
    rcases may_rawWrite hMay with hOld | ⟨hBlock, rfl⟩
    · exact hGuarded.header u hOld
    · exact hHeader hBlock.symm

/- The next request is a write to a home block. -/
def JournalState.WritesHome (s : JournalState β) : Prop :=
  match s.phase with
  | .home i => i < s.slots.length
  | .redo writes _ i => i < writes.length
  | _ => False

/-
  Home writes succeed, no commit is entered while a reported
  transaction depends on its journal, and no data block of the
  journal is unreadable at a mount.
-/
def JournalOp.Spared (s : JournalState β) : JournalOp g β → Prop
  | .io r => s.WritesHome → r = .ok
  | .commit => s.owed → s.slots = []
  | .mount r => r = .complete ∨ r = .noHeader
  | _ => True

instance (s : JournalState β) : Decidable s.WritesHome := by
  unfold WritesHome
  cases s.phase <;> infer_instance

instance (s : JournalState β) (op : JournalOp g β) : Decidable (op.Spared s) := by
  unfold JournalOp.Spared
  cases op <;> infer_instance

----
-- The Invariant
----

/- The journal holds the blocks, whatever a crash brings up. -/
def JournaledMay (g : Geometry) (d : WriteCache β) (slots : List (Nat × β)) : Prop :=
  ∀ i w, slots[i]? = some w → ∀ v, d.May (g.journalStart + 1 + i) v → v = w.2

/- The header of the blocks is the only one to come up. -/
def HeaderOnly (fmt : JournalFormat β τ) (g : Geometry) (d : WriteCache β)
    (slots : List (Nat × β)) (seq : Nat) : Prop :=
  ∀ u, d.May g.journalStart u → u = fmt.pack (commitHeader fmt slots seq)

/- The first `i` of the blocks are read back. -/
def ReadsBack (d : WriteCache β) (slots : List (Nat × β)) (i : Nat) : Prop :=
  ∀ j < i, ∀ w, slots[j]? = some w → d.read w.1 = w.2

/- The commit of the staged blocks has been entered. -/
structure Entered (s : JournalState β) : Prop where
  some : s.slots ≠ []
  paid : s.owed = false
  last : ∃ past, s.attempts = past ++ [⟨s.slots, false⟩]

/- The journal of the last reported transaction is intact. -/
structure Intact (fmt : JournalFormat β τ) (g : Geometry) (s : JournalState β)
    (slots : List (Nat × β)) (seq : Nat) : Prop where
  some : slots ≠ []
  valid : SlotsOk g slots
  last : ∃ past, s.attempts = past ++ [⟨slots, true⟩]
  header : HeaderOnly fmt g s.disk slots seq
  data : JournaledMay g s.disk slots

def ErrorPhase (fmt : JournalFormat β τ) (g : Geometry) (s : JournalState β) : Prop :=
  match s.phase with
  | .idle =>
    s.owed → ∃ slots seq, Intact fmt g s slots seq ∧
        (s.recovered → ReadsBack s.disk slots slots.length)
  | .data i =>
    Entered s ∧ ∀ j < i, ∀ w, s.slots[j]? = some w → s.disk.read (g.journalStart + 1 + j) = w.2
  | .header => Entered s ∧ JournaledMay g s.disk s.slots
  | .headerFlush =>
    Entered s ∧ JournaledMay g s.disk s.slots ∧ s.disk.read g.journalStart =
        fmt.pack (commitHeader fmt s.slots s.seq)
  | .home i =>
    Entered s ∧ JournaledMay g s.disk s.slots ∧ HeaderOnly fmt g s.disk s.slots s.seq ∧
      ReadsBack s.disk s.slots i
  | .clear =>
    Entered s ∧ HeaderOnly fmt g s.disk s.slots s.seq ∧
      ∀ w ∈ s.slots, ∀ v, s.disk.May w.1 v → v = w.2
  | .down =>
    s.active = false ∧ s.recovered = false ∧ (s.owed → ∃ slots seq, Intact fmt g s slots seq)
  | .redo writes seq i =>
    (∀ w ∈ writes, g.Home w.1 ∧ Allowed (duty s) w.1 w.2) ∧
      (s.owed → Intact fmt g s writes seq ∧ ReadsBack s.disk writes i)
  | .discard => s.owed = false

structure ErrorsOk (fmt : JournalFormat β τ) (g : Geometry) (s : JournalState β) : Prop where
  slots : SlotsOk g s.slots
  guarded : Guarded fmt g (duty s) s.disk
  phase : ErrorPhase fmt g s

theorem duty_of_paid {s : JournalState β} (hPaid : s.owed = false) : duty s = s.attempts := by
  simp [duty, hPaid]

theorem duty_of_owed {s : JournalState β} (hOwed : s.owed = true)
    (hLast : s.attempts = past ++ [⟨slots, returned⟩]) : duty s = past ++ [⟨slots, false⟩] := by
  simp [duty, hOwed, hLast]

theorem Entered.allowed {s : JournalState β} (hEntered : Entered s) (hSlots : SlotsOk g s.slots) :
    ∀ w ∈ s.slots, Allowed (duty s) w.1 w.2 := by
  obtain ⟨past, hLast⟩ := hEntered.last
  rw [duty_of_paid hEntered.paid, hLast]
  intro w hMem
  exact allowed_of_mem_last false hSlots.distinct hMem

----
-- Steps of a Commit
----

variable {s : JournalState β}

/- A failed commit leaves the volume as the device has it. -/
theorem errorsOk_abort (hEntered : Entered s) (hGuarded : Guarded fmt g (duty s) d) :
    ErrorsOk fmt g { s with disk := d }.journalAbort where
  slots := SlotsOk.nil
  guarded := hGuarded
  phase := by
    intro hOwed
    rw [hEntered.paid] at hOwed
    cases hOwed

theorem errorsOk_ioData (hOk : ErrorsOk fmt g s) (hEntered : Entered s)
    (hRead : JournalReads g s.disk s.slots i) : ErrorsOk fmt g (s.ioData g i r) := by
  unfold ioData
  cases hSlot : s.slots[i]? with
  | some w =>
    have hIndex : i < journalDataMax := Nat.lt_of_lt_of_le (List.getElem?_eq_some_iff.mp hSlot).1
        hOk.slots.length
    have hGuarded : Guarded fmt g (duty s) (rawWrite s.disk (g.journalStart + 1 + i) w.2 r) := by
      apply hOk.guarded.rawWrite r
      · intro hHome
        exact absurd rfl (home_ne_journalData hHome hIndex)
      · omega
    dsimp only
    split
    · rename_i hResult
      refine ⟨hOk.slots, hGuarded, { hEntered with }, ?_⟩
      rw [hResult]
      exact hRead.write hSlot
    · exact errorsOk_abort hEntered hGuarded
  | none =>
    dsimp only
    split
    · refine ⟨hOk.slots, hOk.guarded.flush, { hEntered with }, ?_⟩
      intro j w hSlot' v hMay
      change s.slots[j]? = some w at hSlot'
      rw [WriteCache.may_flush.mp hMay]
      have hIndex := (List.getElem?_eq_some_iff.mp hSlot').1
      have hPast := List.getElem?_eq_none_iff.mp hSlot
      exact hRead j (by omega) w hSlot'
    · exact errorsOk_abort hEntered hOk.guarded

theorem errorsOk_ioHeader (hOk : ErrorsOk fmt g s)
    (hEntered : Entered s) (hData : JournaledMay g s.disk s.slots) :
    ErrorsOk fmt g (s.ioHeader fmt g r) := by
  have hGuarded : Guarded fmt g (duty s) (rawWrite s.disk g.journalStart
          (fmt.pack (commitHeader fmt s.slots s.seq)) r) := by
    apply hOk.guarded.rawWrite r
    · intro hHome
      exact absurd hHome not_home_journalStart
    · intro _
      exact late_commitHeader hOk.slots (hEntered.allowed hOk.slots)
  unfold ioHeader
  split
  · rename_i hResult
    refine ⟨hOk.slots, hGuarded, { hEntered with }, ?_, ?_⟩
    · intro i w hSlot v hMay
      rcases may_rawWrite hMay with hOld | ⟨hBlock, _⟩
      · exact hData i w hSlot v hOld
      · omega
    · rw [hResult]
      simp only [rawWrite, IoResult.arrived, if_true, WriteCache.read_write, update_self]
  · exact errorsOk_abort hEntered hGuarded

theorem JournaledMay.flush (hData : JournaledMay g d slots) : JournaledMay g d.flush slots := by
  intro i w hSlot v hMay
  rw [WriteCache.may_flush.mp hMay]
  exact hData i w hSlot _ (WriteCache.may_read _)

theorem errorsOk_ioHeaderFlush (hOk : ErrorsOk fmt g s)
    (hEntered : Entered s) (hData : JournaledMay g s.disk s.slots)
    (hHeader : s.disk.read g.journalStart = fmt.pack (commitHeader fmt s.slots s.seq)) :
    ErrorsOk fmt g (s.ioHeaderFlush r) := by
  unfold ioHeaderFlush
  split
  · refine ⟨hOk.slots, hOk.guarded.flush, { hEntered with }, hData.flush, ?_, ?_⟩
    · intro u hMay
      rw [WriteCache.may_flush.mp hMay]
      exact hHeader
    · intro j hLess
      omega
  · exact errorsOk_abort hEntered hOk.guarded

/- One more block read back, the others as they were. -/
theorem ReadsBack.write {w : Nat × β}
    (hDistinct : (slots.map Prod.fst).Nodup) (hReads : ReadsBack d slots i)
    (hSlot : slots[i]? = some w) : ReadsBack (d.write w.1 w.2) slots (i + 1) := by
  intro j hLess w' hSlot'
  rw [WriteCache.read_write]
  by_cases hSame : w'.1 = w.1
  · have hEq := List.inj_on_of_nodup_map hDistinct (List.mem_of_getElem? hSlot')
        (List.mem_of_getElem? hSlot) hSame
    rw [hEq, update_self]
  · rw [update_of_ne hSame]
    have hBefore : j ≠ i := by
      intro hIndex
      rw [hIndex, hSlot] at hSlot'
      exact hSame (congrArg Prod.fst (Option.some.inj hSlot')).symm
    exact hReads j (by omega) w' hSlot'

/- A home write leaves the journal as it is. -/
theorem JournaledMay.write (hSlots : SlotsOk g slots) (hData : JournaledMay g d slots)
    (hHome : g.Home b) (v : β) : JournaledMay g (d.write b v) slots := by
  intro i w hSlot v' hMay
  rcases WriteCache.may_write.mp hMay with hOld | ⟨hBlock, _⟩
  · exact hData i w hSlot v' hOld
  · have hIndex := (List.getElem?_eq_some_iff.mp hSlot).1
    exact absurd hBlock.symm (home_ne_journalData hHome (Nat.lt_of_lt_of_le hIndex hSlots.length))

theorem HeaderOnly.write (hHeader : HeaderOnly fmt g d slots seq) (hHome : g.Home b)
    (v : β) : HeaderOnly fmt g (d.write b v) slots seq := by
  intro u hMay
  rcases WriteCache.may_write.mp hMay with hOld | ⟨hBlock, _⟩
  · exact hHeader u hOld
  · exact absurd hBlock.symm (home_ne_journalStart hHome)

theorem HeaderOnly.flush (hHeader : HeaderOnly fmt g d slots seq) :
    HeaderOnly fmt g d.flush slots seq := by
  intro u hMay
  rw [WriteCache.may_flush.mp hMay]
  exact hHeader _ (WriteCache.may_read _)

/- After the flush the blocks read back are on the medium. -/
theorem ReadsBack.flush (hReads : ReadsBack d slots i) (hEnd : slots.length ≤ i) :
    ∀ w ∈ slots, ∀ v, d.flush.May w.1 v → v = w.2 := by
  intro w hMem v hMay
  obtain ⟨j, hSlot⟩ := List.mem_iff_getElem?.mp hMem
  have hIndex := (List.getElem?_eq_some_iff.mp hSlot).1
  rw [WriteCache.may_flush.mp hMay]
  exact hReads j (by omega) w hSlot

theorem errorsOk_ioHome (hOk : ErrorsOk fmt g s)
    (hEntered : Entered s) (hData : JournaledMay g s.disk s.slots)
    (hHeader : HeaderOnly fmt g s.disk s.slots s.seq) (hReads : ReadsBack s.disk s.slots i)
    (hSpared : i < s.slots.length → r = .ok) : ErrorsOk fmt g (s.ioHome i r) := by
  unfold ioHome
  cases hSlot : s.slots[i]? with
  | some w =>
    rw [hSpared (List.getElem?_eq_some_iff.mp hSlot).1]
    have hMem := List.mem_of_getElem? hSlot
    have hHome := hOk.slots.home w hMem
    refine ⟨hOk.slots, ?_, { hEntered with }, hData.write hOk.slots hHome w.2,
      hHeader.write hHome w.2,
      hReads.write hOk.slots.distinct hSlot⟩
    apply hOk.guarded.rawWrite .ok
    · exact fun _ => hEntered.allowed hOk.slots w hMem
    · exact fun hBlock => absurd hBlock (home_ne_journalStart hHome)
  | none =>
    have hEnd := List.getElem?_eq_none_iff.mp hSlot
    dsimp only
    split
    · exact ⟨hOk.slots, hOk.guarded.flush, { hEntered with }, hHeader.flush, hReads.flush hEnd⟩
    -- the transaction is reported, its journal stays
    obtain ⟨past, hLast⟩ := hEntered.last
    have hAttempts : ({ s with owed := true }.commitReturn).attempts =
          past ++ [⟨s.slots, true⟩] := by
      simp [commitReturn, hLast]
    refine ⟨SlotsOk.nil, ?_, ?_⟩
    · rw [duty_of_owed rfl hAttempts, ← hLast, ← duty_of_paid hEntered.paid]
      exact hOk.guarded
    intro _
    refine ⟨s.slots, s.seq, ⟨hEntered.some, hOk.slots, ⟨past, hAttempts⟩, hHeader, hData⟩, ?_⟩
    intro _ j _ w hSlot'
    exact hReads j (by omega) w hSlot'

/- A reported transaction whose blocks are home. -/
theorem Guarded.report (hSlots : SlotsOk g slots)
    (hGuarded : Guarded fmt g (past ++ [⟨slots, returned⟩]) d)
    (hHeader : HeaderOnly fmt g d slots seq) (hHome : ∀ w ∈ slots, ∀ v, d.May w.1 v → v = w.2) :
    Guarded fmt g (past ++ [⟨slots, true⟩]) d where
  home := by
    intro b hBlock v hMay
    apply (hGuarded.home b hBlock v hMay).report
    intro w hMem
    exact hHome (b, w) hMem v hMay
  header := by
    intro u hMay
    rw [hHeader u hMay]
    exact late_commitHeader hSlots fun w hMem => allowed_of_mem_last true hSlots.distinct hMem

theorem errorsOk_ioClear (hOk : ErrorsOk fmt g s)
    (hEntered : Entered s) (hHeader : HeaderOnly fmt g s.disk s.slots s.seq)
    (hHome : ∀ w ∈ s.slots, ∀ v, s.disk.May w.1 v → v = w.2) :
    ErrorsOk fmt g (s.ioClear fmt g r) := by
  obtain ⟨past, hLast⟩ := hEntered.last
  have hAttempts : (s.ioClear fmt g r).attempts = past ++ [⟨s.slots, true⟩] := by
    simp [ioClear, commitReturn, hLast]
  have hPaid : (s.ioClear fmt g r).owed = false := hEntered.paid
  refine ⟨SlotsOk.nil, ?_, ?_⟩
  · rw [duty_of_paid hPaid, hAttempts]
    have hGuarded := hOk.guarded
    rw [duty_of_paid hEntered.paid, hLast] at hGuarded
    apply (hGuarded.report hOk.slots hHeader hHome).rawWrite r
    · exact fun hBlock => absurd hBlock not_home_journalStart
    · exact fun _ => late_zero
  · intro hOwed
    rw [hPaid] at hOwed
    cases hOwed

----
-- Steps of a Recovery
----

theorem Intact.duty (hIntact : Intact fmt g s slots seq) (hOwed : s.owed = true) :
    ∃ past, s.attempts = past ++ [⟨slots, true⟩] ∧ duty s = past ++ [⟨slots, false⟩] := by
  obtain ⟨past, hLast⟩ := hIntact.last
  exact ⟨past, hLast, duty_of_owed hOwed hLast⟩

theorem errorsOk_mount [DecidableEq τ] {r : MountRead}
    (hOk : ErrorsOk fmt g s) (hPhase : s.phase = .down) (hSpared : r = .complete ∨ r = .noHeader) :
    ErrorsOk fmt g (s.mount fmt g r) := by
  have hDown := hOk.phase
  unfold ErrorPhase at hDown
  simp only [hPhase] at hDown
  obtain ⟨hActive, hRecovered, hOwes⟩ := hDown
  unfold mount
  rw [if_neg g.placed]
  rcases hSpared with rfl | rfl
  · rw [hActive]
    simp only [MountRead.unread]
    -- a journal that is owed is found and redone
    have hFound : s.owed → ∃ slots seq, Intact fmt g s slots seq ∧
          recoverPlan fmt g s.disk.read false none = .redo slots seq := by
      intro hOwed
      obtain ⟨slots, seq, hIntact⟩ := hOwes hOwed
      refine ⟨slots, seq, hIntact, ?_⟩
      apply recoverPlan_of_commitHeader hIntact.valid hIntact.some
      · exact hIntact.header _ (WriteCache.may_read _)
      · intro i w hSlot
        exact hIntact.data i w hSlot _ (WriteCache.may_read _)
    cases hPlan : recoverPlan fmt g s.disk.read false none with
    | nothing =>
      refine ⟨hOk.slots, hOk.guarded, fun hOwed => ?_⟩
      obtain ⟨_, _, _, hRedo⟩ := hFound hOwed
      rw [hPlan] at hRedo
      cases hRedo
    | discard =>
      refine ⟨hOk.slots, hOk.guarded, ?_⟩
      change s.owed = false
      rw [← Bool.not_eq_true]
      intro hOwed
      obtain ⟨_, _, _, hRedo⟩ := hFound hOwed
      rw [hPlan] at hRedo
      cases hRedo
    | redo =>
      refine ⟨hOk.slots, hOk.guarded, ?_, ?_⟩
      · intro w hMem
        obtain ⟨hHolds, rfl⟩ := recoverPlan_redo hPlan
        exact ⟨home_of_headerWrites hHolds w hMem,
          hOk.guarded.header _ (WriteCache.may_read _) _ hHolds w hMem⟩
      intro hOwed
      obtain ⟨slots, seq', hIntact, hRedo⟩ := hFound hOwed
      rw [hPlan] at hRedo
      cases hRedo
      refine ⟨{ hIntact with }, ?_⟩
      intro j hLess
      omega
  · refine ⟨hOk.slots, hOk.guarded, fun hOwed => ?_⟩
    obtain ⟨slots, seq, hIntact⟩ := hOwes hOwed
    refine ⟨slots, seq, { hIntact with }, ?_⟩
    intro hRead
    rw [hRecovered] at hRead
    cases hRead

theorem errorsOk_ioRedo {writes : List (Nat × β)} (hOk : ErrorsOk fmt g s)
    (hWrites : ∀ w ∈ writes, g.Home w.1 ∧ Allowed (duty s) w.1 w.2)
    (hOwes : s.owed → Intact fmt g s writes seq ∧ ReadsBack s.disk writes i)
    (hSpared : i < writes.length → r = .ok) : ErrorsOk fmt g (s.ioRedo writes seq i r) := by
  unfold ioRedo
  cases hWrite : writes[i]? with
  | some w =>
    rw [hSpared (List.getElem?_eq_some_iff.mp hWrite).1]
    obtain ⟨hHome, hAllowed⟩ := hWrites w (List.mem_of_getElem? hWrite)
    refine ⟨hOk.slots, ?_, hWrites, ?_⟩
    · apply hOk.guarded.rawWrite .ok
      · exact fun _ => hAllowed
      · exact fun hBlock => absurd hBlock (home_ne_journalStart hHome)
    · intro hOwed
      obtain ⟨hIntact, hReads⟩ := hOwes hOwed
      exact ⟨⟨hIntact.some, hIntact.valid, hIntact.last, hIntact.header.write hHome w.2,
        hIntact.data.write hIntact.valid hHome w.2⟩,
        hReads.write hIntact.valid.distinct hWrite⟩
  | none =>
    have hEnd := List.getElem?_eq_none_iff.mp hWrite
    dsimp only
    split
    · refine ⟨hOk.slots, ?_, rfl⟩
      by_cases hOwed : s.owed = true
      · obtain ⟨hIntact, hReads⟩ := hOwes hOwed
        obtain ⟨past, hLast, hDuty⟩ := hIntact.duty hOwed
        have hGuarded := hOk.guarded.flush
        rw [hDuty] at hGuarded
        rw [hLast]
        exact hGuarded.report hIntact.valid hIntact.header.flush (hReads.flush hEnd)
      · rw [← duty_of_paid (Bool.not_eq_true _ ▸ hOwed)]
        exact hOk.guarded.flush
    · refine ⟨hOk.slots, hOk.guarded, fun hOwed => ?_⟩
      obtain ⟨hIntact, hReads⟩ := hOwes hOwed
      refine ⟨writes, seq, { hIntact with }, ?_⟩
      intro _ j hLess w hWrite'
      exact hReads j (by omega) w hWrite'

theorem Intact.crash (hIntact : Intact fmt g s slots seq)
    (hLanded : landed.Sublist s.disk.pending) : Intact fmt g (s.crash landed) slots seq where
  __ := hIntact
  header := fun u hMay => hIntact.header u (WriteCache.may_crash hLanded hMay)
  data := fun i w hSlot v hMay => hIntact.data i w hSlot v (WriteCache.may_crash hLanded hMay)

section

variable (hOk : ErrorsOk fmt g s)

include hOk

/- An owed journal is intact in every phase. -/
theorem ErrorsOk.intact (hOwed : s.owed = true) : ∃ slots seq, Intact fmt g s slots seq := by
  have hPhase := hOk.phase
  unfold ErrorPhase at hPhase
  cases hWhere : s.phase with simp only [hWhere] at hPhase
  | idle =>
    obtain ⟨slots, seq, hIntact, _⟩ := hPhase hOwed
    exact ⟨slots, seq, hIntact⟩
  | data | header | headerFlush | home | clear => exact absurd hOwed (by simp [hPhase.1.paid])
  | down => exact hPhase.2.2 hOwed
  | redo writes seq => exact ⟨writes, seq, (hPhase.2 hOwed).1⟩
  | discard => exact absurd hOwed (by simp [hPhase])

theorem errorsOk_crash (hLanded : landed.Sublist s.disk.pending) :
    ErrorsOk fmt g (s.crash landed) where
  slots := SlotsOk.nil
  guarded := hOk.guarded.crash hLanded
  phase := by
    refine ⟨rfl, rfl, fun hOwed => ?_⟩
    obtain ⟨slots, seq, hIntact⟩ := hOk.intact hOwed
    exact ⟨slots, seq, hIntact.crash hLanded⟩

----
-- Every Step
----

/- What touches only the transaction in memory. -/
theorem ErrorsOk.memory {s' : JournalState β}
    (hPhase : s.phase = .idle) (hPhase' : s'.phase = .idle)
    (hSlots : SlotsOk g s'.slots) (hDisk : s'.disk = s.disk)
    (hAttempts : s'.attempts = s.attempts) (hOwed : s'.owed = s.owed)
    (hRecovered : s'.recovered = s.recovered) : ErrorsOk fmt g s' where
  slots := hSlots
  guarded := by
    have hDuty : duty s' = duty s := by
      simp [duty, hOwed, hAttempts]
    rw [hDuty, hDisk]
    exact hOk.guarded
  phase := by
    have hIdle := hOk.phase
    unfold ErrorPhase at hIdle ⊢
    simp only [hPhase] at hIdle
    simp only [hPhase', hDisk, hOwed, hRecovered]
    intro hStill
    obtain ⟨slots, seq, hIntact, hReads⟩ := hIdle hStill
    refine ⟨slots, seq, ⟨hIntact.some, hIntact.valid, ?_, ?_, ?_⟩, hReads⟩
    · rw [hAttempts]
      exact hIntact.last
    · rw [hDisk]
      exact hIntact.header
    · rw [hDisk]
      exact hIntact.data

theorem errorsOk_commit (hPhase : s.phase = .idle)
    (hSpared : s.owed → s.slots = []) : ErrorsOk fmt g (s.journalCommit g) := by
  unfold journalCommit
  split
  · exact hOk.memory hPhase rfl SlotsOk.nil rfl rfl rfl rfl
  split
  · exact hOk.memory hPhase hPhase hOk.slots rfl rfl rfl rfl
  rename_i hSome
  have hPaid : s.owed = false := by
    rw [← Bool.not_eq_true]
    exact fun hOwed => hSome (hSpared hOwed)
  refine ⟨hOk.slots, ?_, ?_⟩
  · have hGuarded := hOk.guarded.concat s.slots
    rw [duty_of_paid hPaid] at hGuarded
    rw [duty_of_paid (by exact hPaid)]
    exact hGuarded
  · refine ⟨⟨hSome, hPaid, s.attempts, rfl⟩, ?_⟩
    omega

theorem errorsOk_stage (hPhase : s.phase = .idle) (hHome : g.Home b) :
    ErrorsOk fmt g (s.stage b v) := by
  unfold stage
  split
  · rename_i slots hStage
    exact hOk.memory hPhase hPhase (hOk.slots.stageSlot hHome hStage) rfl rfl rfl rfl
  · exact hOk.memory hPhase hPhase hOk.slots rfl rfl rfl rfl

theorem errorsOk_io (hSpared : s.WritesHome → r = .ok) : ErrorsOk fmt g (s.io fmt g r) := by
  have hPhase := hOk.phase
  unfold ErrorPhase at hPhase
  unfold WritesHome at hSpared
  unfold io
  cases hWhere : s.phase with simp only [hWhere] at hPhase
  | idle => exact hOk
  | data => exact errorsOk_ioData hOk hPhase.1 hPhase.2
  | header => exact errorsOk_ioHeader hOk hPhase.1 hPhase.2
  | headerFlush => exact errorsOk_ioHeaderFlush hOk hPhase.1 hPhase.2.1 hPhase.2.2
  | home =>
    simp only [hWhere] at hPhase hSpared
    exact errorsOk_ioHome hOk hPhase.1 hPhase.2.1 hPhase.2.2.1 hPhase.2.2.2 hSpared
  | clear => exact errorsOk_ioClear hOk hPhase.1 hPhase.2.1 hPhase.2.2
  | down => exact hOk
  | redo =>
    simp only [hWhere] at hPhase hSpared
    exact errorsOk_ioRedo hOk hPhase.1 hPhase.2 hSpared
  | discard =>
    refine ⟨hOk.slots, ?_, fun hOwed => ?_⟩
    · apply hOk.guarded.rawWrite r
      · exact fun hBlock => absurd hBlock not_home_journalStart
      · exact fun _ => late_zero
    · change s.owed = true at hOwed
      rw [hPhase] at hOwed
      cases hOwed

end

theorem errorsOk_step [DecidableEq τ] (op : JournalOp g β)
    (hOk : ErrorsOk fmt g s) (hEnabled : journalEnabled g s op)
    (hSpared : op.Spared s) : ErrorsOk fmt g (journalExec fmt g s op) := by
  cases op with
  | begin =>
    exact hOk.memory (phase_of_idle hEnabled) (phase_of_idle hEnabled) SlotsOk.nil rfl rfl rfl rfl
  | stage b => exact errorsOk_stage hOk (phase_of_idle hEnabled.1) b.2
  | abort => exact hOk.memory (phase_of_idle hEnabled.1) rfl SlotsOk.nil rfl rfl rfl rfl
  | commit => exact errorsOk_commit hOk (phase_of_idle hEnabled.1) hSpared
  | io => exact errorsOk_io hOk hSpared
  | crash => exact errorsOk_crash hOk hEnabled
  | mount => exact errorsOk_mount hOk (phase_of_down hEnabled) hSpared

def SparedRun [DecidableEq τ] (fmt : JournalFormat β τ) (g : Geometry) :
    JournalState β → JournalState β → Prop :=
  Run (journalExec fmt g) fun s op => journalEnabled g s op ∧ op.Spared s

theorem errorsOk_formatted (m : Nat → β) : ErrorsOk fmt g (formatted fmt g m) where
  slots := SlotsOk.nil
  guarded := by
    constructor
    · intro b _ v _
      exact allowed_nil b v
    · intro u hMay data hHolds w _
      exact allowed_nil w.1 w.2
  phase := fun hOwed => absurd hOwed (by simp [formatted])

theorem errorsOk_run [DecidableEq τ] {m : Nat → β}
    (hRun : SparedRun fmt g (formatted fmt g m) s) : ErrorsOk fmt g s :=
  Run.invariant (ErrorsOk fmt g) (fun _ op hOk hStep =>
      errorsOk_step op hOk hStep.1 hStep.2)
    hRun (errorsOk_formatted m)

/- What is read back after a recovery that read the header. -/
theorem ErrorsOk.read (hOk : ErrorsOk fmt g s) (hPhase : s.phase = .idle)
    (hRecovered : s.recovered = true) (hHome : g.Home b) :
    Allowed s.attempts b (s.disk.read b) := by
  have hDuty := hOk.guarded.home b hHome _ (WriteCache.may_read b)
  by_cases hOwed : s.owed = true
  · have hIdle := hOk.phase
    unfold ErrorPhase at hIdle
    simp only [hPhase] at hIdle
    obtain ⟨slots, seq, hIntact, hReads⟩ := hIdle hOwed
    obtain ⟨past, hLast, hOwes⟩ := hIntact.duty hOwed
    rw [hOwes] at hDuty
    rw [hLast]
    apply hDuty.report
    intro w hMem
    obtain ⟨j, hSlot⟩ := List.mem_iff_getElem?.mp hMem
    exact hReads hRecovered j (List.getElem?_eq_some_iff.mp hSlot).1 _ hSlot
  · rw [duty_of_paid (Bool.not_eq_true _ ▸ hOwed)] at hDuty
    exact hDuty

/-
  A reported commit survives. In every run in which home
  writes succeed, no commit is entered while a reported
  transaction depends on its journal, and no data block of the
  journal is unreadable at a mount: in every state after a
  recovery that read the header, each block of a reported
  transaction is home with its content or a later one's; and a
  recovery that could not read the header left the disk as it
  was.
-/
theorem reported_commit_survives [DecidableEq τ] {m : Nat → β}
    (hRun : SparedRun fmt g (formatted fmt g m) s) :
    (s.phase = .idle → s.recovered = true → ∀ before a after,
        s.attempts = before ++ a :: after → a.returned →
            ∀ b w, (b, w) ∈ a.slots → g.Home b → s.disk.read b = w ∨
                ∃ a' ∈ after, (b, s.disk.read b) ∈ a'.slots) ∧
      (s.phase = .down → (journalExec fmt g s (.mount .noHeader)).disk = s.disk) := by
  constructor
  · intro hPhase hRecovered before a after hEq hReturned b w hMem hHome
    exact (errorsOk_run hRun).read hPhase hRecovered hHome before a after hEq hReturned w hMem
  · intro _
    change (s.mount fmt g .noHeader).disk = s.disk
    unfold mount
    rw [if_neg g.placed, if_pos rfl]

end Errors

/- Journal data, flush, header and flush, all answered. -/
def untilHome : List (JournalOp smallGeometry (List Nat)) :=
  [.begin, .stage blockThree [7], .commit, .io .ok, .io .ok, .io .ok, .io .ok]

/- The home write fails; flush and clear succeed. -/
def homeWriteFails : List (JournalOp smallGeometry (List Nat)) :=
  untilHome ++ [.io (.failed false), .io .ok, .io .ok]

/- The home flush fails and the commit is reported. -/
def homeFlushFails : List (JournalOp smallGeometry (List Nat)) :=
  untilHome ++ [.io .ok, .io (.failed false)]

/- The next commit overwrites the journal that is needed. -/
def thenOverwritten : List (JournalOp smallGeometry (List Nat)) :=
  homeFlushFails ++ [.begin, .stage blockFive [8], .commit, .io .ok,
      .crash [(41, [8])], .mount .complete, .io .ok]

/- A data block cannot be read once. -/
def thenUnread : List (JournalOp smallGeometry (List Nat)) :=
  homeFlushFails ++ [.crash [], .mount (.noData 0), .io .ok, .crash [(40, [])], .mount .complete]

/- The redo write fails; flush and clear succeed. -/
def thenRedoFails : List (JournalOp smallGeometry (List Nat)) :=
  homeFlushFails ++ [.crash [], .mount .complete, .io (.failed false), .io .ok, .io .ok]

/-
  The run can happen, the commit returned 0, the last recovery
  read the header, and the block does not have the content.
-/
def LosesCommit (ops : List (JournalOp smallGeometry (List Nat))) : Prop :=
  AllOk (journalExec plainFormat smallGeometry) (journalEnabled smallGeometry)
      (formatted plainFormat smallGeometry fun _ => [0]) ops ∧
    (runAll (journalExec plainFormat smallGeometry)
      (formatted plainFormat smallGeometry fun _ => [0])
      ops).phase = .idle ∧
    (runAll (journalExec plainFormat smallGeometry)
      (formatted plainFormat smallGeometry fun _ => [0])
      ops).recovered = true ∧
    (∃ after, (runAll (journalExec plainFormat smallGeometry)
        (formatted plainFormat smallGeometry fun _ => [0])
        ops).attempts = ⟨[(3, [7])], true⟩ :: after ∧ ∀ a ∈ after, ∀ w ∈ a.slots, w.1 ≠ 3) ∧
    (runAll (journalExec plainFormat smallGeometry)
      (formatted plainFormat smallGeometry fun _ => [0])
      ops).disk.read 3 = [0]

/- The home flush fails; a recovery replays the journal. -/
def thenReplayed : List (JournalOp smallGeometry (List Nat)) :=
  homeFlushFails ++ [.crash [], .mount .noHeader, .crash [], .mount .complete,
      .io .ok, .io .ok, .io .ok]

theorem reported_commit_survives_replayed :
    (runAll (journalExec plainFormat smallGeometry)
      (formatted plainFormat smallGeometry fun _ => [0])
      thenReplayed).disk.read 3 = [7] := by
  have hSurvives := (reported_commit_survives (run_runAll thenReplayed (by decide +kernel) :
        SparedRun plainFormat smallGeometry (formatted plainFormat smallGeometry fun _ => [0])
          _)).1 rfl rfl [] ⟨[(3, [7])], true⟩ [] rfl rfl 3 [7]
      (by decide) (by decide)
  simpa using hSurvives

theorem ignored_errors_lose_commit :
    LosesCommit homeWriteFails ∧ LosesCommit thenOverwritten ∧ LosesCommit thenUnread ∧
      LosesCommit thenRedoFails := by
  refine ⟨⟨?_, ?_, ?_, ⟨[], ?_, ?_⟩, ?_⟩, ⟨?_, ?_, ?_, ⟨[⟨[(5, [8])], false⟩], ?_, ?_⟩, ?_⟩,
    ⟨?_, ?_, ?_, ⟨[], ?_, ?_⟩, ?_⟩,
    ⟨?_, ?_, ?_, ⟨[], ?_, ?_⟩, ?_⟩⟩
  all_goals first | rfl | decide +kernel

end Horus.Storage
