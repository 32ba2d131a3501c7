import Horus.Storage.Journal

/-
  The journal makes transactions atomic: after any crashes and
  recoveries the home blocks are those of the transactions
  that were reported, in their order, and of each transaction
  a crash interrupted either all blocks or none.

  One predicate on the state says, for each phase of a commit
  and of a recovery, what is on the medium and what is held
  back. A header on the medium is either that of a transaction
  that is home already, or its data is beside it.

  Main declarations:
    * `Outcome`
    * `Harmless`, `Quiet`, `JournalOk`
    * `journal_crash_atomic`
-/

namespace Horus.Storage

open JournalState
open Function
open Horus.Lib

section Atomic

variable {β τ : Type}
variable {fmt : JournalFormat β τ} {g : Geometry}

variable {slots writes landed : List (Nat × β)} {v : β} {b i seq : Nat}
    {data : List β} {d : WriteCache β} {m : Nat → β}

/-
  The volume after some commits: a reported transaction is
  made, one that was interrupted is made or lost as a whole.
-/
inductive Outcome (start : Nat → β) : List (Attempt β) → (Nat → β) → Prop where
  | none : Outcome start [] start
  | made {past : List (Attempt β)} {h : Nat → β} (a : Attempt β) (hPast : Outcome start past h) :
      Outcome start (past ++ [a]) (writeAll h a.slots)
  | lost {past : List (Attempt β)} {h : Nat → β} (a : Attempt β) (hReturned : a.returned = false)
      (hPast : Outcome start past h) :
      Outcome start (past ++ [a]) h

/- At most a journal's length of home blocks, none twice. -/
structure SlotsOk (g : Geometry) (slots : List (Nat × β)) : Prop where
  length : slots.length ≤ journalDataMax
  home : ∀ w ∈ slots, g.Home w.1
  distinct : (slots.map Prod.fst).Nodup

theorem SlotsOk.nil : SlotsOk g ([] : List (Nat × β)) :=
  { length := Nat.zero_le _
    home := fun _ hMem => absurd hMem (by simp)
    distinct := List.nodup_nil }

theorem map_fst_overwrite (slots : List (Nat × β)) (b : Nat) (v : β) :
    (slots.map fun w => if w.1 = b then (b, v) else w).map Prod.fst = slots.map Prod.fst := by
  rw [List.map_map]
  apply List.map_congr_left
  intro w _
  by_cases hBlock : w.1 = b
  · simp [hBlock]
  · simp [hBlock]

theorem SlotsOk.stageSlot {slots' : List (Nat × β)} (hSlots : SlotsOk g slots) (hHome : g.Home b)
    (hStage : stageSlot slots b v = some slots') : SlotsOk g slots' := by
  unfold Storage.stageSlot at hStage
  split at hStage
  · cases hStage
    constructor
    · simpa using hSlots.length
    · intro w hMem
      rcases List.mem_map.mp hMem with ⟨w', hMem', rfl⟩
      split
      · exact hHome
      · exact hSlots.home w' hMem'
    · rw [map_fst_overwrite]
      exact hSlots.distinct
  · split at hStage
    · cases hStage
    rename_i hNew hRoom
    cases hStage
    constructor
    · simp only [List.length_append, List.length_singleton]
      omega
    · intro w hMem
      rcases List.mem_append.mp hMem with hOld | hLast
      · exact hSlots.home w hOld
      · rw [List.mem_singleton.mp hLast]
        exact hHome
    · rw [List.map_append]
      apply List.Nodup.append hSlots.distinct (List.nodup_singleton b)
      rw [List.disjoint_right]
      intro b' hMem
      rw [List.mem_singleton.mp hMem]
      exact hNew

theorem home_ne_journalStart (hHome : g.Home b) : b ≠ g.journalStart := by
  have := g.room
  unfold Geometry.Home at hHome
  omega

theorem home_ne_journalData (hHome : g.Home b)
    (hIndex : i < journalDataMax) : b ≠ g.journalStart + 1 + i := by
  have := g.room
  unfold Geometry.Home at hHome
  omega

/- The writes a header stands for with the data beside it. -/
def headerWrites (hdr : JournalHeader τ) (data : List β) : List (Nat × β) :=
  (hdr.target.take hdr.count).zip data

theorem take_target_commitHeader (slots : List (Nat × β)) (seq : Nat) :
    (commitHeader fmt slots seq).target.take (commitHeader fmt slots seq).count =
      slots.map Prod.fst := by
  simp [commitHeader]

theorem unpack_commitHeader (hSlots : SlotsOk g slots) (seq : Nat) :
    fmt.unpack (fmt.pack (commitHeader fmt slots seq)) = commitHeader fmt slots seq := by
  have := hSlots.length
  apply fmt.unpack_pack
  simp only [commitHeader, List.length_append, List.length_map, List.length_replicate]
  omega

theorem headerHolds_commitHeader (fmt : JournalFormat β τ)
    (hSlots : SlotsOk g slots) (hSome : slots ≠ []) (seq : Nat) :
    headerHolds fmt g (commitHeader fmt slots seq) (slots.map Prod.snd) := by
  refine ⟨rfl, ?_, hSlots.length, ?_, ?_⟩
  · simpa [commitHeader] using hSome
  · rw [take_target_commitHeader]
    rfl
  rw [take_target_commitHeader]
  intro b hMem
  rcases List.mem_map.mp hMem with ⟨w, hMem', rfl⟩
  exact hSlots.home w hMem'

/- A commit's header fits no data but its own. -/
theorem headerWrites_commitHeader (hHolds : headerHolds fmt g (commitHeader fmt slots seq) data) :
    headerWrites (commitHeader fmt slots seq) data = slots := by
  obtain ⟨_, _, _, hHash, _⟩ := hHolds
  obtain ⟨_, _, hData⟩ := fmt.hmac_injective _ _ _ _ _ _ hHash
  rw [headerWrites, take_target_commitHeader, hData]
  exact (List.zip_of_prod rfl rfl).symm

/- Every write of a plan is to a home block. -/
theorem home_of_headerWrites {hdr : JournalHeader τ} (hHolds : headerHolds fmt g hdr data) :
    ∀ w ∈ headerWrites hdr data, g.Home w.1 := by
  intro w hMem
  exact hHolds.2.2.2.2 w.1 (List.of_mem_zip hMem).1

/- Redoing what the header stands for changes no home block. -/
def Harmless (fmt : JournalFormat β τ) (g : Geometry) (h : Nat → β) (u : β) : Prop :=
  ∀ data, headerHolds fmt g (fmt.unpack u) data →
      ∀ b, writeAll h (headerWrites (fmt.unpack u) data) b = h b

theorem harmless_zero {h : Nat → β} : Harmless fmt g h fmt.zero :=
  fun _ hHolds => absurd hHolds.1 fmt.unpack_zero

theorem harmless_commitHeader (hSlots : SlotsOk g slots) (h : Nat → β) (seq : Nat) :
    Harmless fmt g (writeAll h slots) (fmt.pack (commitHeader fmt slots seq)) := by
  intro data hHolds b
  rw [unpack_commitHeader hSlots] at hHolds ⊢
  rw [headerWrites_commitHeader hHolds]
  exact writeAll_congr slots writeAll_of_ne

/-
  The home blocks are on the medium, only journal blocks are
  held back, and no header that may be found does harm.
-/
structure Quiet (fmt : JournalFormat β τ) (g : Geometry) (h : Nat → β) (d : WriteCache β) : Prop
    where
  home : ∀ b, g.Home b → d.medium b = h b
  away : ∀ w ∈ d.pending, ¬ g.Home w.1
  header : ∀ u, d.May g.journalStart u → Harmless fmt g h u

theorem Quiet.write {h : Nat → β} (hQuiet : Quiet fmt g h d) (hAway : ¬ g.Home b)
    (hHeader : b = g.journalStart → Harmless fmt g h v) : Quiet fmt g h (d.write b v) where
  home := hQuiet.home
  away := by
    intro w hMem
    rcases List.mem_append.mp hMem with hOld | hLast
    · exact hQuiet.away w hOld
    · rw [List.mem_singleton.mp hLast]
      exact hAway
  header := by
    intro u hMay
    rcases WriteCache.may_write.mp hMay with hOld | ⟨hBlock, rfl⟩
    · exact hQuiet.header u hOld
    · exact hHeader hBlock.symm

theorem Quiet.read {h : Nat → β}
    (hQuiet : Quiet fmt g h d) (hHome : g.Home b) : d.read b = h b := by
  rw [← hQuiet.home b hHome]
  apply writeAll_of_ne
  intro w hMem hBlock
  exact hQuiet.away w hMem (hBlock ▸ hHome)

/- Every held back write on the medium, or nothing held back. -/
theorem quiet_of_medium {h : Nat → β} (hHome : ∀ b, g.Home b → m b = h b)
    (hHeader : Harmless fmt g h (m g.journalStart)) :
    Quiet fmt g h { medium := m, pending := [] } where
  home := hHome
  away := fun _ hMem => absurd hMem (by simp)
  header := by
    intro u hMay
    have hValue : u = m g.journalStart := by
      simpa [WriteCache.May] using hMay
    exact hValue ▸ hHeader

theorem Quiet.flush {h : Nat → β} (hQuiet : Quiet fmt g h d) : Quiet fmt g h d.flush :=
  quiet_of_medium (fun _ hHome => hQuiet.read hHome) (hQuiet.header _ (WriteCache.may_read _))

----
-- The Plan of a Recovery
----

variable [DecidableEq τ]

/- The medium as a complete recovery leaves it. -/
def recoveredHome (fmt : JournalFormat β τ) (g : Geometry) (m : Nat → β) : Nat → β :=
  match recoverPlan fmt g m false none with
  | .nothing => m
  | .discard => m
  | .redo writes _ => writeAll m writes

theorem recoverPlan_redo {active : Bool} {unread : Option Nat}
    (hPlan : recoverPlan fmt g m active unread = .redo writes seq) :
    headerHolds fmt g (fmt.unpack (m g.journalStart)) (journalData g m
          (fmt.unpack (m g.journalStart)).count) ∧
      writes = headerWrites (fmt.unpack (m g.journalStart)) (journalData g m
            (fmt.unpack (m g.journalStart)).count) := by
  unfold recoverPlan at hPlan
  simp only at hPlan
  split at hPlan
  · cases hPlan
  rename_i hMagic
  iterate 4
    split at hPlan
    · cases hPlan
  rename_i hHash
  split at hPlan
  · cases hPlan
  rename_i hTargets
  cases hPlan
  refine ⟨⟨not_not.mp hMagic, by omega, by omega, not_not.mp hHash, ?_⟩, rfl⟩
  intro t hMem
  by_contra hAway
  exact hTargets ⟨t, hMem, hAway⟩

theorem recoverPlan_of_holds
    (hHolds : headerHolds fmt g (fmt.unpack (m g.journalStart))
        (journalData g m (fmt.unpack (m g.journalStart)).count)) :
    recoverPlan fmt g m false none = .redo
        (headerWrites (fmt.unpack (m g.journalStart)) (journalData g m
            (fmt.unpack (m g.journalStart)).count))
        (fmt.unpack (m g.journalStart)).seq := by
  obtain ⟨hMagic, hSome, hMax, hHash, hTargets⟩ := hHolds
  have hCount : ¬ ((fmt.unpack (m g.journalStart)).count = 0 ∨
        journalDataMax < (fmt.unpack (m g.journalStart)).count) := by
    omega
  have hHome : ¬ ∃ t ∈ (fmt.unpack (m g.journalStart)).target.take
          (fmt.unpack (m g.journalStart)).count,
        ¬ g.Home t := by
    rintro ⟨t, hMem, hAway⟩
    exact hAway (hTargets t hMem)
  simp [recoverPlan, hMagic, hCount, hHash, hHome, headerWrites]

/- A redo that is on its way does not disturb the journal. -/
theorem recoverPlan_writeAll
    (hPlan : recoverPlan fmt g m false none = .redo writes seq) (hHome : ∀ w ∈ landed, g.Home w.1) :
    recoverPlan fmt g (writeAll m landed) false none = .redo writes seq := by
  obtain ⟨hHolds, _⟩ := recoverPlan_redo hPlan
  have hHeader : writeAll m landed g.journalStart = m g.journalStart := writeAll_of_ne fun w hMem =>
      home_ne_journalStart (hHome w hMem)
  have hData : journalData g (writeAll m landed) (fmt.unpack (m g.journalStart)).count =
        journalData g m (fmt.unpack (m g.journalStart)).count := by
    refine List.map_congr_left fun i hIndex => writeAll_of_ne fun w hMem => ?_
    have hLess := List.mem_range.mp hIndex
    exact home_ne_journalData (hHome w hMem) (Nat.lt_of_lt_of_le hLess hHolds.2.2.1)
  rw [← hPlan]
  unfold recoverPlan
  rw [hHeader]
  simp only [hData]

/- A medium whose journal holds the staged blocks. -/
def Journaled (g : Geometry) (m : Nat → β) (slots : List (Nat × β)) : Prop :=
  ∀ i w, slots[i]? = some w → m (g.journalStart + 1 + i) = w.2

theorem journalData_of_journaled (hData : Journaled g m slots) :
    journalData g m slots.length = slots.map Prod.snd := by
  apply List.ext_getElem
  · simp [journalData]
  intro i hLeft hRight
  rw [List.length_map] at hRight
  have hSlot := hData i slots[i] (List.getElem?_eq_getElem hRight)
  simpa [journalData] using hSlot

/- Recovery finds a transaction whose header is there. -/
theorem recoverPlan_of_commitHeader (hSlots : SlotsOk g slots) (hSome : slots ≠ [])
    (hHeader : m g.journalStart = fmt.pack (commitHeader fmt slots seq))
    (hData : Journaled g m slots) : recoverPlan fmt g m false none = .redo slots seq := by
  have hUnpack : fmt.unpack (m g.journalStart) = commitHeader fmt slots seq := by
    rw [hHeader, unpack_commitHeader hSlots]
  have hHolds := headerHolds_commitHeader fmt hSlots hSome seq
  have hFound : headerHolds fmt g (fmt.unpack (m g.journalStart))
        (journalData g m (fmt.unpack (m g.journalStart)).count) := by
    rw [hUnpack]
    exact (journalData_of_journaled hData).symm ▸ hHolds
  rw [recoverPlan_of_holds hFound]
  rw [hUnpack] at hFound ⊢
  rw [headerWrites_commitHeader hFound]
  rfl

/- The commit of the staged blocks has been entered. -/
structure Underway (start : Nat → β) (s : JournalState β) (h : Nat → β) : Prop where
  some : s.slots ≠ []
  outcome : ∃ past, s.attempts = past ++ [⟨s.slots, false⟩] ∧ Outcome start past h

/- Home blocks and journal during the home writes. -/
structure Applying (fmt : JournalFormat β τ) (g : Geometry) (s : JournalState β) (h : Nat → β) :
    Prop where
  home : ∀ b, g.Home b → s.disk.medium b = h b
  header : s.disk.medium g.journalStart = fmt.pack (commitHeader fmt s.slots s.seq)
  data : Journaled g s.disk.medium s.slots

/- A medium from which recovery gives `h`. -/
structure Recoverable (fmt : JournalFormat β τ) (g : Geometry) (m h : Nat → β) : Prop where
  header : Harmless fmt g h (m g.journalStart)
  home : ∀ b, g.Home b → recoveredHome fmt g m b = h b

/- What holds in each phase, with `h` the state last settled. -/
def PhaseOk (fmt : JournalFormat β τ) (g : Geometry) (start : Nat → β)
    (s : JournalState β) (h : Nat → β) : Prop :=
  match s.phase with
  | .idle => Outcome start s.attempts h ∧ Quiet fmt g h s.disk
  | .data i =>
    Underway start s h ∧ Quiet fmt g h s.disk ∧ ∀ j < i, ∀ w, s.slots[j]? = some w →
        s.disk.read (g.journalStart + 1 + j) = w.2
  | .header =>
    Underway start s h ∧ Quiet fmt g h s.disk ∧ s.disk.pending = [] ∧
      Journaled g s.disk.medium s.slots
  | .headerFlush =>
    Underway start s h ∧ (∀ b, g.Home b → s.disk.medium b = h b) ∧
      Harmless fmt g h (s.disk.medium g.journalStart) ∧ Journaled g s.disk.medium s.slots ∧
      s.disk.pending = [(g.journalStart, fmt.pack (commitHeader fmt s.slots s.seq))]
  | .home i => Underway start s h ∧ Applying fmt g s h ∧ s.disk.pending = s.slots.take i
  | .clear => Underway start s h ∧ Quiet fmt g (writeAll h s.slots) s.disk
  | .down =>
    Outcome start s.attempts h ∧ s.active = false ∧ s.disk.pending = [] ∧
      Recoverable fmt g s.disk.medium h
  | .redo writes seq i =>
    Outcome start s.attempts h ∧ recoverPlan fmt g s.disk.medium false none = .redo writes seq ∧
      s.disk.pending = writes.take i ∧ Recoverable fmt g s.disk.medium h
  | .discard => Outcome start s.attempts h ∧ Quiet fmt g h s.disk

structure JournalOk (fmt : JournalFormat β τ) (g : Geometry) (start : Nat → β) (s : JournalState β)
    : Prop where
  slots : SlotsOk g s.slots
  phase : ∃ h, PhaseOk fmt g start s h

theorem recoverable_of_medium {h : Nat → β} (hHome : ∀ b, g.Home b → m b = h b)
    (hHeader : Harmless fmt g h (m g.journalStart)) : Recoverable fmt g m h where
  header := hHeader
  home := by
    intro b hBlock
    unfold recoveredHome
    cases hPlan : recoverPlan fmt g m false none with
    | nothing | discard => exact hHome b hBlock
    | redo =>
      obtain ⟨hHolds, rfl⟩ := recoverPlan_redo hPlan
      rw [← hHeader _ hHolds b]
      exact writeAll_congr _ fun _ => hHome b hBlock

theorem Quiet.crash {h : Nat → β} (hQuiet : Quiet fmt g h d) (hLanded : landed.Sublist d.pending) :
    Recoverable fmt g (d.crash landed).medium h := by
  apply recoverable_of_medium
  · intro b hHome
    rw [← hQuiet.home b hHome]
    apply writeAll_of_ne
    intro w hMem hBlock
    exact hQuiet.away w (hLanded.subset hMem) (hBlock ▸ hHome)
  · exact hQuiet.header _ (WriteCache.may_crash hLanded (.inl rfl))

/- A transaction whose header is on the medium is made. -/
theorem recoverable_of_commitHeader {h : Nat → β} (hSlots : SlotsOk g slots) (hSome : slots ≠ [])
    (hHeader : m g.journalStart = fmt.pack (commitHeader fmt slots seq))
    (hData : Journaled g m slots) (hHome : ∀ b, g.Home b → (∀ w ∈ slots, w.1 ≠ b) → m b = h b) :
    Recoverable fmt g m (writeAll h slots) where
  header := by
    rw [hHeader]
    exact harmless_commitHeader hSlots h seq
  home := by
    intro b hBlock
    unfold recoveredHome
    rw [recoverPlan_of_commitHeader hSlots hSome hHeader hData]
    exact writeAll_congr slots (hHome b hBlock)

theorem Journaled.writeAll (hSlots : SlotsOk g slots) (hData : Journaled g m slots)
    (hHome : ∀ w ∈ landed, g.Home w.1) : Journaled g (writeAll m landed) slots := by
  intro i w hSlot
  rw [← hData i w hSlot]
  apply writeAll_of_ne
  intro w' hMem
  have hIndex := (List.getElem?_eq_some_iff.mp hSlot).1
  exact home_ne_journalData (hHome w' hMem) (Nat.lt_of_lt_of_le hIndex hSlots.length)

----
-- Steps of a Commit
----

variable {start : Nat → β} {s : JournalState β} {h : Nat → β}

theorem not_home_journalStart : ¬ g.Home g.journalStart :=
  fun hHome => home_ne_journalStart hHome rfl

theorem Underway.made (hUnderway : Underway start s h) :
    Outcome start s.attempts (writeAll h s.slots) := by
  obtain ⟨past, hAttempts, hPast⟩ := hUnderway.outcome
  rw [hAttempts]
  exact Outcome.made ⟨s.slots, false⟩ hPast

theorem Underway.lost (hUnderway : Underway start s h) : Outcome start s.attempts h := by
  obtain ⟨past, hAttempts, hPast⟩ := hUnderway.outcome
  rw [hAttempts]
  exact Outcome.lost ⟨s.slots, false⟩ rfl hPast

theorem Underway.returned (hUnderway : Underway start s h) :
    Outcome start (s.commitReturn).attempts (writeAll h s.slots) := by
  obtain ⟨past, hAttempts, hPast⟩ := hUnderway.outcome
  simp only [commitReturn, hAttempts, List.dropLast_concat]
  exact Outcome.made ⟨s.slots, true⟩ hPast

/- The first `i` blocks are read back from the journal. -/
def JournalReads (g : Geometry) (d : WriteCache β) (slots : List (Nat × β)) (i : Nat) : Prop :=
  ∀ j < i, ∀ w, slots[j]? = some w → d.read (g.journalStart + 1 + j) = w.2

theorem JournalReads.write {w : Nat × β} (hRead : JournalReads g d slots i)
    (hSlot : slots[i]? = some w) :
    JournalReads g (d.write (g.journalStart + 1 + i) w.2) slots (i + 1) := by
  intro j hLess w' hSlot'
  rw [WriteCache.read_write]
  by_cases hSame : j = i
  · rw [hSame] at hSlot' ⊢
    rw [update_self]
    exact congrArg Prod.snd (Option.some.inj (hSlot.symm.trans hSlot'))
  · rw [update_of_ne (by omega)]
    exact hRead j (by omega) w' hSlot'

section

variable (hSlots : SlotsOk g s.slots) (hUnderway : Underway start s h)

include hSlots hUnderway

theorem journalOk_ioData (hQuiet : Quiet fmt g h s.disk)
    (hRead : JournalReads g s.disk s.slots i) : JournalOk fmt g start (s.ioData g i .ok) := by
  unfold ioData
  split
  · rename_i w hSlot
    have hIndex : i < journalDataMax := Nat.lt_of_lt_of_le (List.getElem?_eq_some_iff.mp hSlot).1
        hSlots.length
    refine ⟨hSlots, h, { hUnderway with }, ?_, hRead.write hSlot⟩
    apply hQuiet.write
    · intro hHome
      exact home_ne_journalData hHome hIndex rfl
    · omega
  · rename_i hEnd
    refine ⟨hSlots, h, { hUnderway with }, hQuiet.flush, rfl, ?_⟩
    intro j w hSlot
    change s.slots[j]? = some w at hSlot
    have hIndex := (List.getElem?_eq_some_iff.mp hSlot).1
    have hPast := List.getElem?_eq_none_iff.mp hEnd
    exact hRead j (by omega) w hSlot

theorem journalOk_ioHeader (hQuiet : Quiet fmt g h s.disk)
    (hPending : s.disk.pending = []) (hData : Journaled g s.disk.medium s.slots) :
    JournalOk fmt g start (s.ioHeader fmt g .ok) := by
  refine ⟨hSlots, h, { hUnderway with }, hQuiet.home, hQuiet.header _ (.inl rfl), hData, ?_⟩
  change s.disk.pending ++ [_] = _
  rw [hPending]
  rfl

theorem journalOk_ioHeaderFlush
    (hHome : ∀ b, g.Home b → s.disk.medium b = h b) (hData : Journaled g s.disk.medium s.slots)
    (hPending : s.disk.pending = [(g.journalStart, fmt.pack (commitHeader fmt s.slots s.seq))]) :
    JournalOk fmt g start (s.ioHeaderFlush .ok) := by
  have hRead : s.disk.read = update s.disk.medium g.journalStart
          (fmt.pack (commitHeader fmt s.slots s.seq)) := by
    rw [WriteCache.read, hPending]
    rfl
  refine ⟨hSlots, h, { hUnderway with }, ⟨?_, ?_, ?_⟩, rfl⟩
  · intro b hBlock
    change s.disk.read b = h b
    rw [hRead, update_of_ne (home_ne_journalStart hBlock)]
    exact hHome b hBlock
  · change s.disk.read g.journalStart = _
    rw [hRead, update_self]
    rfl
  · intro i w hSlot
    change s.disk.read (g.journalStart + 1 + i) = w.2
    rw [hRead, update_of_ne (by omega)]
    exact hData i w hSlot

theorem journalOk_ioHome (hApplying : Applying fmt g s h)
    (hPending : s.disk.pending = s.slots.take i) : JournalOk fmt g start (s.ioHome i .ok) := by
  unfold ioHome
  split
  · rename_i w hSlot
    refine ⟨hSlots, h, { hUnderway with }, { hApplying with }, ?_⟩
    simp only [rawWrite, IoResult.arrived, if_true, WriteCache.write, hPending]
    rw [List.take_add_one, hSlot]
    rfl
  · rename_i hEnd
    have hAll : s.disk.pending = s.slots := by
      rw [hPending]
      exact List.take_of_length_le (List.getElem?_eq_none_iff.mp hEnd)
    refine ⟨hSlots, h, { hUnderway with }, ?_⟩
    apply quiet_of_medium
    · intro b hBlock
      rw [WriteCache.read, hAll]
      exact writeAll_congr s.slots fun _ => hApplying.home b hBlock
    · have hKept : s.disk.read g.journalStart = fmt.pack (commitHeader fmt s.slots s.seq) := by
        rw [← hApplying.header, WriteCache.read, hAll]
        exact writeAll_of_ne fun w hMem => home_ne_journalStart (hSlots.home w hMem)
      rw [hKept]
      exact harmless_commitHeader hSlots h s.seq

end

theorem journalOk_mount (hPhase : s.phase = .down) (hOk : JournalOk fmt g start s) :
    JournalOk fmt g start (s.mount fmt g .complete) := by
  obtain ⟨h, hDown⟩ := hOk.phase
  simp only [PhaseOk, hPhase] at hDown
  obtain ⟨hOutcome, hActive, hPending, hRecoverable⟩ := hDown
  have hRead : s.disk.read = s.disk.medium := by
    rw [WriteCache.read, hPending]
    rfl
  have hDisk : s.disk = { medium := s.disk.medium, pending := [] } := by
    rw [← hPending]
  have hHome := hRecoverable.home
  unfold recoveredHome at hHome
  unfold mount
  rw [if_neg g.placed, hRead, hActive]
  simp only [MountRead.unread]
  cases hPlan : recoverPlan fmt g s.disk.medium false none with
  | nothing | discard =>
    rw [hPlan] at hHome
    refine ⟨hOk.slots, h, hOutcome, ?_⟩
    rw [hDisk]
    exact quiet_of_medium hHome hRecoverable.header
  | redo => exact ⟨hOk.slots, h, hOutcome, hPlan, hPending, hRecoverable⟩

theorem journalOk_ioRedo (hSlots : SlotsOk g s.slots) (hOutcome : Outcome start s.attempts h)
    (hPlan : recoverPlan fmt g s.disk.medium false none = .redo writes seq)
    (hPending : s.disk.pending = writes.take i) (hRecoverable : Recoverable fmt g s.disk.medium h) :
    JournalOk fmt g start (s.ioRedo writes seq i .ok) := by
  unfold ioRedo
  split
  · rename_i w hWrite
    refine ⟨hSlots, h, hOutcome, hPlan, ?_, hRecoverable⟩
    simp only [rawWrite, IoResult.arrived, if_true, WriteCache.write, hPending]
    rw [List.take_add_one, hWrite]
    rfl
  rename_i hEnd
  have hAll : s.disk.pending = writes := by
    rw [hPending]
    exact List.take_of_length_le (List.getElem?_eq_none_iff.mp hEnd)
  have hRead : s.disk.read = writeAll s.disk.medium writes := by
    rw [WriteCache.read, hAll]
  have hHome := hRecoverable.home
  unfold recoveredHome at hHome
  rw [hPlan] at hHome
  obtain ⟨hHolds, hWrites⟩ := recoverPlan_redo hPlan
  refine ⟨hSlots, h, hOutcome, ?_⟩
  apply quiet_of_medium
  · intro b hBlock
    rw [hRead]
    exact hHome b hBlock
  have hKept : s.disk.read g.journalStart = s.disk.medium g.journalStart := by
    rw [hRead, hWrites]
    exact writeAll_of_ne fun w hMem => home_ne_journalStart (home_of_headerWrites hHolds w hMem)
  rw [hKept]
  exact hRecoverable.header

----
-- A Crash
----

theorem Applying.crash (hSlots : SlotsOk g s.slots) (hUnderway : Underway start s h)
    (hApplying : Applying fmt g s h) (hLanded : landed.Sublist (s.slots.take i)) :
    Recoverable fmt g (s.disk.crash landed).medium (writeAll h s.slots) := by
  have hSubset : ∀ w ∈ landed, w ∈ s.slots := fun w hMem =>
    List.mem_of_mem_take (hLanded.subset hMem)
  have hHomes : ∀ w ∈ landed, g.Home w.1 := fun w hMem => hSlots.home w (hSubset w hMem)
  apply recoverable_of_commitHeader hSlots hUnderway.some
  · exact (writeAll_of_ne fun w hMem => home_ne_journalStart (hHomes w hMem)).trans hApplying.header
  · exact hApplying.data.writeAll hSlots hHomes
  · intro b hBlock hNone
    rw [← hApplying.home b hBlock]
    exact writeAll_of_ne fun w hMem => hNone w (hSubset w hMem)

/- The header was held back: it reached the medium or not. -/
theorem headerFlush_crash (hSlots : SlotsOk g s.slots) (hUnderway : Underway start s h)
    (hHome : ∀ b, g.Home b → s.disk.medium b = h b)
    (hHeader : Harmless fmt g h (s.disk.medium g.journalStart))
    (hData : Journaled g s.disk.medium s.slots)
    (hLanded : landed.Sublist [(g.journalStart, fmt.pack (commitHeader fmt s.slots s.seq))]) :
    ∃ h', Outcome start s.attempts h' ∧ Recoverable fmt g (s.disk.crash landed).medium h' := by
  rcases List.sublist_singleton.mp hLanded with rfl | rfl
  · exact ⟨h, hUnderway.lost, recoverable_of_medium hHome hHeader⟩
  refine ⟨writeAll h s.slots, hUnderway.made, ?_⟩
  apply recoverable_of_commitHeader hSlots hUnderway.some
  · exact update_self ..
  · intro i w hSlot
    rw [← hData i w hSlot]
    exact update_of_ne (by omega) ..
  · intro b hBlock _
    rw [← hHome b hBlock]
    exact update_of_ne (home_ne_journalStart hBlock) ..

theorem redo_crash (hPlan : recoverPlan fmt g s.disk.medium false none = .redo writes seq)
    (hRecoverable : Recoverable fmt g s.disk.medium h) (hLanded : landed.Sublist (writes.take i)) :
    Recoverable fmt g (s.disk.crash landed).medium h := by
  have hSubset : ∀ w ∈ landed, w ∈ writes := fun w hMem =>
    List.mem_of_mem_take (hLanded.subset hMem)
  obtain ⟨hHolds, hWrites⟩ := recoverPlan_redo hPlan
  have hHomes : ∀ w ∈ landed, g.Home w.1 := by
    intro w hMem
    apply home_of_headerWrites hHolds
    rw [← hWrites]
    exact hSubset w hMem
  have hHome := hRecoverable.home
  unfold recoveredHome at hHome
  rw [hPlan] at hHome
  constructor
  · have hKept : (s.disk.crash landed).medium g.journalStart = s.disk.medium g.journalStart :=
      writeAll_of_ne fun w hMem => home_ne_journalStart (hHomes w hMem)
    rw [hKept]
    exact hRecoverable.header
  · intro b hBlock
    rw [← hHome b hBlock, recoveredHome, WriteCache.crash, recoverPlan_writeAll hPlan hHomes]
    exact writeAll_congr writes fun hNone => writeAll_of_ne fun w hMem => hNone w (hSubset w hMem)

theorem journalOk_crash (hOk : JournalOk fmt g start s) (hLanded : landed.Sublist s.disk.pending) :
    JournalOk fmt g start (s.crash landed) := by
  obtain ⟨h, hPhase⟩ := hOk.phase
  suffices hDown : ∃ h', Outcome start s.attempts h' ∧
        Recoverable fmt g (s.disk.crash landed).medium h' by
    obtain ⟨h', hOutcome, hRecoverable⟩ := hDown
    exact ⟨SlotsOk.nil, h', hOutcome, rfl, rfl, hRecoverable⟩
  unfold PhaseOk at hPhase
  cases hWhere : s.phase with simp only [hWhere] at hPhase
  | idle | discard => exact ⟨h, hPhase.1, hPhase.2.crash hLanded⟩
  | data | header => exact ⟨h, hPhase.1.lost, hPhase.2.1.crash hLanded⟩
  | headerFlush =>
    obtain ⟨hUnderway, hHome, hHeader, hData, hPending⟩ := hPhase
    rw [hPending] at hLanded
    exact headerFlush_crash hOk.slots hUnderway hHome hHeader hData hLanded
  | home =>
    obtain ⟨hUnderway, hApplying, hPending⟩ := hPhase
    rw [hPending] at hLanded
    exact ⟨writeAll h s.slots, hUnderway.made, hApplying.crash hOk.slots hUnderway hLanded⟩
  | clear => exact ⟨writeAll h s.slots, hPhase.1.made, hPhase.2.crash hLanded⟩
  | down =>
    obtain ⟨hOutcome, _, hPending, hRecoverable⟩ := hPhase
    rw [hPending, List.sublist_nil] at hLanded
    rw [hLanded]
    exact ⟨h, hOutcome, hRecoverable⟩
  | redo =>
    obtain ⟨hOutcome, hPlan, hPending, hRecoverable⟩ := hPhase
    rw [hPending] at hLanded
    exact ⟨h, hOutcome, redo_crash hPlan hRecoverable hLanded⟩

----
-- Every Step
----

/- The device answers every request with success. -/
def JournalOp.Faultless : JournalOp g β → Prop
  | .io r => r = .ok
  | .mount r => r = .complete
  | _ => True

instance (op : JournalOp g β) : Decidable op.Faultless :=
  match op with
  | .io r => inferInstanceAs (Decidable (r = .ok))
  | .mount r => inferInstanceAs (Decidable (r = .complete))
  | .begin => isTrue trivial
  | .stage _ _ => isTrue trivial
  | .abort => isTrue trivial
  | .commit => isTrue trivial
  | .crash _ => isTrue trivial

theorem phase_of_idle (hIdle : s.phase.Idle) : s.phase = .idle := by
  cases hWhere : s.phase with
  | idle => rfl
  | _ => simp [hWhere, JournalPhase.Idle] at hIdle

theorem phase_of_down (hDown : s.phase.Down) : s.phase = .down := by
  cases hWhere : s.phase with
  | down => rfl
  | _ => simp [hWhere, JournalPhase.Down] at hDown

theorem journalOk_idle (hIdle : s.phase.Idle) (hOk : JournalOk fmt g start s) : s.phase = .idle ∧
      ∃ h, Outcome start s.attempts h ∧ Quiet fmt g h s.disk := by
  obtain ⟨h, hPhase⟩ := hOk.phase
  have hWhere := phase_of_idle hIdle
  simp only [PhaseOk, hWhere] at hPhase
  exact ⟨hWhere, h, hPhase⟩

theorem journalOk_commit (hIdle : s.phase.Idle) (hOk : JournalOk fmt g start s) :
    JournalOk fmt g start (s.journalCommit g) := by
  obtain ⟨hWhere, h, hOutcome, hQuiet⟩ := journalOk_idle hIdle hOk
  unfold journalCommit
  split
  · exact ⟨SlotsOk.nil, h, hOutcome, hQuiet⟩
  split
  · refine ⟨hOk.slots, h, ?_⟩
    simp only [hWhere]
    exact ⟨hOutcome, hQuiet⟩
  · rename_i hSome
    refine ⟨hOk.slots, h, ?_, hQuiet, ?_⟩
    · exact ⟨hSome, s.attempts, rfl, hOutcome⟩
    · omega

theorem journalOk_stage (hIdle : s.phase.Idle) (hHome : g.Home b) (hOk : JournalOk fmt g start s) :
    JournalOk fmt g start (s.stage b v) := by
  obtain ⟨hWhere, h, hOutcome, hQuiet⟩ := journalOk_idle hIdle hOk
  unfold stage
  split
  · rename_i slots hStage
    refine ⟨hOk.slots.stageSlot hHome hStage, h, ?_⟩
    simp only [hWhere]
    exact ⟨hOutcome, hQuiet⟩
  · refine ⟨hOk.slots, h, ?_⟩
    simp only [hWhere]
    exact ⟨hOutcome, hQuiet⟩

theorem journalOk_io (hOk : JournalOk fmt g start s) : JournalOk fmt g start (s.io fmt g .ok) := by
  obtain ⟨h, hPhase⟩ := hOk.phase
  unfold io
  unfold PhaseOk at hPhase
  cases hWhere : s.phase with simp only [hWhere] at hPhase
  | idle => exact hOk
  | data => exact journalOk_ioData hOk.slots hPhase.1 hPhase.2.1 hPhase.2.2
  | header => exact journalOk_ioHeader hOk.slots hPhase.1 hPhase.2.1 hPhase.2.2.1 hPhase.2.2.2
  | headerFlush =>
    obtain ⟨hUnderway, hHome, _, hData, hPending⟩ := hPhase
    exact journalOk_ioHeaderFlush hOk.slots hUnderway hHome hData hPending
  | home => exact journalOk_ioHome hOk.slots hPhase.1 hPhase.2.1 hPhase.2.2
  | clear =>
    refine ⟨SlotsOk.nil, writeAll h s.slots, hPhase.1.returned, ?_⟩
    exact hPhase.2.write not_home_journalStart fun _ => harmless_zero
  | down => exact hOk
  | redo =>
    obtain ⟨hOutcome, hPlan, hPending, hRecoverable⟩ := hPhase
    exact journalOk_ioRedo hOk.slots hOutcome hPlan hPending hRecoverable
  | discard =>
    refine ⟨hOk.slots, h, hPhase.1, ?_⟩
    exact hPhase.2.write not_home_journalStart fun _ => harmless_zero

theorem journalOk_step (op : JournalOp g β) (hOk : JournalOk fmt g start s)
    (hEnabled : journalEnabled g s op) (hFaultless : op.Faultless) :
    JournalOk fmt g start (journalExec fmt g s op) := by
  cases op with
  | begin =>
    obtain ⟨hWhere, h, hIdle⟩ := journalOk_idle hEnabled hOk
    refine ⟨SlotsOk.nil, h, ?_⟩
    simp only [journalExec, journalBegin, hWhere]
    exact hIdle
  | stage b => exact journalOk_stage hEnabled.1 b.2 hOk
  | abort =>
    obtain ⟨_, h, hIdle⟩ := journalOk_idle hEnabled.1 hOk
    exact ⟨SlotsOk.nil, h, hIdle⟩
  | commit => exact journalOk_commit hEnabled.1 hOk
  | io r =>
    rw [show r = .ok from hFaultless]
    exact journalOk_io hOk
  | crash => exact journalOk_crash hOk hEnabled
  | mount r =>
    rw [show r = .complete from hFaultless]
    exact journalOk_mount (phase_of_down hEnabled) hOk

----
-- Runs
----

/- Runs of the journal on a device that does not fail. -/
def FaultlessRun (fmt : JournalFormat β τ) (g : Geometry) :
    JournalState β → JournalState β → Prop :=
  Run (journalExec fmt g) fun s op => journalEnabled g s op ∧ op.Faultless

theorem journalOk_formatted (m : Nat → β) : JournalOk fmt g m (formatted fmt g m) where
  slots := SlotsOk.nil
  phase := by
    refine ⟨m, Outcome.none, ?_⟩
    apply quiet_of_medium
    · intro b hBlock
      exact if_neg hBlock.2
    · have := g.room
      rw [if_pos (by omega)]
      exact harmless_zero

theorem journalOk_run (hRun : FaultlessRun fmt g (formatted fmt g m) s) : JournalOk fmt g m s :=
  Run.invariant (JournalOk fmt g m) (fun _ op hOk hStep =>
      journalOk_step op hOk hStep.1 hStep.2)
    hRun (journalOk_formatted m)

/- The requests of a recovery after its reads. -/
def recoverIo (n : Nat) : List (JournalOp g β) := List.replicate n (.io .ok)

/-
  What a finished recovery leaves: every request was possible,
  the volume is mounted, and no commit was entered.
-/
structure Finishes (fmt : JournalFormat β τ) (g : Geometry) (s : JournalState β)
    (ops : List (JournalOp g β)) : Prop where
  possible : AllOk (journalExec fmt g) (fun s op => journalEnabled g s op ∧ op.Faultless) s ops
  idle : (runAll (journalExec fmt g) s ops).phase = .idle
  attempts : (runAll (journalExec fmt g) s ops).attempts = s.attempts

theorem Finishes.io {ops : List (JournalOp g β)} (hBusy : s.phase.Busy)
    (hAttempts : (s.io fmt g .ok).attempts = s.attempts)
    (hRest : Finishes fmt g (s.io fmt g .ok) ops) : Finishes fmt g s (.io .ok :: ops) where
  possible := ⟨⟨hBusy, rfl⟩, hRest.possible⟩
  idle := hRest.idle
  attempts := hRest.attempts.trans hAttempts

theorem finishes_nil (hIdle : s.phase = .idle) : Finishes fmt g s [] where
  possible := trivial
  idle := hIdle
  attempts := rfl

theorem discard_finishes (hPhase : s.phase = .discard) : Finishes fmt g s (recoverIo 1) := by
  have hIo : s.io fmt g .ok = s.ioDiscard fmt g .ok := by
    simp [io, hPhase]
  apply Finishes.io
  · rw [hPhase]
    trivial
  · rw [hIo]
    rfl
  · apply finishes_nil
    rw [hIo]
    rfl

/- By induction on the number of writes still to redo. -/
theorem redo_finishes (fmt : JournalFormat β τ) (g : Geometry)
    (writes : List (Nat × β)) (seq left : Nat) : ∀ (s : JournalState β) (i : Nat),
      s.phase = .redo writes seq i → writes.length ≤ i + left →
          ∃ n, Finishes fmt g s (recoverIo n) := by
  induction left with intro s i hPhase hLength
  | zero =>
    have hEnd : writes[i]? = none := List.getElem?_eq_none_iff.mpr (by omega)
    have hIo : s.io fmt g .ok = s.ioRedo writes seq i .ok := by
      simp [io, hPhase]
    refine ⟨2, Finishes.io ?_ ?_ (discard_finishes ?_)⟩
    · rw [hPhase]
      trivial
    · simp [hIo, ioRedo, hEnd]
    · simp [hIo, ioRedo, hEnd]
  | succ left ih =>
    by_cases hPast : writes.length ≤ i + left
    · exact ih s i hPhase hPast
    have hIndex : i < writes.length := by omega
    have hIo : s.io fmt g .ok = s.ioRedo writes seq i .ok := by
      simp [io, hPhase]
    have hNext : (s.io fmt g .ok).phase = .redo writes seq (i + 1) := by
      simp [hIo, ioRedo, hIndex]
    obtain ⟨n, hRest⟩ := ih _ _ hNext (by omega)
    refine ⟨n + 1, Finishes.io ?_ ?_ hRest⟩
    · rw [hPhase]
      trivial
    · simp [hIo, ioRedo, hIndex]

theorem mount_finishes (fmt : JournalFormat β τ) (g : Geometry)
    (s : JournalState β) (hDown : s.phase = .down) : ∃ n, Finishes fmt g s
        (.mount .complete :: recoverIo n) := by
  suffices hRest : ∃ n, Finishes fmt g (s.mount fmt g .complete) (recoverIo n) ∧
        (s.mount fmt g .complete).attempts = s.attempts by
    obtain ⟨n, hIo, hAttempts⟩ := hRest
    refine ⟨n, ⟨⟨?_, rfl⟩, hIo.possible⟩, hIo.idle, hIo.attempts.trans hAttempts⟩
    simp [journalEnabled, hDown, JournalPhase.Down]
  unfold mount
  rw [if_neg g.placed, if_neg (by decide)]
  split
  · exact ⟨0, finishes_nil rfl, rfl⟩
  · exact ⟨1, discard_finishes rfl, rfl⟩
  rename_i writes seq _
  obtain ⟨n, hIo⟩ := redo_finishes fmt g writes seq writes.length
      { s with phase := .redo writes seq 0 } 0 rfl (by omega)
  exact ⟨n, hIo, rfl⟩

/-
  The journal is crash atomic. Let the power fail at any point
  of any run: the recovery at the next mount ends, and the
  home blocks are then those of an outcome of the commits
  entered so far.
-/
theorem journal_crash_atomic {m : Nat → β} (hRun : FaultlessRun fmt g (formatted fmt g m) s)
    {landed : List (Nat × β)} (hLanded : landed.Sublist s.disk.pending) :
    ∃ n s', s' = runAll (journalExec fmt g) (s.crash landed) (.mount .complete :: recoverIo n) ∧
        s'.phase = .idle ∧ ∃ h, Outcome m s.attempts h ∧ ∀ b, g.Home b → s'.disk.read b = h b := by
  obtain ⟨n, hFinishes⟩ := mount_finishes fmt g (s.crash landed) rfl
  have hRun' : FaultlessRun fmt g (formatted fmt g m) (runAll (journalExec fmt g) (s.crash landed)
          (.mount .complete :: recoverIo n)) :=
    (hRun.snoc (.crash landed) ⟨hLanded, trivial⟩).trans (run_runAll _ hFinishes.possible)
  have hOk := journalOk_run hRun'
  obtain ⟨_, h, hOutcome, hQuiet⟩ := journalOk_idle (by rw [hFinishes.idle]; trivial) hOk
  rw [hFinishes.attempts] at hOutcome
  exact ⟨n, _, rfl, hFinishes.idle, h, hOutcome, fun b hHome => hQuiet.read hHome⟩

end Atomic

/- Two blocks are committed; one of them is home at the crash. -/
def smallGeometry : Geometry where
  totalBlocks := 100
  journalStart := 40
  journalBlocks := 25
  placed := by decide
  room := by decide

def blockThree : {b // smallGeometry.Home b} := ⟨3, by decide⟩
def blockFive : {b // smallGeometry.Home b} := ⟨5, by decide⟩

def twoBlocks : List (JournalOp smallGeometry (List Nat)) :=
  [.begin, .stage blockThree [7], .stage blockFive [8],
    .commit, .io .ok, .io .ok, .io .ok, .io .ok, .io .ok, .io .ok]

theorem journal_crash_atomic_twoBlocks :
    ∃ n s', s' = runAll (journalExec plainFormat smallGeometry)
            ((runAll (journalExec plainFormat smallGeometry)
              (formatted plainFormat smallGeometry fun _ => [0])
              twoBlocks).crash [(3, [7])])
            (.mount .complete :: recoverIo n) ∧
        s'.phase = .idle ∧ ∃ h, Outcome (fun _ => [0]) [⟨[(3, [7]), (5, [8])], false⟩] h ∧
            ∀ b, smallGeometry.Home b → s'.disk.read b = h b :=
  journal_crash_atomic (run_runAll twoBlocks (by decide +kernel)) (by decide +kernel)

end Horus.Storage
