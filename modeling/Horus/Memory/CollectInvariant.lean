import Horus.Memory.Collect

/-
  What the collector leaves, and the invariant it needs.

  The sweep takes an entry of a table unless it is pinned,
  marked, or a frame that is mapped. The marks are the names
  that live tasks and the root table hold. `Store.Sound` says
  that those are names of objects that are there, and that an
  object between its allocation and its first name is pinned
  and cannot be named. The rules say which changes of the
  capabilities, of the tables and of the objects in the making
  keep it.
-/

namespace Horus

open Function

variable {i' i t : Nat} {cls cls' : KobjClass} {m : Memory} {c : Capability} {x : Making}

----
-- Tables of Objects
----

namespace Memory

@[simp] theorem setSlot_self (m : Memory) (cls : KobjClass) (i : Nat) (slot : KobjSlot) :
    (m.setSlot cls i slot).slots cls i = slot := by
  simp [setSlot]

theorem setSlot_of_ne (m : Memory) (slot : KobjSlot) (hNe : (cls', i') ≠ (cls, i)) :
    (m.setSlot cls i slot).slots cls' i' = m.slots cls' i' := by
  unfold setSlot
  rcases eq_or_ne cls' cls with rfl | hCls
  · have hIndex : i' ≠ i := fun hEq => hNe (by rw [hEq])
    simp [hIndex]
  · simp [hCls]

/- A new object has a free entry, and is pinned in it. -/
theorem kobjAlloc_slots {cfg : MemConfig} {u : Nat} {typ : KobjType} {pages : Nat} {r : Nat × Nat}
    (hSome : (m.kobjAlloc cfg u typ pages).1 = some r) (hCls : typ.indexed = some cls) :
    ∃ i slot, i < cls.maxDyn ∧ r.2 = cls.dynBase + i ∧ (m.slots cls i).mem = none ∧
      slot.mem.isSome = true ∧ slot.pinned = true ∧
      (m.kobjAlloc cfg u typ pages).2.slots = (m.setSlot cls i slot).slots := by
  unfold kobjAlloc at hSome ⊢
  dsimp only at hSome ⊢
  generalize (if typ ≠ .frame ∨ pages = 0 then 1 else pages) = pages at hSome ⊢
  split at hSome
  · cases hSome
  rename_i hBound
  split at hSome
  · cases hSome
  rename_i hNeed
  rw [if_neg hBound, if_neg hNeed]
  split at hSome
  · cases hSome
  rename_i index hIndex
  split at hSome
  · cases hSome
  obtain rfl := Option.some.inj hSome
  simp only [kobjIndex, hCls, Option.map_eq_some_iff] at hIndex
  rcases hIndex with ⟨i, hFree, rfl⟩
  have hFound := firstIndex_some hFree
  refine ⟨i, _, hFound.2, rfl, Option.isNone_iff_eq_none.mp hFound.1, ?_, ?_, rfl⟩ <;> rfl

theorem destroyDyn_of_ne (m : Memory) (mapped : Bool) (hNe : (cls', i') ≠ (cls, i)) :
    (m.destroyDyn cls i mapped).slots cls' i' = m.slots cls' i' := by
  unfold destroyDyn
  dsimp only
  split
  · rfl
  · rw [setSlot_of_ne _ _ hNe]
    split <;> rfl

end Memory

/- An entry after the sweep has come by. -/
def sweptSlot (marked mapped : Bool) (cls : KobjClass) (slot : KobjSlot) : KobjSlot :=
  if slot.mem.isSome && !slot.pinned && !marked && !(cls = .frame && mapped) then
    { slot with mem := none, pinned := false, pages := if cls = .frame then 0 else slot.pages }
  else slot

theorem sweptSlot_isSome (marked mapped : Bool) (cls : KobjClass) (slot : KobjSlot) :
    (sweptSlot marked mapped cls slot).mem.isSome = true ↔
      slot.mem.isSome = true ∧ (slot.pinned = true ∨ marked = true ∨
          (cls = .frame ∧ mapped = true)) := by
  unfold sweptSlot
  split
  · rename_i hDoomed
    simp only [Bool.and_eq_true, Bool.not_eq_true',
      Bool.and_eq_false_iff, decide_eq_false_iff_not] at hDoomed
    simp only [Option.isSome_none, Bool.false_eq_true, false_iff, not_and, not_or]
    intro _
    simp only [hDoomed.1.1.2, hDoomed.1.2, Bool.false_eq_true, not_false_eq_true, true_and]
    rintro hFrame hMapped
    rcases hDoomed.2 with hOther | hUnmapped
    · exact hOther hFrame
    · rw [hMapped] at hUnmapped
      cases hUnmapped
  · rename_i hKept
    simp only [Bool.and_eq_true, Bool.not_eq_true',
      Bool.and_eq_false_iff, decide_eq_false_iff_not] at hKept
    constructor
    · intro hAlive
      refine ⟨hAlive, ?_⟩
      by_contra hNone
      simp only [not_or, Bool.not_eq_true] at hNone
      exact hKept ⟨⟨⟨hAlive, hNone.1⟩, hNone.2.1⟩, by
        by_cases hFrame : cls = .frame
        · exact .inr (by simpa [hFrame] using hNone.2.2)
        · exact .inl hFrame⟩
    · exact fun hAlive => hAlive.1

theorem sweptSlot_of_kept {marked mapped : Bool} {slot : KobjSlot} (cls : KobjClass)
    (hKept : slot.pinned = true ∨ marked = true) : sweptSlot marked mapped cls slot = slot := by
  unfold sweptSlot
  rcases hKept with hPinned | hMarked
  · simp [hPinned]
  · simp [hMarked]

theorem sweptSlot_idem (marked mapped : Bool) (cls : KobjClass) (slot : KobjSlot) :
    sweptSlot marked mapped cls (sweptSlot marked mapped cls slot) =
      sweptSlot marked mapped cls slot := by
  by_cases hAlive : (sweptSlot marked mapped cls slot).mem.isSome = true
  · have hSame : sweptSlot marked mapped cls slot = slot := by
      unfold sweptSlot at hAlive ⊢
      split at hAlive
      · cases hAlive
      · rw [if_neg (by assumption)]
    rw [hSame, hSame]
  · generalize sweptSlot marked mapped cls slot = slot at *
    unfold sweptSlot
    simp [hAlive]

theorem sweepTurn_slots (marks mapped : Nat → Bool)
    (cls : KobjClass) (m : Memory) (i : Nat) (cls' : KobjClass) (i' : Nat) :
    (sweepTurn marks mapped cls m i).slots cls' i' = if cls' = cls ∧ i' = i then
        sweptSlot (marks i) (mapped i) cls (m.slots cls i)
      else m.slots cls' i' := by
  unfold sweepTurn
  by_cases hHere : cls' = cls ∧ i' = i
  · rcases hHere with ⟨rfl, rfl⟩
    rw [if_pos (And.intro rfl rfl)]
    unfold sweptSlot Memory.destroyDyn
    by_cases hMapped : cls' = .frame ∧ mapped i' = true
    · simp [hMapped.1, hMapped.2]
    have hFrame : (!(decide (cls' = .frame) && mapped i')) =
        true := by
      rw [Bool.not_eq_true', ← Bool.not_eq_true, Bool.and_eq_true, decide_eq_true_eq]
      exact hMapped
    rw [hFrame, Bool.and_true]
    split
    · rename_i hDoomed
      simp only [Bool.and_eq_true] at hDoomed
      rw [if_neg, Memory.setSlot_self]
      simp only [Option.isNone_iff_eq_none, not_or]
      exact ⟨Option.isSome_iff_ne_none.mp hDoomed.1.1, hMapped⟩
    · rfl
  · split
    · apply Memory.destroyDyn_of_ne
      intro hEq
      exact hHere ⟨congrArg Prod.fst hEq, congrArg Prod.snd hEq⟩
    · rfl

/- The loop comes by every entry of its table. -/
theorem sweepLoop_slots (marks mapped : Nat → Bool)
    (cls : KobjClass) (indices : List Nat) (m : Memory) (cls' : KobjClass) (i : Nat) :
    (indices.foldl (sweepTurn marks mapped cls) m).slots cls' i = if cls' = cls ∧ i ∈ indices then
        sweptSlot (marks i) (mapped i) cls (m.slots cls i)
      else m.slots cls' i := by
  induction indices generalizing m with
  | nil => simp
  | cons j _ ih =>
  rw [List.foldl_cons, ih]
  simp only [sweepTurn_slots, List.mem_cons]
  rcases eq_or_ne cls' cls with rfl | hCls
  · by_cases hHere : i = j
    · subst hHere
      simp [sweptSlot_idem]
    · simp [hHere]
  · simp [hCls]

theorem sweepClass_slots (marks mapped : Nat → Bool)
    (cls : KobjClass) (m : Memory) (hIndex : i < cls'.maxDyn) :
    (sweepClass marks mapped cls m).slots cls' i = if cls' = cls then
        sweptSlot (marks i) (mapped i) cls' (m.slots cls' i)
      else m.slots cls' i := by
  have hIn := List.mem_range.mpr hIndex
  have hLoop := sweepLoop_slots marks mapped cls (List.range cls.maxDyn) m cls' i
  refine hLoop.trans ?_
  rcases eq_or_ne cls' cls with rfl | hCls
  · -- The tables are too long to be computed with.
    simp [hIn]
  · rw [if_neg (fun hBoth => hCls hBoth.1), if_neg hCls]

/- What is left of each entry after the collection. -/
theorem Store.swept_slots (s : Store) (cls : KobjClass)
    (hIndex : i < cls.maxDyn) : s.swept.slots cls i =
      sweptSlot (markReachable s cls i) (s.mapped i) cls (s.mem.slots cls i) := by
  have hSweep : ∀ cls' m, (s.sweep cls' m).slots cls i = if cls = cls' then
        sweptSlot (markReachable s cls' i) (s.mapped i) cls (m.slots cls i)
      else m.slots cls i :=
    fun cls' m => sweepClass_slots (markReachable s cls') s.mapped cls' m hIndex
  rw [Store.swept, hSweep, hSweep, hSweep, hSweep]
  cases cls <;> simp

theorem kobjGcLocked_mem (s : Store) : (kobjGcLocked s).mem = s.swept := by
  rw [kobjGcLocked, Store.withMem]

/- Some capability in sight names the entry. -/
def Store.Named (s : Store) (cls : KobjClass) (i : Nat) : Prop :=
  ∃ a, s.sys.cap.Visible a ∧ (s.sys.cap.mem a).dynName = some (cls, i)

theorem markCap_iff (c : Capability) (cls : KobjClass) (i : Nat) :
    markCap c cls i = true ↔ c.serial ≠ 0 ∧ c.dynName = some (cls, i) := by
  simp [markCap]

theorem markReachable_iff {s : Store} (hTables : Tables s.sys.cap) (cls : KobjClass) (i : Nat) :
    markReachable s cls i = true ↔ (∃ a, s.sys.cap.Visible a ∧ (s.sys.cap.mem a).serial ≠ 0 ∧
        (s.sys.cap.mem a).dynName = some (cls, i)) ∨
      (cls = .frame ∧ s.shlib i = true) := by
  have hTask : ∀ t space, (s.sys.cap.tasks t).cspace = some space →
      min (s.sys.cap.tasks t).cspaceSz cnodeSize =
        cnodeSize := by
    intro t space hSpace
    rw [hTables.cspaceSz t (by simp [hSpace]), min_self]
  unfold markReachable
  simp only [Bool.or_eq_true, decide_eq_true_eq]
  refine or_congr ?_ Iff.rfl
  simp only [List.any_eq_true, List.mem_range]
  constructor
  · rintro (⟨t, hMax, hTaskMarks⟩ | ⟨slot, hSlot, hMark⟩)
    · split at hTaskMarks
      · cases hTaskMarks
      rename_i hAlive
      split at hTaskMarks
      · cases hTaskMarks
      rename_i space hSpace
      simp only [List.any_eq_true, List.mem_range] at hTaskMarks
      rcases hTaskMarks with ⟨slot, hSlot, hMark⟩
      rw [hTask t space hSpace] at hSlot
      refine ⟨⟨space, slot⟩, (hTables.visible_iff _).mpr ⟨hSlot, .inr ⟨t, ?_, hSpace⟩⟩,
        (markCap_iff _ cls i).mp hMark⟩
      simp only [CapState.running, decide_eq_true_eq]
      exact ⟨hMax, hAlive⟩
    · exact ⟨⟨rootSpace, slot⟩, (hTables.visible_iff _).mpr
        ⟨hSlot, .inl rfl⟩, (markCap_iff _ cls i).mp hMark⟩
  · rintro ⟨a, hVisible, hMark⟩
    rw [← markCap_iff] at hMark
    rcases (hTables.visible_iff a).mp hVisible with ⟨hSlot, hRoot | ⟨t, hRun, hSpace⟩⟩
    · right
      exact ⟨a.slot, hSlot, by rw [← hRoot]; exact hMark⟩
    left
    simp only [CapState.running, decide_eq_true_eq] at hRun
    refine ⟨t, hRun.1, ?_⟩
    simp only [if_neg hRun.2, hSpace, List.any_eq_true, List.mem_range, hTask t _ hSpace]
    exact ⟨a.slot, hSlot, hMark⟩

----
-- The Invariant
----

/- An object that `t` has allocated and nobody can name. -/
structure Store.InMaking (s : Store) (t : Nat) (x : Making) : Prop where
  call : s.inCall t = true
  index : x.index < x.cls.maxDyn
  alive : (s.mem.slots x.cls x.index).mem.isSome = true
  pinned : (s.mem.slots x.cls x.index).pinned = true
  unnamed : ¬ s.Named x.cls x.index
  unshared : ¬ (x.cls = .frame ∧ s.shlib x.index = true)

structure Store.Sound (s : Store) : Prop where
  tables : Tables s.sys.cap
  calls : ∀ t, s.inCall t = true → (s.sys.cap.tasks t).cspace ≠ none
  names : ∀ a cls i, s.sys.cap.Visible a → (s.sys.cap.mem a).dynName = some (cls, i) →
    (s.mem.slots cls i).mem.isSome = true ∧ s.ids cls i = s.named a ∧ (s.sys.cap.mem a).serial ≠ 0
  made : ∀ t x, s.making t = some x → s.InMaking t x
  apart : ∀ t t' x x', s.making t = some x → s.making t' = some x' →
    (x.cls, x.index) = (x'.cls, x'.index) → t = t'
  shared : ∀ i, s.shlib i = true → i < KobjClass.frame.maxDyn ∧
      (s.mem.slots .frame i).mem.isSome = true

/- An object that is there and is not in the making. -/
def Store.Settled (s : Store) (cls : KobjClass) (i : Nat) : Prop :=
  (s.mem.slots cls i).mem.isSome = true ∧ ∀ t x, s.making t = some x → (x.cls, x.index) ≠ (cls, i)

theorem dynEntry_bound {typ : CapType} {object : Nat}
    (hEntry : dynEntry typ object = some (cls, i)) : i < cls.maxDyn := by
  unfold dynEntry at hEntry
  split at hEntry
  · cases hEntry
  split at hEntry
  · rcases hEntry with ⟨rfl, rfl⟩
    omega
  · cases hEntry

theorem dynEntry_capType (hIndex : i < cls.maxDyn) :
    dynEntry cls.capType (cls.dynBase + i) = some (cls, i) := by
  have hClass : capClass cls.capType = some cls := by
    cases cls <;> rfl
  unfold dynEntry
  simp only [hClass]
  rw [if_pos (by omega)]
  simp

theorem dynName_of_null (hNull : c.typ = .null) : c.dynName = none := by
  simp [Capability.dynName, dynEntry, hNull, capClass]

theorem dynName_congr {c' : Capability} (hTyp : c'.typ = c.typ)
    (hObject : c'.object = c.object) : c'.dynName = c.dynName := by
  unfold Capability.dynName
  rw [hTyp, hObject]

/- The object of another entry keeps its number. -/
theorem ids_of_ne {ids : KobjClass → Nat → Nat} {id : Nat} (hNe : (cls', i') ≠ (cls, i)) :
    update ids cls (update (ids cls) i id) cls' i' = ids cls' i' := by
  rcases eq_or_ne cls' cls with rfl | hCls
  · have hIndex : i' ≠ i := fun hEq => hNe (by rw [hEq])
    simp [hIndex]
  · simp [hCls]

theorem of_update_none {making : Nat → Option Making} {t' : Nat}
    (hSome : update making t none t' = some x) : t' ≠ t ∧ making t' = some x := by
  rcases eq_or_ne t' t with rfl | hEq
  · simp at hSome
  · rw [update_of_ne hEq] at hSome
    exact ⟨hEq, hSome⟩

namespace Store.Sound

variable {s : Store} (hSound : s.Sound)

include hSound

theorem settled_of_named (hNamed : s.Named cls i) : s.Settled cls i := by
  rcases hNamed with ⟨a, hVisible, hName⟩
  refine ⟨(hSound.names a cls i hVisible hName).1, ?_⟩
  rintro t x hMaking hEq
  cases hEq
  exact (hSound.made t x hMaking).unnamed ⟨a, hVisible, hName⟩

theorem settled_of_shared (hShared : s.shlib i = true) : s.Settled .frame i := by
  refine ⟨(hSound.shared i hShared).2, ?_⟩
  rintro t x hMaking hEq
  rw [Prod.mk.injEq] at hEq
  exact (hSound.made t x hMaking).unshared ⟨hEq.1, hEq.2 ▸ hShared⟩

theorem alive_of_needed (hNeeded : s.Named cls i ∨ (cls = .frame ∧ s.shlib i = true)) :
    (s.mem.slots cls i).mem.isSome = true := by
  rcases hNeeded with hNamed | ⟨rfl, hShared⟩
  · exact (hSound.settled_of_named hNamed).1
  · exact (hSound.shared i hShared).2

/- The capabilities move on. -/
theorem withSys (sys : Sys) (hTables : Tables sys.cap)
    (hCalls : ∀ t, s.inCall t = true → (sys.cap.tasks t).cspace ≠ none)
    (hSeen : ∀ a cls i, sys.cap.Visible a → (sys.cap.mem a).dynName = some (cls, i) →
      (s.sys.cap.Visible a ∧ SameRecord (s.sys.cap.mem a) (sys.cap.mem a)) ∨
        ((sys.cap.mem a).serial ≠ 0 ∧ s.Settled cls i)) :
    (s.withSys sys).Sound where
  tables := hTables
  calls := hCalls
  names := by
    intro a cls i hVisible hName
    have hId : s.idOf (sys.cap.mem a) = s.ids cls i := by
      have hName : (sys.cap.mem a).dynName = some (cls, i) := hName
      simp [Store.idOf, hName]
    have hNamed : ∀ b : Prop, [Decidable b] → (b → s.ids cls i = s.named a) →
        s.ids cls i = if b then s.named a
          else s.idOf (sys.cap.mem a) := by
      intro b _ hSame
      split
      · exact hSame (by assumption)
      · exact hId.symm
    rcases hSeen a cls i hVisible hName with ⟨hOld, hSame⟩ | ⟨hSerial, hSettled⟩
    · have hNames := hSound.names a cls i hOld
        ((dynName_congr hSame.typ hSame.object).symm.trans hName)
      exact ⟨hNames.1, hNamed _ (fun _ => hNames.2.1), hSame.serial ▸ hNames.2.2⟩
    · refine ⟨hSettled.1, hNamed _ ?_, hSerial⟩
      rintro ⟨hOld, hSame⟩
      simp only [sameRecord, decide_eq_true_eq] at hSame
      exact (hSound.names a cls i hOld ((dynName_congr hSame.1 hSame.2.2.1).symm.trans hName)).2.1
  made := by
    intro t x hMaking
    have hMade := hSound.made t x hMaking
    refine { hMade with unnamed := ?_ }
    rintro ⟨a, hVisible, hName⟩
    rcases hSeen a x.cls x.index hVisible hName with ⟨hOld, hSame⟩ | ⟨_, hSettled⟩
    · exact hMade.unnamed ⟨a, hOld, (dynName_congr hSame.typ hSame.object).symm.trans hName⟩
    · exact hSettled.2 t x hMaking rfl
  apart := hSound.apart
  shared := hSound.shared

theorem setDying (dying : Nat → Bool) : ({ s with dying := dying } : Store).Sound where
  __ := hSound
  made := fun t x hMaking => { hSound.made t x hMaking with }

theorem setMapped (mapped : Nat → Bool) : ({ s with mapped := mapped } : Store).Sound where
  __ := hSound
  made := fun t x hMaking => { hSound.made t x hMaking with }

/- The tables move on. -/
theorem withMem
    (hKept : ∀ cls i, s.Named cls i ∨ (cls = .frame ∧ s.shlib i = true) →
      (m.slots cls i).mem.isSome = true)
    (hMade : ∀ t x, s.making t = some x → m.slots x.cls x.index = s.mem.slots x.cls x.index) :
    (s.withMem m).Sound where
  __ := hSound
  names := by
    intro a cls i hVisible hName
    exact ⟨hKept cls i (.inl ⟨a, hVisible, hName⟩), (hSound.names a cls i hVisible hName).2⟩
  made := by
    intro t x hMaking
    have hOld := hSound.made t x hMaking
    have hSame := hMade t x hMaking
    exact
      { hOld with
        alive := by
          change (m.slots x.cls x.index).mem.isSome = true
          rw [hSame]
          exact hOld.alive
        pinned := by
          change (m.slots x.cls x.index).pinned = true
          rw [hSame]
          exact hOld.pinned }
  shared := by
    intro i hShared
    exact ⟨(hSound.shared i hShared).1, hKept .frame i (.inr ⟨rfl, hShared⟩)⟩

/- An entry that nobody needs, or only its pin, changes. -/
theorem setEntry (cls : KobjClass) (i : Nat)
    (hOther : ∀ cls' i', (cls', i') ≠ (cls, i) → m.slots cls' i' = s.mem.slots cls' i')
    (hHere : s.Named cls i ∨ (cls = .frame ∧ s.shlib i = true) → (m.slots cls i).mem.isSome = true)
    (hFree : ∀ t x, s.making t = some x → (x.cls, x.index) ≠ (cls, i)) : (s.withMem m).Sound := by
  apply hSound.withMem
  · intro cls' i' hNeeded
    by_cases hEq : (cls', i') = (cls, i)
    · rcases hEq with ⟨rfl, rfl⟩
      exact hHere hNeeded
    · rw [hOther cls' i' hEq]
      exact hSound.alive_of_needed hNeeded
  · intro t x hMaking
    exact hOther x.cls x.index (hFree t x hMaking)

theorem unpin (hSettled : s.Settled cls i) : (s.withMem (s.mem.kobjUnpin cls i)).Sound := by
  apply hSound.setEntry cls i
  · intro cls' i' hNe
    exact Memory.setSlot_of_ne _ _ hNe
  · intro _
    unfold Memory.kobjUnpin
    rw [Memory.setSlot_self]
    exact hSettled.1
  · exact hSettled.2

/- The collection keeps whatever is named or in the making. -/
theorem collect : (kobjGcLocked s).Sound := by
  apply hSound.withMem
  · intro cls i hNeeded
    have hMarked : markReachable s cls i = true := by
      apply (markReachable_iff hSound.tables cls i).mpr
      rcases hNeeded with ⟨a, hVisible, hName⟩ | hShared
      · exact .inl ⟨a, hVisible, (hSound.names a cls i hVisible hName).2.2, hName⟩
      · exact .inr hShared
    have hAlive : i < cls.maxDyn ∧ (s.mem.slots cls i).mem.isSome = true := by
      rcases hNeeded with ⟨a, hVisible, hName⟩ | ⟨rfl, hShared⟩
      · exact ⟨dynEntry_bound hName, (hSound.names a cls i hVisible hName).1⟩
      · exact hSound.shared i hShared
    rw [s.swept_slots cls hAlive.1, sweptSlot_of_kept cls (.inr hMarked)]
    exact hAlive.2
  · intro t x hMaking
    have hMade := hSound.made t x hMaking
    rw [s.swept_slots x.cls hMade.index, sweptSlot_of_kept x.cls (.inl hMade.pinned)]

/- The object in an entry that nobody names is a new one. -/
theorem renumber (id next : Nat) (hFree : ¬ s.Named cls i) :
    ({ s with
        ids := update s.ids cls (update (s.ids cls) i id)
        nextId := next } : Store).Sound where
  __ := hSound
  names := by
    intro a cls' i' hVisible hName
    have hNames := hSound.names a cls' i' hVisible hName
    refine ⟨hNames.1, ?_, hNames.2.2⟩
    rw [← hNames.2.1]
    refine ids_of_ne ?_
    rintro ⟨⟩
    exact hFree ⟨a, hVisible, hName⟩
  made := fun t x hMaking => { hSound.made t x hMaking with }

/- A call has made an object, or has made it and failed. -/
theorem setMaking (hMade : s.InMaking t x)
    (hFree : ∀ t' x', t' ≠ t → s.making t' = some x' → (x'.cls, x'.index) ≠ (x.cls, x.index)) :
    ({ s with making := update s.making t (some x) } : Store).Sound where
  __ := hSound
  made := by
    intro t' x' hMaking
    have hMade' : s.InMaking t' x' := by
      rcases eq_or_ne t' t with rfl | hEq
      · simp only [update_self, Option.some.injEq] at hMaking
        exact hMaking ▸ hMade
      · simp only [update_of_ne hEq] at hMaking
        exact hSound.made t' x' hMaking
    exact { hMade' with }
  apart := by
    intro t₁ t₂ x₁ x₂ hFirst hSecond hEq
    by_cases hOne : t₁ = t <;> by_cases hTwo : t₂ = t
    · rw [hOne, hTwo]
    · subst hOne
      simp only [update_self, Option.some.injEq] at hFirst
      simp only [update_of_ne hTwo] at hSecond
      subst hFirst
      exact absurd hEq.symm (hFree t₂ x₂ hTwo hSecond)
    · subst hTwo
      simp only [update_self, Option.some.injEq] at hSecond
      simp only [update_of_ne hOne] at hFirst
      subst hSecond
      exact absurd hEq (hFree t₁ x₁ hOne hFirst)
    · simp only [update_of_ne hOne] at hFirst
      simp only [update_of_ne hTwo] at hSecond
      exact hSound.apart t₁ t₂ x₁ x₂ hFirst hSecond hEq

/- A call is done with its object. -/
theorem clearMaking (t : Nat) : ({ s with making := update s.making t none } : Store).Sound where
  __ := hSound
  made := fun t' x hMaking => { hSound.made t' x (of_update_none hMaking).2 with }
  apart := by
    intro t₁ t₂ x₁ x₂ hFirst hSecond
    exact hSound.apart t₁ t₂ x₁ x₂ (of_update_none hFirst).2 (of_update_none hSecond).2

/- What was in the making is settled then. -/
theorem settled_of_making (hMaking : s.making t = some x) :
    ({ s with making := update s.making t none } : Store).Settled x.cls x.index := by
  refine ⟨(hSound.made t x hMaking).alive, ?_⟩
  intro t' x' hOther hEq
  have hOld := of_update_none hOther
  exact hOld.1 (hSound.apart t' t x' x hOld.2 hMaking hEq)

end Store.Sound

end Horus
