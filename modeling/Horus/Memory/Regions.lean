import Horus.Memory.Alloc

/-
  Memory is never handed out twice.

  Every call takes bytes off the unallocated tail of one
  region, divides a tail in two, or gives up a region that has
  just been split off. `Lib.Held` is kept by each of these, and
  a region's bytes bound what is carved from it and from the
  regions split from it, since all of that lies inside it.

  Main declarations:
    * `Memory.tail`, `Memory.objects`, `Memory.spent`
    * `MemSound`, `MemSound.take`, `MemSound.split`
    * `memSound_run`
    * `memory_handed_out_once`
-/

namespace Horus

open Function
open Lib (Extent)

variable {u off bytes v r align child parent : Nat} {typ : KobjType}

def MemConfig.extent (cfg : MemConfig) : Extent := ⟨cfg.arena, untypedArenaBytes⟩

namespace Memory

/- The bytes of region `u` that have not been handed out. -/
def tail (cfg : MemConfig) (m : Memory) (u : Nat) : Extent :=
  let r := m.untypeds u
  if r.inUse then ⟨cfg.arena + r.base + r.watermark, r.size - r.watermark⟩ else Extent.none

end Memory

def Carving.isObject (c : Carving) : Bool :=
  match c.what with
  | .object _ => true
  | .region _ => false

namespace Memory

/- The objects there have been. -/
def objects (m : Memory) : List Carving := m.carved.filter Carving.isObject

/- The bytes carved from a region, objects and sub-regions. -/
def spent (m : Memory) (r : Nat) : Nat :=
  ((m.carved.filter (·.region = r)).map (·.extent.bytes)).sum

/- Region `r` is `q`, or was split from it, or from one that was. -/
def Under (m : Memory) : Nat → Nat → Prop :=
  Relation.ReflTransGen fun r p => (m.regions r).parent = some p

open Classical in
/- The bytes of the objects carved from a region or under it. -/
noncomputable def objectBytes (m : Memory) (q : Nat) : Nat :=
  ((m.objects.filter (fun c => m.Under c.region q)).map (·.extent.bytes)).sum

end Memory

structure MemSound (cfg : MemConfig) (m : Memory) : Prop where
  fits : ∀ u, (m.untypeds u).inUse = true → (m.untypeds u).watermark ≤ (m.untypeds u).size ∧
    (m.untypeds u).base + (m.untypeds u).size ≤ untypedArenaBytes
  held : Lib.Held (m.objects.map Carving.extent) (m.tail cfg)
  frames : ∀ c ∈ m.carved, c.what = .object .frame → pageSize ∣ c.extent.start
  record : ∀ u, (m.untypeds u).inUse = true → m.regionOf u < m.nextRegion ∧
    (m.regions (m.regionOf u)).extent = ⟨cfg.arena + (m.untypeds u).base, (m.untypeds u).size⟩
  distinct : ∀ u v, (m.untypeds u).inUse = true → (m.untypeds v).inUse = true →
    m.regionOf u = m.regionOf v → u = v
  within : ∀ c ∈ m.carved, c.region < m.nextRegion ∧ c.extent.Inside (m.regions c.region).extent
  arena : ∀ r, r < m.nextRegion → (m.regions r).extent.Inside cfg.extent
  parents : ∀ r, r < m.nextRegion → ∀ p, (m.regions r).parent = some p → p < m.nextRegion ∧
      (m.regions r).extent.Inside (m.regions p).extent
  watermark : ∀ u, (m.untypeds u).inUse = true → m.spent (m.regionOf u) ≤ (m.untypeds u).watermark
  budget : ∀ r, r < m.nextRegion → m.spent r ≤ (m.regions r).extent.bytes

section Steps

variable {cfg : MemConfig} {m : Memory}

variable {m' : Memory}

/- The counter of a region does not matter. -/
theorem Memory.setObjects_same (m : Memory) (u objects v : Nat) :
    ((m.setObjects u objects).untypeds v).base = (m.untypeds v).base ∧
      ((m.setObjects u objects).untypeds v).size = (m.untypeds v).size ∧
      ((m.setObjects u objects).untypeds v).watermark = (m.untypeds v).watermark ∧
      ((m.setObjects u objects).untypeds v).inUse = (m.untypeds v).inUse := by
  by_cases hEq : v = u
  · rw [hEq, Memory.setObjects_self]
    exact ⟨rfl, rfl, rfl, rfl⟩
  · rw [m.setObjects_of_ne objects hEq]
    exact ⟨rfl, rfl, rfl, rfl⟩

theorem MemSound.setObjects_sound (hSound : MemSound cfg m) (u objects : Nat) :
    MemSound cfg (m.setObjects u objects) := by
  have hSame := m.setObjects_same u objects
  have hTail : (m.setObjects u objects).tail cfg = m.tail cfg := by
    funext v
    rcases hSame v with ⟨hBase, hSize, hMark, hUse⟩
    simp only [Memory.tail, hBase, hSize, hMark, hUse]
  refine
    { hSound with
      fits := fun v hUse => ?_
      held := ?_
      record := fun v hUse => ?_
      distinct := fun v w hUse hUse' => ?_
      watermark := fun v hUse => ?_ }
  · rcases hSame v with ⟨hBase, hSize, hMark, hUse'⟩
    rw [hBase, hSize, hMark]
    exact hSound.fits v (hUse' ▸ hUse)
  · rw [hTail]
    exact hSound.held
  · rcases hSame v with ⟨hBase, hSize, _, hUse'⟩
    rw [hBase, hSize]
    exact hSound.record v (hUse' ▸ hUse)
  · exact hSound.distinct v w ((hSame v).2.2.2 ▸ hUse) ((hSame w).2.2.2 ▸ hUse')
  · rcases hSame v with ⟨_, _, hMark, hUse'⟩
    rw [hMark]
    exact hSound.watermark v (hUse' ▸ hUse)

----
-- Taking an Object
----

/- The bytes from `off` on, in a region that has them. -/
structure Memory.Takes (m : Memory) (u off bytes : Nat) : Prop where
  inUse : (m.untypeds u).inUse = true
  above : (m.untypeds u).watermark ≤ off
  room : off + bytes ≤ (m.untypeds u).size

/- The region afterwards. -/
def Untyped.advance (r : Untyped) (watermark : Nat) : Untyped := { r with watermark := watermark }

/- What is taken lies in the tail, before what is left of it. -/
theorem Memory.Takes.parts (cfg : MemConfig) (hTakes : m.Takes u off bytes) :
    let start := cfg.arena + ((m.untypeds u).base + off)
    let rest : Extent := ⟨start + bytes, (m.untypeds u).size - (off + bytes)⟩
    Extent.Inside ⟨start, bytes⟩ (m.tail cfg u) ∧ rest.Inside (m.tail cfg u) ∧
      Extent.Apart ⟨start, bytes⟩ rest := by
  have hAbove := hTakes.above
  have hRoom := hTakes.room
  have hTail : m.tail cfg u = ⟨cfg.arena + (m.untypeds u).base + (m.untypeds u).watermark,
        (m.untypeds u).size - (m.untypeds u).watermark⟩ :=
    if_pos hTakes.inUse
  rw [hTail]
  refine ⟨?_, ?_, ?_⟩
  · apply Extent.inside_of_le
    · simp only
      omega
    · simp only [Extent.stop]
      omega
  · apply Extent.inside_of_le
    · simp only
      omega
    · simp only [Extent.stop]
      omega
  · exact Extent.apart_of_le (Nat.le_refl _)

/- What is taken from region `u` lies inside it. -/
theorem Memory.Takes.inside_region (hTakes : m.Takes u off bytes) (hSound : MemSound cfg m) :
    Extent.Inside ⟨cfg.arena + ((m.untypeds u).base + off), bytes⟩
      (m.regions (m.regionOf u)).extent := by
  have hRoom := hTakes.room
  rw [(hSound.record u hTakes.inUse).2]
  apply Extent.inside_of_le
  · simp only
    omega
  · simp only [Extent.stop]
    omega

/- The budget of the region that is taken from. -/
theorem Memory.Takes.spent_le (hTakes : m.Takes u off bytes) (hSound : MemSound cfg m) :
    bytes + m.spent (m.regionOf u) ≤ off + bytes ∧ bytes + m.spent (m.regionOf u) ≤
        (m.regions (m.regionOf u)).extent.bytes := by
  have hSpent := hSound.watermark u hTakes.inUse
  have hAbove := hTakes.above
  have hRoom := hTakes.room
  rw [(hSound.record u hTakes.inUse).2]
  constructor
  · omega
  · simp only
    omega

/- The bytes from `off` on leave region `u`. -/
def Memory.carve (cfg : MemConfig) (m : Memory) (u off bytes : Nat) (what : Carved) : Memory :=
  m.take u (cfg.arena + ((m.untypeds u).base + off)) bytes
    ((m.untypeds u).advance (off + bytes)) what

variable {what : Carved}

theorem Memory.spent_carve (r : Nat) : (m.carve cfg u off bytes what).spent r =
      (if m.regionOf u = r then bytes else 0) + m.spent r := by
  unfold Memory.spent Memory.carve Memory.take
  by_cases hEq : m.regionOf u = r
  · simp [hEq]
  · simp [hEq]

theorem Memory.carve_self :
    (m.carve cfg u off bytes what).untypeds u = (m.untypeds u).advance (off + bytes) :=
  update_self _ _ _

theorem Memory.carve_of_ne (hNe : v ≠ u) :
    (m.carve cfg u off bytes what).untypeds v = m.untypeds v :=
  update_of_ne hNe _ _

theorem Memory.carve_same (cfg : MemConfig) (m : Memory) (u off bytes : Nat) (what : Carved)
    (v : Nat) : ((m.carve cfg u off bytes what).untypeds v).base = (m.untypeds v).base ∧
      ((m.carve cfg u off bytes what).untypeds v).size = (m.untypeds v).size ∧
      ((m.carve cfg u off bytes what).untypeds v).inUse = (m.untypeds v).inUse := by
  by_cases hEq : v = u
  · rw [hEq, Memory.carve_self]
    exact ⟨rfl, rfl, rfl⟩
  · rw [Memory.carve_of_ne hEq]
    exact ⟨rfl, rfl, rfl⟩

/- The tails after region `u` has advanced. -/
theorem Memory.tail_carve (hUse : (m.untypeds u).inUse = true) :
    (m.carve cfg u off bytes what).tail cfg = update (m.tail cfg) u
      ⟨cfg.arena + ((m.untypeds u).base + off) + bytes, (m.untypeds u).size - (off + bytes)⟩ := by
  refine eq_update_iff.mpr ⟨?_, fun v hNe => ?_⟩
  · unfold Memory.tail
    rw [Memory.carve_self, Nat.add_assoc, Nat.add_assoc, ← Nat.add_assoc cfg.arena]
    exact if_pos hUse
  · unfold Memory.tail
    rw [Memory.carve_of_ne hNe]

theorem MemSound.carve (hSound : MemSound cfg m) (hTakes : m.Takes u off bytes)
    (hFrame : what = .object .frame → pageSize ∣ cfg.arena + ((m.untypeds u).base + off)) :
    MemSound cfg (m.carve cfg u off bytes what) := by
  have hSame := Memory.carve_same cfg m u off bytes what
  refine
    { hSound with
      fits := fun v hUse => ?_
      held := ?_
      frames := fun c hMem hWhat => ?_
      record := fun v hUse => ?_
      distinct := fun v w hUse hUse' => ?_
      within := fun c hMem => ?_
      watermark := fun v hUse => ?_
      budget := fun r hR => ?_ }
  · rcases hSame v with ⟨hBase, hSize, hUse'⟩
    have hFits := hSound.fits v (hUse' ▸ hUse)
    rw [hBase, hSize]
    refine ⟨?_, hFits.2⟩
    by_cases hEq : v = u
    · rw [hEq, Memory.carve_self]
      exact hTakes.room
    · rw [Memory.carve_of_ne hEq]
      exact hFits.1
  · rcases hTakes.parts cfg with ⟨hPiece, hRest, hApart⟩
    rw [Memory.tail_carve hTakes.inUse]
    cases what with
    | object => exact hSound.held.cut u hPiece hRest hApart
    | region => exact hSound.held.shrink u hRest
  · rcases List.mem_cons.mp hMem with rfl | hOld
    · exact hFrame hWhat
    · exact hSound.frames c hOld hWhat
  · rcases hSame v with ⟨hBase, hSize, hUse'⟩
    rw [hBase, hSize]
    exact hSound.record v (hUse' ▸ hUse)
  · exact hSound.distinct v w ((hSame v).2.2 ▸ hUse) ((hSame w).2.2 ▸ hUse')
  · rcases List.mem_cons.mp hMem with rfl | hOld
    · exact ⟨(hSound.record u hTakes.inUse).1, hTakes.inside_region hSound⟩
    · exact hSound.within c hOld
  · have hUse' := (hSame v).2.2 ▸ hUse
    change (m.carve cfg u off bytes what).spent (m.regionOf v) ≤ _
    rw [Memory.spent_carve]
    by_cases hEq : v = u
    · rw [hEq, Memory.carve_self, if_pos rfl]
      exact (hTakes.spent_le hSound).1
    have hNe : m.regionOf u ≠ m.regionOf v := by
      intro hRegion
      exact hEq (hSound.distinct u v hTakes.inUse hUse' hRegion).symm
    rw [Memory.carve_of_ne hEq, if_neg hNe, Nat.zero_add]
    exact hSound.watermark v hUse'
  · rw [Memory.spent_carve]
    by_cases hEq : m.regionOf u = r
    · rw [if_pos hEq, ← hEq]
      exact (hTakes.spent_le hSound).2
    · rw [if_neg hEq, Nat.zero_add]
      exact hSound.budget r hR

----
-- Splitting a Region
----

/- Descriptor `child` gets the bytes from `off` on. -/
def Memory.divide (cfg : MemConfig) (m : Memory) (parent child off bytes : Nat) : Memory :=
  let base := (m.untypeds parent).base + off
  let taken := m.take parent (cfg.arena + base) bytes ((m.untypeds parent).advance (off + bytes))
    (.region m.nextRegion)
  { taken with
    untypeds := update taken.untypeds child (Untyped.whole base bytes)
    regions := update m.regions m.nextRegion
        { extent := ⟨cfg.arena + base, bytes⟩, parent := some (m.regionOf parent) }
    nextRegion := m.nextRegion + 1
    regionOf := update m.regionOf child m.nextRegion }

/- Nothing has been carved from a region yet to come. -/
theorem MemSound.spent_next (hSound : MemSound cfg m) : m.spent m.nextRegion = 0 := by
  have hNone : m.carved.filter (·.region = m.nextRegion) = [] := by
    apply List.filter_eq_nil_iff.mpr
    intro c hMem hEq
    have hLt := (hSound.within c hMem).1
    rw [of_decide_eq_true hEq] at hLt
    exact Nat.lt_irrefl _ hLt
  unfold Memory.spent
  rw [hNone]
  rfl

section Divide

theorem Memory.divide_child : (m.divide cfg parent child off bytes).untypeds child =
      Untyped.whole ((m.untypeds parent).base + off) bytes :=
  update_self _ _ _

/- The others are as they are when the bytes are taken. -/
theorem Memory.divide_of_ne (hChild : v ≠ child) :
    (m.divide cfg parent child off bytes).untypeds v =
      (m.carve cfg parent off bytes (.region m.nextRegion)).untypeds v :=
  update_of_ne hChild _ _

theorem Memory.regionOf_divide (hChild : v ≠ child) :
    (m.divide cfg parent child off bytes).regionOf v = m.regionOf v :=
  update_of_ne hChild _ _

theorem Memory.regionOf_divide_child : (m.divide cfg parent child off bytes).regionOf child =
      m.nextRegion :=
  update_self _ _ _

theorem Memory.regions_divide_next : (m.divide cfg parent child off bytes).regions m.nextRegion =
      { extent := ⟨cfg.arena + ((m.untypeds parent).base + off), bytes⟩
        parent := some (m.regionOf parent) } :=
  update_self _ _ _

theorem Memory.regions_divide (hR : r < m.nextRegion) :
    (m.divide cfg parent child off bytes).regions r = m.regions r :=
  update_of_ne (Nat.ne_of_lt hR) _ _

theorem Memory.tail_divide : (m.divide cfg parent child off bytes).tail cfg =
      update ((m.carve cfg parent off bytes (.region m.nextRegion)).tail cfg) child
        ⟨cfg.arena + ((m.untypeds parent).base + off), bytes⟩ := by
  refine eq_update_iff.mpr ⟨?_, fun v hNe => ?_⟩
  · unfold Memory.tail
    rw [Memory.divide_child]
    rfl
  · unfold Memory.tail
    rw [Memory.divide_of_ne hNe]

theorem MemSound.divide (hSound : MemSound cfg m) (hTakes : m.Takes parent off bytes)
    (hFree : (m.untypeds child).inUse = false) :
    MemSound cfg (m.divide cfg parent child off bytes) := by
  have hNe : child ≠ parent := by
    intro hEq
    rw [hEq, hTakes.inUse] at hFree
    cases hFree
  have hOf : m.regionOf parent < m.nextRegion := (hSound.record parent hTakes.inUse).1
  have hInside := hTakes.inside_region hSound
  have hTaken : MemSound cfg (m.carve cfg parent off bytes (.region m.nextRegion)) :=
    hSound.carve hTakes nofun
  have hNone : (m.carve cfg parent off bytes (.region m.nextRegion)).spent m.nextRegion = 0 := by
    rw [Memory.spent_carve, hSound.spent_next, if_neg (Nat.ne_of_lt hOf)]
  refine ⟨fun v hUse => ?_, ?_, hTaken.frames, fun v hUse => ?_, fun v w hUse hUse' hRegion => ?_,
    fun c hMem => ?_, fun r hR => ?_, fun r hR p hParent => ?_, fun v hUse => ?_, fun r hR => ?_⟩
  · by_cases hChild : v = child
    · rw [hChild, Memory.divide_child]
      have hFits := (hSound.fits parent hTakes.inUse).2
      have hRoom := hTakes.room
      simp only [Untyped.whole]
      omega
    · rw [Memory.divide_of_ne hChild] at hUse ⊢
      exact hTaken.fits v hUse
  · rcases hTakes.parts cfg with ⟨hPiece, hRest, hApart⟩
    rw [Memory.tail_divide, Memory.tail_carve hTakes.inUse]
    exact hSound.held.split hNe hPiece hRest hApart
  · by_cases hChild : v = child
    · rw [hChild, Memory.divide_child, Memory.regionOf_divide_child, Memory.regions_divide_next]
      exact ⟨Nat.lt_succ_self _, rfl⟩
    rw [Memory.divide_of_ne hChild] at hUse ⊢
    have hRecord := hTaken.record v hUse
    rw [Memory.regionOf_divide hChild, Memory.regions_divide (m := m) (r := m.regionOf v) hRecord.1]
    exact ⟨Nat.lt_succ_of_lt hRecord.1, hRecord.2⟩
  · have hOld : ∀ {x}, x ≠ child → ((m.divide cfg parent child off bytes).untypeds x).inUse = true →
        ((m.carve cfg parent off bytes (.region m.nextRegion)).untypeds x).inUse = true :=
      fun hX hUse => Memory.divide_of_ne hX ▸ hUse
    by_cases hV : v = child
    · by_cases hW : w = child
      · rw [hV, hW]
      rw [hV, Memory.regionOf_divide_child, Memory.regionOf_divide hW] at hRegion
      exact absurd hRegion (Nat.ne_of_gt (hTaken.record w (hOld hW hUse')).1)
    · by_cases hW : w = child
      · rw [hW, Memory.regionOf_divide_child, Memory.regionOf_divide hV] at hRegion
        exact absurd hRegion (Nat.ne_of_lt (hTaken.record v (hOld hV hUse)).1)
      · rw [Memory.regionOf_divide hV, Memory.regionOf_divide hW] at hRegion
        exact hTaken.distinct v w (hOld hV hUse) (hOld hW hUse') hRegion
  · have hWithin := hTaken.within c hMem
    rw [Memory.regions_divide (m := m) hWithin.1]
    exact ⟨Nat.lt_succ_of_lt hWithin.1, hWithin.2⟩
  · rcases Nat.lt_succ_iff_lt_or_eq.mp hR with hLt | hEq
    · rw [Memory.regions_divide hLt]
      exact hSound.arena r hLt
    · rw [hEq, Memory.regions_divide_next]
      exact hInside.trans (hSound.arena _ hOf)
  · rcases Nat.lt_succ_iff_lt_or_eq.mp hR with hLt | hEq
    · rw [Memory.regions_divide hLt] at hParent ⊢
      have hOuter := hSound.parents r hLt p hParent
      rw [Memory.regions_divide hOuter.1]
      exact ⟨Nat.lt_succ_of_lt hOuter.1, hOuter.2⟩
    · rw [hEq, Memory.regions_divide_next] at hParent ⊢
      injection hParent with hP
      rw [← hP, Memory.regions_divide hOf]
      exact ⟨Nat.lt_succ_of_lt hOf, hInside⟩
  · by_cases hChild : v = child
    · rw [hChild, Memory.regionOf_divide_child]
      exact Nat.le_trans (Nat.le_of_eq hNone) (Nat.zero_le _)
    · rw [Memory.divide_of_ne hChild] at hUse ⊢
      rw [Memory.regionOf_divide hChild]
      exact hTaken.watermark v hUse
  · rcases Nat.lt_succ_iff_lt_or_eq.mp hR with hLt | hEq
    · rw [Memory.regions_divide hLt]
      exact hTaken.budget r hLt
    · rw [hEq]
      exact Nat.le_trans (Nat.le_of_eq hNone) (Nat.zero_le _)

end Divide

/- The descriptor of a region is given up. -/
theorem MemSound.release (hSound : MemSound cfg m) (child : Nat) :
    MemSound cfg (m.splitRelease child) := by
  have hOther : ∀ v, v ≠ child → (m.splitRelease child).untypeds v = m.untypeds v :=
    fun v hNe => update_of_ne hNe _ _
  have hNow : ((m.splitRelease child).untypeds child).inUse = false := by
    simp [Memory.splitRelease]
  have hSame : ∀ v, ((m.splitRelease child).untypeds v).inUse = true →
      (m.splitRelease child).untypeds v = m.untypeds v := by
    intro v hUse
    refine hOther v ?_
    rintro rfl
    rw [hNow] at hUse
    cases hUse
  have hTail : (m.splitRelease child).tail cfg = update (m.tail cfg) child Extent.none := by
    refine eq_update_iff.mpr ⟨?_, fun v hNe => ?_⟩
    · exact if_neg (by rw [hNow]; decide)
    · unfold Memory.tail
      rw [hOther v hNe]
  refine
    { hSound with
      fits := fun v hUse => ?_
      held := ?_
      record := fun v hUse => ?_
      distinct := fun v w hUse hUse' => ?_
      watermark := fun v hUse => ?_ }
  · have hKept := hSame v hUse
    rw [hKept] at hUse ⊢
    exact hSound.fits v hUse
  · rw [hTail]
    exact hSound.held.drop child
  · have hKept := hSame v hUse
    rw [hKept] at hUse ⊢
    exact hSound.record v hUse
  · rw [hSame v hUse] at hUse
    rw [hSame w hUse'] at hUse'
    exact hSound.distinct v w hUse hUse'
  · have hKept := hSame v hUse
    rw [hKept] at hUse ⊢
    exact hSound.watermark v hUse

end Steps

/- Every region in use stays, and its watermark does not fall. -/
def Grows (m m' : Memory) : Prop :=
  ∀ u, (m.untypeds u).inUse = true → (m'.untypeds u).inUse = true ∧ m'.regionOf u = m.regionOf u ∧
    (m'.untypeds u).base = (m.untypeds u).base ∧ (m'.untypeds u).size = (m.untypeds u).size ∧
    (m.untypeds u).watermark ≤ (m'.untypeds u).watermark

theorem grows_refl (m : Memory) : Grows m m := fun _ hUse => ⟨hUse, rfl, rfl, rfl, Nat.le_refl _⟩

variable {m'' m : Memory}

theorem Grows.trans {m' : Memory} (hFirst : Grows m m') (hSecond : Grows m' m'') : Grows m m'' := by
  intro u hUse
  rcases hFirst u hUse with ⟨hUse', hOf, hBase, hSize, hMark⟩
  rcases hSecond u hUse' with ⟨hUse'', hOf', hBase', hSize', hMark'⟩
  exact ⟨hUse'', hOf'.trans hOf, hBase'.trans hBase, hSize'.trans hSize, Nat.le_trans hMark hMark'⟩

/-
  The padding: an address is rounded up to the next multiple.
  The masks of the source are remainders.
-/
theorem padded_aligned (hAlign : align = kobjAlignBytes ∨ align = pageSize) (base start : Nat) :
    let pad := (align - ((base % 2 ^ 64 + start) % 2 ^ 64 &&& (align - 1))) &&& (align - 1)
    align ∣ base + (start + pad) := by
  rcases hAlign with hSmall | hPage
  · subst hSmall
    have hMask : ∀ x, x &&& (kobjAlignBytes - 1) = x % 64 :=
      fun x => Nat.and_two_pow_sub_one_eq_mod x 6
    simp only [hMask]
    unfold kobjAlignBytes
    omega
  · subst hPage
    have hMask : ∀ x, x &&& (pageSize - 1) = x % 4096 :=
      fun x => Nat.and_two_pow_sub_one_eq_mod x 12
    simp only [hMask]
    unfold pageSize
    omega

theorem kobjAlign_cases (typ : KobjType) : kobjAlign typ = kobjAlignBytes ∨
      kobjAlign typ = pageSize := by
  unfold kobjAlign
  split
  · exact .inr rfl
  · exact .inl rfl

----
-- Calls
----

/- A call keeps the invariant, and the regions grow. -/
structure Carves (cfg : MemConfig) (m m' : Memory) : Prop where
  sound : MemSound cfg m'
  grows : Grows m m'

theorem Memory.regionNamed_inUse {object : Option Nat} (hNamed : m.regionNamed object = some u) :
    (m.untypeds u).inUse = true := by
  unfold Memory.regionNamed at hNamed
  iterate 3
    split at hNamed
    · cases hNamed
  rename_i hUse
  split at hNamed
  · cases hNamed
  · injection hNamed with hEq
    rw [← hEq]
    simpa using hUse

section Calls

variable {cfg : MemConfig} {m : Memory} (hSound : MemSound cfg m)

include hSound

theorem MemSound.stays : Carves cfg m m := ⟨hSound, grows_refl m⟩

omit hSound in
theorem Carves.trans {m' : Memory} (hFirst : Carves cfg m m')
    (hSecond : Carves cfg m' m'') : Carves cfg m m'' :=
  ⟨hSecond.sound, hFirst.grows.trans hSecond.grows⟩

/- What changes only a counter of a region. -/
theorem MemSound.setObjects (u objects : Nat) : Carves cfg m (m.setObjects u objects) := by
  refine ⟨hSound.setObjects_sound u objects, ?_⟩
  intro v hUse
  rcases m.setObjects_same u objects v with ⟨hBase, hSize, hMark, hUse'⟩
  exact ⟨hUse'.trans hUse, rfl, hBase, hSize, hMark.ge⟩

theorem MemSound.carves {what : Carved} (hTakes : m.Takes u off bytes)
    (hFrame : what = .object .frame → pageSize ∣ cfg.arena + ((m.untypeds u).base + off)) :
    Carves cfg m (m.carve cfg u off bytes what) := by
  refine ⟨hSound.carve hTakes hFrame, ?_⟩
  intro v hUse
  by_cases hEq : v = u
  · subst hEq
    rw [Memory.carve_self]
    exact ⟨hUse, rfl, rfl, rfl, Nat.le_trans hTakes.above (Nat.le_add_right _ _)⟩
  · rw [Memory.carve_of_ne hEq]
    exact grows_refl m v hUse

theorem MemSound.divides (hTakes : m.Takes parent off bytes)
    (hFree : (m.untypeds child).inUse = false) :
    Carves cfg m (m.divide cfg parent child off bytes) := by
  refine ⟨hSound.divide hTakes hFree, ?_⟩
  intro v hUse
  have hChild : v ≠ child := by
    intro hEq
    rw [hEq, hFree] at hUse
    cases hUse
  have hTaken : Carves cfg m (m.carve cfg parent off bytes (.region m.nextRegion)) :=
    hSound.carves hTakes nofun
  rw [Memory.regionOf_divide hChild, Memory.divide_of_ne hChild]
  exact hTaken.grows v hUse

/- A split whose capability cannot be installed. -/
theorem MemSound.divides_release (hTakes : m.Takes parent off bytes)
    (hFree : (m.untypeds child).inUse = false) : Carves cfg m
      ((m.divide cfg parent child off bytes).splitRelease child) := by
  have hDivides := hSound.divides hTakes hFree
  refine ⟨hDivides.sound.release child, ?_⟩
  intro v hUse
  have hChild : v ≠ child := by
    intro hEq
    rw [hEq, hFree] at hUse
    cases hUse
  have hKept : ((m.divide cfg parent child off bytes).splitRelease child).untypeds v =
      (m.divide cfg parent child off bytes).untypeds v :=
    update_of_ne hChild _ _
  rw [hKept]
  exact hDivides.grows v hUse

/- What a successful bump takes. -/
theorem MemSound.bump {mem : Nat} {rest : Untyped}
    (hAlign : align = kobjAlignBytes ∨ align = pageSize) (hBytes : bytes ≠ 0)
    (hBump : untypedBump cfg.arena (m.untypeds u) bytes align = some (mem, rest)) :
    ∃ off, m.Takes u off bytes ∧ mem = cfg.arena + ((m.untypeds u).base + off) ∧ align ∣ mem ∧
      rest = (m.untypeds u).advance (off + bytes) := by
  have hPad := padded_aligned hAlign (cfg.arena + (m.untypeds u).base) (m.untypeds u).watermark
  unfold untypedBump at hBump
  split at hBump
  · cases hBump
  rename_i hUse
  split at hBump
  · cases hBump
  dsimp only at hBump hPad
  split at hBump
  · cases hBump
  generalize (align - (((cfg.arena + (m.untypeds u).base) %
    2 ^ 64 + (m.untypeds u).watermark) % 2 ^ 64 &&&
      (align - 1))) &&& (align - 1) = pad at hBump hPad
  split at hBump
  · cases hBump
  split at hBump
  · cases hBump
  rename_i hRoom hNeed
  rw [Option.some.injEq, Prod.mk.injEq] at hBump
  rcases hBump with ⟨hMem, hRest⟩
  have hInUse : (m.untypeds u).inUse = true := by
    cases hIn : (m.untypeds u).inUse with
    | true => rfl
    | false => exact absurd (.inl (by rw [hIn]; rfl)) hUse
  have hFits := hSound.fits u hInUse
  have hArena := cfg.fits
  have hSmall : (m.untypeds u).watermark + pad + bytes < 2 ^ 64 := by
    have hPlaced := cfg.placed
    omega
  refine ⟨(m.untypeds u).watermark + pad, ⟨hInUse, by omega, by omega⟩, ?_, ?_, ?_⟩
  · omega
  · rw [← hMem, Nat.mod_eq_of_lt (by omega)]
    exact hPad
  · rw [← hRest, Nat.mod_eq_of_lt hSmall]
    rfl

theorem MemSound.kobjAlloc (u : Nat) (typ : KobjType) (pages : Nat) :
    Carves cfg m (m.kobjAlloc cfg u typ pages).2 := by
  unfold Memory.kobjAlloc
  split
  · exact hSound.stays
  dsimp only
  generalize (if typ ≠ .frame ∨ pages = 0 then 1 else pages) = count
  split
  · exact hSound.stays
  rename_i hNeed
  split
  · exact hSound.stays
  rename_i index _
  split
  · exact hSound.stays
  rename_i mem rest hBump
  rcases hSound.bump (kobjAlign_cases typ) hNeed hBump with ⟨off, hTakes, rfl, hAligned, rfl⟩
  have hTaken : Carves cfg m (m.carve cfg u off (kobjSize cfg.layout typ count) (.object typ)) := by
    refine hSound.carves hTakes fun hTyp => ?_
    cases hTyp
    exact hAligned
  refine hTaken.trans ?_
  rw [← Memory.carve]
  generalize m.carve cfg u off (kobjSize cfg.layout typ count) (.object typ) = taken at hTaken ⊢
  have hFilled : Carves cfg taken (taken.fillSlot index
        (cfg.arena + ((m.untypeds u).base + off)) u count) := by
    unfold Memory.fillSlot
    split
    · exact hTaken.sound.stays
    · exact ⟨{ hTaken.sound with }, grows_refl taken⟩
  exact hFilled.trans (hFilled.sound.setObjects _ _)

theorem MemSound.destroyDyn (cls : KobjClass) (i : Nat) (mapped : Bool) :
    Carves cfg m (m.destroyDyn cls i mapped) := by
  unfold Memory.destroyDyn
  dsimp only
  split
  · exact hSound.stays
  split
  · have hCounted := hSound.setObjects (m.slots cls i).untyped
      ((m.untypeds (m.slots cls i).untyped).objects - 1)
    exact hCounted.trans ⟨{ hCounted.sound with }, grows_refl _⟩
  · exact ⟨{ hSound with }, grows_refl m⟩

/- What a successful carve divides. -/
theorem MemSound.splitCarve_eq (hUse : (m.untypeds parent).inUse = true)
    (hCarve : (m.splitCarve cfg parent bytes).1 = some child) :
    ∃ off size, m.Takes parent off size ∧ (m.untypeds child).inUse = false ∧
      (m.splitCarve cfg parent bytes).2 = m.divide cfg parent child off size := by
  have hFits := hSound.fits parent hUse
  have hArena : untypedArenaBytes = 6815744 := rfl
  unfold Memory.splitCarve at hCarve ⊢
  cases hFound : untypedCarve m.untypeds parent bytes with
  | none =>
    rw [hFound] at hCarve
    cases hCarve
  | some found =>
  rcases found with ⟨child', region, rest⟩
  rw [hFound] at hCarve
  cases hCarve
  rcases untypedCarve_eq_some hFound with ⟨start, size, hStart, hRoom, hFree, _, rfl, rfl⟩
  have hAbove : (m.untypeds parent).watermark ≤ start := by
    rw [hStart]
    unfold alignUp pageSize
    omega
  have hBase : ((m.untypeds parent).base + start) % 2 ^ 64 = (m.untypeds parent).base + start := by
    omega
  refine ⟨start, size, ⟨hUse, hAbove, hRoom⟩, hFree, ?_⟩
  simp only [hBase]
  rfl

theorem MemSound.untypedSplit
    (object : Option Nat) (dest bytes : Nat) (minted : Bool) : Carves cfg m
      (m.untypedSplit cfg object dest bytes minted).2 := by
  unfold Memory.untypedSplit
  iterate 4
    split
    · exact hSound.stays
  rename_i parent hNamed
  have hUse := Memory.regionNamed_inUse hNamed
  dsimp only
  split
  · exact hSound.stays
  rename_i child hCarve
  rcases hSound.splitCarve_eq hUse hCarve with ⟨off, size, hTakes, hFree, hEq⟩
  rw [hEq]
  cases minted with
  | true => exact hSound.divides hTakes hFree
  | false => exact hSound.divides_release hTakes hFree

omit hSound in
/- One object after another, for as long as there is room. -/
theorem retypeLoop_carves (u : Nat) (typ : KobjType) (pages : Nat)
    (installs : Nat → Bool) (n i : Nat) (m : Memory) (hSound : MemSound cfg m) : Carves cfg m
      (Memory.retypeLoop cfg u typ pages installs n i m).2 := by
  induction n generalizing i m with
  | zero => exact hSound.stays
  | succ n ih =>
  have hMade := hSound.kobjAlloc u typ pages
  unfold Memory.retypeLoop
  dsimp only
  split
  · exact hSound.stays
  split
  · exact hMade.trans (ih (i + 1) _ hMade.sound)
  split
  · exact hMade
  · exact hMade.trans (hMade.sound.destroyDyn _ _ _)

theorem MemSound.untypedRetype (object : Option Nat) (typ : KobjType)
    (count pages dest : Nat) (installs : Nat → Bool) : Carves cfg m
      (m.untypedRetype cfg object typ count pages dest installs).2 := by
  unfold Memory.untypedRetype
  split
  · exact hSound.stays
  iterate 7
    split
    · exact hSound.stays
  exact retypeLoop_carves _ _ _ _ _ _ _ hSound

theorem MemSound.createTaskCspace (id u : Nat) : Carves cfg m (m.createTaskCspace cfg id u).2 := by
  unfold Memory.createTaskCspace
  split
  · have hMade := hSound.kobjAlloc u .cnode 0
    dsimp only
    split
    · exact hSound.stays
    · exact hMade.trans ⟨{ hMade.sound with }, grows_refl _⟩
  · exact hSound.stays

theorem MemSound.exec (op : MemOp) : Carves cfg m (memExec cfg m op) := by
  cases op with
  | kobjAlloc u typ pages => exact hSound.kobjAlloc u typ pages
  | retype object typ count pages dest installs =>
    exact hSound.untypedRetype object typ count pages dest installs
  | split object dest bytes minted => exact hSound.untypedSplit object dest bytes minted
  | createTask id u => exact hSound.createTaskCspace id u
  | destroy cls i mapped => exact hSound.destroyDyn cls i mapped

end Calls

----
-- Runs
----

variable {cfg : MemConfig}

/- The two regions of the boot, and what they hold. -/
theorem untypedInit_inUse (hUse : ((untypedInit cfg).untypeds u).inUse = true) :
    (u = untypedKernel ∧ (untypedInit cfg).untypeds u = Untyped.whole 0 kernelHalf) ∨
    (u = untypedRoot ∧ (untypedInit cfg).untypeds u =
        Untyped.whole kernelHalf (untypedArenaBytes - kernelHalf)) := by
  simp only [untypedInit] at hUse ⊢
  by_cases hKernel : u = untypedKernel
  · left
    exact ⟨hKernel, if_pos hKernel⟩
  rw [if_neg hKernel] at hUse ⊢
  by_cases hRoot : u = untypedRoot
  · right
    exact ⟨hRoot, if_pos hRoot⟩
  · rw [if_neg hRoot] at hUse
    cases hUse

theorem untypedInit_held (cfg : MemConfig) :
    Lib.Held ((untypedInit cfg).objects.map Carving.extent) ((untypedInit cfg).tail cfg) := by
  refine ⟨List.Pairwise.nil, ?_, ?_⟩
  · nofun
  intro u v hNe
  cases hU : ((untypedInit cfg).untypeds u).inUse with
  | false =>
    have hNone : (untypedInit cfg).tail cfg u = Extent.none := if_neg (by rw [hU]; decide)
    rw [hNone]
    exact Finset.disjoint_empty_left _
  | true =>
  cases hV : ((untypedInit cfg).untypeds v).inUse with
  | false =>
    have hNone : (untypedInit cfg).tail cfg v = Extent.none := if_neg (by rw [hV]; decide)
    rw [hNone]
    exact Finset.disjoint_empty_right _
  | true =>
  have hTailU : (untypedInit cfg).tail cfg u = _ := if_pos hU
  have hTailV : (untypedInit cfg).tail cfg v = _ := if_pos hV
  rw [hTailU, hTailV]
  rcases untypedInit_inUse hU with ⟨hU', hRegion⟩ | ⟨hU', hRegion⟩
  · rcases untypedInit_inUse hV with ⟨hV', _⟩ | ⟨_, hRegion'⟩
    · exact absurd (hU'.trans hV'.symm) hNe
    · rw [hRegion, hRegion']
      apply Extent.apart_of_le
      simp [Extent.stop, Untyped.whole]
  · rcases untypedInit_inUse hV with ⟨_, hRegion'⟩ | ⟨hV', _⟩
    · rw [hRegion, hRegion']
      apply Extent.Apart.symm
      apply Extent.apart_of_le
      simp [Extent.stop, Untyped.whole]
    · exact absurd (hU'.trans hV'.symm) hNe

theorem memSound_init (cfg : MemConfig) : MemSound cfg (untypedInit cfg) := by
  have hHalf : kernelHalf = 3145728 := by decide
  have hArena : untypedArenaBytes = 6815744 := rfl
  constructor
  · intro u hUse
    rcases untypedInit_inUse hUse with ⟨_, hEq⟩ | ⟨_, hEq⟩
    · rw [hEq]
      simp only [Untyped.whole]
      omega
    · rw [hEq]
      simp only [Untyped.whole]
      omega
  · exact untypedInit_held cfg
  · nofun
  · intro u hUse
    rcases untypedInit_inUse hUse with ⟨hEq, hRegion⟩ | ⟨hEq, hRegion⟩
    · rw [hEq]
      exact ⟨Nat.two_pos, rfl⟩
    · rw [hRegion, hEq]
      exact ⟨Nat.one_lt_two, rfl⟩
  · intro u v _ _ hEq
    exact hEq
  · nofun
  · intro r _
    simp only [untypedInit]
    split
    · apply Extent.inside_of_le
      · exact Nat.le_refl _
      · simp only [Extent.stop, MemConfig.extent]
        omega
    · apply Extent.inside_of_le
      · exact Nat.le_add_right _ _
      · simp only [Extent.stop, MemConfig.extent]
        omega
  · intro r _ p hParent
    simp only [untypedInit] at hParent
    split at hParent
    · cases hParent
    · cases hParent
  · intro u _
    exact Nat.zero_le _
  · intro r _
    exact Nat.zero_le _

theorem carves_run {m' : Memory}
    (hRun : MemRun cfg m m') (hSound : MemSound cfg m) : Carves cfg m m' :=
  Lib.Run.invariant (fun m' => Carves cfg m m')
    (fun _ op hCarves _ => hCarves.trans (hCarves.sound.exec op))
    hRun hSound.stays

----
-- Main Result
----

/- A region lies inside all those it was split from. -/
theorem MemSound.inside_of_under (hSound : MemSound cfg m) {q : Nat} (hR : r < m.nextRegion)
    (hUnder : m.Under r q) : q < m.nextRegion ∧
      (m.regions r).extent.Inside (m.regions q).extent := by
  induction hUnder with
  | refl => exact ⟨hR, Extent.Inside.refl _⟩
  | tail _ hParent ih =>
    have hOuter := hSound.parents _ ih.1 _ hParent
    exact ⟨hOuter.1, ih.2.trans hOuter.2⟩

theorem MemSound.objectBytes_le (hSound : MemSound cfg m) (q : Nat) :
    m.objectBytes q ≤ (m.regions q).extent.bytes := by
  unfold Memory.objectBytes
  rw [← Function.comp_def, ← List.map_map]
  apply Lib.sum_bytes_le
  · exact List.Pairwise.sublist (List.Sublist.map _ List.filter_sublist) hSound.held.pieces
  intro e hMem
  rcases List.mem_map.mp hMem with ⟨c, hC, rfl⟩
  rcases List.mem_filter.mp hC with ⟨hObject, hUnder⟩
  have hCarved := (List.mem_filter.mp hObject).1
  have hWithin := hSound.within c hCarved
  simp only [decide_eq_true_eq] at hUnder
  exact hWithin.2.trans (hSound.inside_of_under hWithin.1 hUnder).2

/-
  What is handed out and what is left do not overlap, and no
  region gives more than it has.
-/
structure HandedOutOnce (cfg : MemConfig) (m : Memory) : Prop where
  objects : (m.objects.map Carving.extent).Pairwise Extent.Apart
  objectTail : ∀ c ∈ m.objects, ∀ u, c.extent.Apart (m.tail cfg u)
  tails : ∀ u v, u ≠ v → (m.tail cfg u).Apart (m.tail cfg v)
  objectInArena : ∀ c ∈ m.objects, c.extent.Inside cfg.extent
  tailInArena : ∀ u, (m.tail cfg u).Inside cfg.extent
  frames : ∀ c ∈ m.objects, c.what = .object .frame → pageSize ∣ c.extent.start
  watermark : ∀ u, (m.untypeds u).inUse = true → (m.untypeds u).watermark ≤ (m.untypeds u).size
  region : ∀ u, (m.untypeds u).inUse = true → m.regionOf u < m.nextRegion ∧
    (m.regions (m.regionOf u)).extent = ⟨cfg.arena + (m.untypeds u).base, (m.untypeds u).size⟩
  budget : ∀ r, r < m.nextRegion → m.spent r ≤ (m.regions r).extent.bytes ∧
    m.objectBytes r ≤ (m.regions r).extent.bytes

theorem MemSound.handedOutOnce (hSound : MemSound cfg m) : HandedOutOnce cfg m where
  objects := hSound.held.pieces
  objectTail := fun c hMem u => hSound.held.apart _ (List.mem_map_of_mem hMem) u
  tails := hSound.held.holders
  objectInArena := by
    intro c hMem
    have hWithin := hSound.within c (List.mem_filter.mp hMem).1
    exact hWithin.2.trans (hSound.arena _ hWithin.1)
  tailInArena := by
    intro u
    unfold Memory.tail
    dsimp only
    split
    · rename_i hUse
      have hFits := hSound.fits u hUse
      apply Extent.inside_of_le
      · simp only [MemConfig.extent]
        omega
      · simp only [Extent.stop, MemConfig.extent]
        omega
    · exact Extent.none_inside _
  frames := fun c hMem => hSound.frames c (List.mem_filter.mp hMem).1
  watermark := fun u hUse => (hSound.fits u hUse).1
  region := hSound.record
  budget := fun r hR => ⟨hSound.budget r hR, hSound.objectBytes_le r⟩

theorem memory_handed_out_once (cfg : MemConfig) (m : Memory)
    (hRun : MemRun cfg (untypedInit cfg) m) : HandedOutOnce cfg m ∧
      ∀ m', MemRun cfg m m' → Grows m m' := by
  have hSound := (carves_run hRun (memSound_init cfg)).sound
  refine ⟨hSound.handedOutOnce, ?_⟩
  intro m' hLater
  exact (carves_run hLater hSound).grows

def smallLayout : Layout :=
  { endpoint := 2048
    notification := 64
    schedContext := 128
    tcb := 1200
    cspaceDesc := 16
    int := 4 }

def smallArena : MemConfig :=
  { layout := smallLayout
    arena := 0xffff800002000000
    placed := by decide
    fits := by decide }

/-
  The users' region is split, and two frames of two pages are
  made in the part, which has room for one.
-/
def splitThenFrames : Memory :=
  Lib.runAll (memExec smallArena) (untypedInit smallArena)
    [.kobjAlloc untypedKernel .taskTable 0, .createTask 1 untypedKernel,
      .split (some untypedRoot) 30 10000 true,
      .retype (some 2) .endpoint 1 0 31 (fun _ => true),
      .retype (some 2) .frame 2 2 32 (fun _ => true)]

theorem memory_handed_out_once_splitThenFrames :
    (splitThenFrames.objects.map (·.what) = [.object .frame, .object .endpoint, .object .cnode,
        .object .taskTable] ∧
    splitThenFrames.spent 2 = 10240) ∧ HandedOutOnce smallArena splitThenFrames := by
  refine ⟨by decide +kernel, ?_⟩
  exact (memory_handed_out_once smallArena _ (Lib.run_runAll _ (by simp [Lib.AllOk]))).1

end Horus
