import Horus.Paging.Holding

/-
  Reference counts against the entries that name a frame.

  The entries and the tables of all address spaces are taken
  as two lists whose order does not matter. The count of a
  frame is at least the number of entries that name it, so a
  count that falls to zero frees a frame that no entry names.
  Each operation of the pool keeps this, for the entries and
  tables as they are after it.
-/

namespace Horus.Paging

open Function

----
-- The Invariant
----

/- The count that a frame object's page has of its own. -/
def pinCount (fr : Frames) (f : Nat) : Nat := if fr.pinned f then 1 else 0

/- A page that waits to be copied is there or in swap. -/
def Pte.Ok (e : Pte) : Prop := e.cow = true → e.present = true ∨ e.swapped = true

theorem Pte.Ok.present {e : Pte} (hOk : e.Ok) (hNotIn : e.inSwap = false)
    (hCow : e.cow = true) : e.present = true := by
  rcases hOk hCow with hPresent | hSwapped
  · exact hPresent
  · simpa [Pte.inSwap, hSwapped] using hNotIn

/- A frame out on loan that no entry names. -/
structure Apart (m : Machine) (fr : Frames) (es : List Pte) (f : Nat) : Prop where
  loan : fr.loan f = true
  refs : fr.refs f = 1
  notZero : f ≠ m.zero
  unnamed : naming es f = 0

/-
  `ts` are the tables, and the frames that were allocated and
  are not used yet.
-/
structure Good (m : Machine) (fr : Frames) (es : List Pte) (ts : List Nat) : Prop where
  nodup : fr.free.Nodup
  free : ∀ f ∈ fr.free, m.inPool f ∧ fr.loan f = false ∧ m.arena f = false ∧ f ≠ m.zero
  loan : ∀ f, fr.loan f = true ↔ fr.ever f = true ∧ f ∉ fr.free
  lent : ∀ f, fr.loan f = true → m.inPool f ∧ m.arena f = false
  zero : m.zero ≠ 0 → fr.loan m.zero = true
  count : ∀ f, m.inPool f → f ≠ m.zero → naming es f + pinCount fr f ≤ fr.refs f
  owned : ∀ e ∈ es, e.present = true → m.inPool e.addr →
    (m.arena e.addr = true → fr.pinned e.addr = true) ∧
      (m.arena e.addr = false → fr.loan e.addr = true)
  clean : ∀ e ∈ es, e.present = true → m.inPool e.addr ∨ m.refcIndex e.addr = none
  ok : ∀ e ∈ es, e.Ok
  small : ∀ f, fr.refs f ≤ 65535
  tables : ts.Nodup
  table : ∀ f ∈ ts, Apart m fr es f
  pinned : ∀ f, fr.pinned f = true → m.arena f = true ∧ m.inPool f
  unpinned : ∀ f, m.arena f = true → m.inPool f → fr.pinned f = false → fr.refs f = 0
  sole : Sole m es
  slots : Slots fr es
  blank : m.zero ≠ 0 → fr.mem m.zero = zeroPage

theorem update_small {refs : Nat → Nat} (hSmall : ∀ f, refs f ≤ 65535)
    {f n : Nat} (hNew : n ≤ 65535) (g : Nat) : update refs f n g ≤ 65535 := by
  by_cases hSame : g = f
  · rw [hSame, update_self]
    exact hNew
  · rw [update_of_ne hSame]
    exact hSmall g

section Toolkit

variable {m : Machine} {fr : Frames} {es es' : List Pte} {ts ts' : List Nat} {e e' : Pte} {f : Nat}

theorem Apart.setRefs {g n : Nat} (hApart : Apart m fr es g) (hNe : g ≠ f) :
    Apart m (fr.setRefs f n) es g :=
  { hApart with refs := (update_of_ne hNe _ _).trans hApart.refs }

theorem Good.perm (hGood : Good m fr es ts) (hEs : es.Perm es')
    (hTs : ts.Perm ts') : Good m fr es' ts' :=
  { hGood with
    count := by
      intro f hPool hZero
      rw [← naming_perm hEs]
      exact hGood.count f hPool hZero
    owned := fun e hMem => hGood.owned e (hEs.mem_iff.mpr hMem)
    clean := fun e hMem => hGood.clean e (hEs.mem_iff.mpr hMem)
    ok := fun e hMem => hGood.ok e (hEs.mem_iff.mpr hMem)
    tables := hTs.nodup_iff.mp hGood.tables
    table := by
      intro f hMem
      have hApart := hGood.table f (hTs.mem_iff.mpr hMem)
      exact { hApart with unnamed := (naming_perm hEs f).symm.trans hApart.unnamed }
    sole := hGood.sole.perm hEs
    slots := hGood.slots.perm hEs }

/- What a frame other than the zero page holds. -/
theorem Good.setPage (hGood : Good m fr es ts) (hZero : m.zero ≠ 0 → f ≠ m.zero) (page : Page) :
    Good m (fr.setPage f page) es ts :=
  { hGood with
    table := fun f hMem => { hGood.table f hMem with }
    blank := fun hNe => (update_of_ne (hZero hNe).symm _ _).trans (hGood.blank hNe) }

/- The frame in hand is filled. -/
theorem Good.setHand (hGood : Good m fr es (f :: ts)) (page : Page) :
    Good m (fr.setPage f page) es (f :: ts) :=
  hGood.setPage (fun _ => (hGood.table f List.mem_cons_self).notZero) page

/- The swap store changes as the entries do. -/
theorem Good.setSlot (hGood : Good m fr es ts)
    {n : Nat} {v : Option SwapPage} (hSlots : Slots (fr.setSlot n v) es) :
    Good m (fr.setSlot n v) es ts :=
  { hGood with table := fun f hMem => { hGood.table f hMem with }, slots := hSlots }

/- Fewer entries: a count may stay too high. -/
theorem Good.dropEntry (hGood : Good m fr (e :: es) ts) : Good m fr es ts :=
  { hGood with
    count := by
      intro f hPool hZero
      have hCount := hGood.count f hPool hZero
      have hLe := naming_le_cons e es f
      omega
    owned := (List.forall_mem_cons.mp hGood.owned).2
    clean := (List.forall_mem_cons.mp hGood.clean).2
    ok := (List.forall_mem_cons.mp hGood.ok).2
    table := by
      intro f hMem
      have hApart := hGood.table f hMem
      have hLe := naming_le_cons e es f
      have hNone := hApart.unnamed
      exact { hApart with unnamed := by omega }
    sole := hGood.sole.tail
    slots := hGood.slots.tail }

/- Another entry, whose frame is counted for it. -/
theorem Good.cons (hGood : Good m fr es ts) (hOk : e.Ok)
    (hCount : e.present = true → m.inPool e.addr → e.addr ≠ m.zero →
        naming es e.addr + 1 + pinCount fr e.addr ≤ fr.refs e.addr)
    (hOwned : e.present = true → m.inPool e.addr →
      (m.arena e.addr = true → fr.pinned e.addr = true) ∧
        (m.arena e.addr = false → fr.loan e.addr = true))
    (hClean : e.present = true → m.inPool e.addr ∨ m.refcIndex e.addr = none)
    (hTable : e.present = true → e.addr ∉ ts) (hSole : Sole m (e :: es))
    (hSlots : Slots fr (e :: es)) : Good m fr (e :: es) ts :=
  { hGood with
    count := by
      intro f hPool hZero
      rw [naming_cons]
      split
      case isTrue hNames =>
        obtain ⟨hPresent, rfl⟩ := names_iff.mp hNames
        exact hCount hPresent hPool hZero
      case isFalse => exact hGood.count f hPool hZero
    owned := List.forall_mem_cons.mpr ⟨hOwned, hGood.owned⟩
    clean := List.forall_mem_cons.mpr ⟨hClean, hGood.clean⟩
    ok := List.forall_mem_cons.mpr ⟨hOk, hGood.ok⟩
    table := fun f hMem =>
      have hApart := hGood.table f hMem
      { hApart with
        unnamed := (naming_cons_other es fun hPresent hAddr =>
          hTable hPresent (hAddr ▸ hMem)).trans hApart.unnamed }
    sole := hSole
    slots := hSlots }

/- An entry in swap goes and its slot is let go of. -/
theorem Good.leaveSwap (hGood : Good m fr (e :: es) ts)
    (hIn : e.inSwap = true) : Good m (swapLetGo fr e.addr) es ts := by
  have hSlots := hGood.slots.letGo hIn
  have hRest := hGood.dropEntry
  unfold swapLetGo at hSlots ⊢
  split at hSlots
  · exact hRest
  split
  case isTrue hMany =>
    rw [if_pos hMany] at hSlots
    exact hRest.setSlot hSlots
  case isFalse hLast =>
    rw [if_neg hLast] at hSlots
    exact hRest.setSlot hSlots

/- An entry is written over. -/
theorem Good.overwrite (hGood : Good m fr (e :: es) ts) : Good m (dropSwapped fr e) es ts := by
  unfold dropSwapped
  split
  case isTrue hIn => exact hGood.leaveSwap hIn
  case isFalse => exact hGood.dropEntry

/- Entries that name no frame of the pool. -/
theorem Good.addAny (hGood : Good m fr es ts) (hOk : e.Ok)
    (hOut : e.present = true → ¬ m.inPool e.addr ∧ m.refcIndex e.addr = none)
    (hSlots : Slots fr (e :: es)) : Good m fr (e :: es) ts := by
  have hNot : e.present = true → ¬ m.inPool e.addr := fun hPresent => (hOut hPresent).1
  refine hGood.cons hOk ?_ ?_ ?_ ?_ ?_ hSlots
  · exact fun hPresent hPool => absurd hPool (hNot hPresent)
  · exact fun hPresent hPool => absurd hPool (hNot hPresent)
  · exact fun hPresent => .inr (hOut hPresent).2
  · intro hPresent hTable
    exact hNot hPresent (hGood.lent _ (hGood.table _ hTable).loan).1
  · exact hGood.sole.outside fun hPresent hPool => absurd hPool (hNot hPresent)

theorem Good.addOutside (hGood : Good m fr es ts) (hOk : e.Ok) (hNotIn : e.inSwap = false)
    (hOut : e.present = true → ¬ m.inPool e.addr ∧ m.refcIndex e.addr = none) :
    Good m fr (e :: es) ts :=
  hGood.addAny hOk hOut (hGood.slots.cons hNotIn)

theorem inSwap_absent (hIn : e.inSwap = true) : e.present = false := by
  simp only [Pte.inSwap, Bool.and_eq_true, Bool.not_eq_true'] at hIn
  exact hIn.1

theorem inSwap_of_present (hPresent : e.present = true) : e.inSwap = false := by
  simp [Pte.inSwap, hPresent]

namespace Good

variable (hGood : Good m fr es ts)

include hGood

/- Another entry for the slot of one that is in swap. -/
theorem shareSlot (hMem : e ∈ es)
    (hIn : e.inSwap = true) (hOk : e'.Ok) (hIn' : e'.inSwap = true) (hAddr : e'.addr = e.addr) :
    Good m (swapShare fr e.addr) (e' :: es) ts := by
  have hSlots := hGood.slots.share hMem hIn hAddr
  have hOut : e'.present = true → ¬ m.inPool e'.addr ∧ m.refcIndex e'.addr = none := by
    intro hPresent
    rw [inSwap_absent hIn'] at hPresent
    cases hPresent
  unfold swapShare at hSlots ⊢
  split at hSlots
  · exact hGood.addAny hOk hOut hSlots
  · exact (hGood.setSlot hSlots.tail).addAny hOk hOut hSlots

/- A page goes to a free slot. -/
theorem storeSlot {n : Nat} (hFree : fr.slot n = none) (page : Page) (hOk : e.Ok)
    (hIn : e.inSwap = true) (hAddr : e.addr = n) : Good m (swapStore fr n page) (e :: es) ts := by
  have hSlots := hGood.slots.store hFree page hAddr
  refine (hGood.setSlot hSlots.tail).addAny hOk ?_ hSlots
  intro hPresent
  rw [inSwap_absent hIn] at hPresent
  cases hPresent

/- An entry for the shared zero page. -/
theorem addZero (hOk : e.Ok) (hZero : m.zero ≠ 0) (hPresent : e.present = true)
    (hRead : e.write = false) (hAddr : e.addr = m.zero) : Good m fr (e :: es) ts := by
  have hLoan := hGood.zero hZero
  have hLent := hGood.lent _ hLoan
  refine hGood.cons hOk ?_ ?_ ?_ ?_ ?_ (hGood.slots.cons (inSwap_of_present hPresent))
  · exact fun _ _ hNe => absurd hAddr hNe
  · intro _ _
    rw [hAddr, hLent.2]
    exact ⟨Bool.noConfusion, fun _ => hLoan⟩
  · intro _
    rw [hAddr]
    exact .inl hLent.1
  · intro _ hTable
    exact (hGood.table _ hTable).notZero hAddr
  refine hGood.sole.quiet hRead ?_
  intro x hMem hIs hWrite hPool hArena
  rw [hAddr]
  exact (hGood.sole x hMem hIs hWrite hPool hArena).1

/- A frame that is named is no table. -/
theorem not_table (hMem : e ∈ es) (hPresent : e.present = true) : e.addr ∉ ts := by
  intro hTable
  have hNone := (hGood.table e.addr hTable).unnamed
  have hPos := naming_pos_of_mem hMem hPresent
  omega

end Good

/- Only the flags of an entry change. -/
theorem Good.reflag (hGood : Good m fr (e :: es) ts) (hOk : e'.Ok)
    (hPresent : e'.present = e.present) (hAddr : e'.addr = e.addr) (hIn : e'.inSwap = e.inSwap)
    (hWrite : e'.write = true → e.write = true ∨ (m.inPool e.addr →
        e.addr ≠ m.zero ∧ naming (e :: es) e.addr = 1)) :
    Good m fr (e' :: es) ts := by
  refine hGood.dropEntry.cons hOk ?_ ?_ ?_ ?_ (hGood.sole.reflag hPresent hAddr hWrite)
    (hGood.slots.reflag hIn hAddr)
  all_goals rw [hPresent, hAddr]
  · intro hIs hPool hZero
    rw [← naming_cons_self es hIs]
    exact hGood.count _ hPool hZero
  · exact hGood.owned e List.mem_cons_self
  · exact hGood.clean e List.mem_cons_self
  · exact hGood.not_table List.mem_cons_self

----
-- Giving Out Frames
----

section

variable (hGood : Good m fr es ts)

include hGood

/- A free frame is named by nothing. -/
theorem Good.free_unnamed (hFree : f ∈ fr.free) : naming es f = 0 ∧ f ∉ ts := by
  obtain ⟨hPool, hLoan, hArena, hZero⟩ := hGood.free f hFree
  constructor
  · rw [naming, List.countP_eq_zero]
    intro e hMem hNames
    obtain ⟨hPresent, rfl⟩ := names_iff.mp hNames
    have hOwned := (hGood.owned e hMem hPresent hPool).2 hArena
    rw [hLoan] at hOwned
    cases hOwned
  · intro hTable
    have hLent := (hGood.table f hTable).loan
    rw [hLoan] at hLent
    cases hLent

theorem pinCount_of_not_arena (hArena : m.arena f = false) : pinCount fr f = 0 := by
  rw [pinCount, if_neg]
  intro hPinned
  have hIs := (hGood.pinned f hPinned).1
  rw [hArena] at hIs
  cases hIs

/-
  A frame that nothing names goes out on loan or comes back,
  and the stack of free frames follows.
-/
theorem Good.setLoan {free : List Nat} {ever : Nat → Bool} {n : Nat}
    {lent : Bool} (hFrame : m.inPool f ∧ m.arena f = false ∧ f ≠ m.zero)
    (hUnused : naming es f = 0 ∧ f ∉ ts) (hSmall : n ≤ 65535) (hNodup : free.Nodup)
    (hHere : f ∈ free ↔ lent = false) (hEver : ever f = true)
    (hThere : ∀ g, g ≠ f → (g ∈ free ↔ g ∈ fr.free) ∧ ever g = fr.ever g) :
    Good m { fr with
        free := free
        ever := ever
        refs := update fr.refs f n
        loan := update fr.loan f lent } es ts := by
  refine
    { hGood with
      nodup := hNodup
      free := ?_
      loan := ?_
      lent := ?_
      zero := fun hNe => (update_of_ne hFrame.2.2.symm _ _).trans (hGood.zero hNe)
      count := ?_
      owned := ?_
      small := update_small hGood.small hSmall
      table := ?_
      unpinned := ?_ }
  · intro g hIn
    dsimp only
    rcases eq_or_ne g f with rfl | hSame
    · rw [update_self]
      exact ⟨hFrame.1, hHere.mp hIn, hFrame.2⟩
    · rw [update_of_ne hSame]
      exact hGood.free g ((hThere g hSame).1.mp hIn)
  · intro g
    dsimp only
    rcases eq_or_ne g f with rfl | hSame
    · simp [hHere, hEver]
    · rw [update_of_ne hSame, hGood.loan g, (hThere g hSame).1, (hThere g hSame).2]
  · intro g hIs
    by_cases hSame : g = f
    · rw [hSame]
      exact ⟨hFrame.1, hFrame.2.1⟩
    · exact hGood.lent g ((update_of_ne hSame _ _).symm.trans hIs)
  · intro g hIn hNe
    change naming es g + pinCount fr g ≤ update fr.refs f n g
    rcases eq_or_ne g f with rfl | hSame
    · rw [hUnused.1, pinCount_of_not_arena hGood hFrame.2.1]
      exact Nat.zero_le _
    · rw [update_of_ne hSame]
      exact hGood.count g hIn hNe
  · intro x hIn hPresent hInPool
    have hNe : x.addr ≠ f := by
      intro hEq
      have hPos := naming_pos_of_mem hIn hPresent
      rw [hEq] at hPos
      omega
    dsimp only
    rw [update_of_ne hNe]
    exact hGood.owned x hIn hPresent hInPool
  · intro g hIn
    have hApart := hGood.table g hIn
    have hNe : g ≠ f := fun hEq => hUnused.2 (hEq ▸ hIn)
    exact { hApart with
      loan := (update_of_ne hNe _ _).trans hApart.loan
      refs := (update_of_ne hNe _ _).trans hApart.refs }
  · intro g hIs hIn hNot
    have hNe : g ≠ f := by
      intro hEq
      rw [hEq, hFrame.2.1] at hIs
      cases hIs
    exact (update_of_ne hNe _ _).trans (hGood.unpinned g hIs hIn hNot)

theorem Good.lend {rest : List Nat}
    (hFree : fr.free = f :: rest) : Good m (fr.lend f rest) es ts := by
  have hMem : f ∈ fr.free := by
    rw [hFree]
    exact List.mem_cons_self
  obtain ⟨hPool, _, hKept⟩ := hGood.free f hMem
  have hNodup := hGood.nodup
  rw [hFree] at hNodup
  obtain ⟨hNotRest, hRest⟩ := List.nodup_cons.mp hNodup
  refine hGood.setLoan ⟨hPool, hKept⟩ (hGood.free_unnamed hMem) (by omega) hRest
    (by simpa using hNotRest) (update_self _ _ _) ?_
  intro g hNe
  rw [hFree]
  exact ⟨by simp [hNe], update_of_ne hNe _ _⟩

/- The frame is in hand until it is used. -/
theorem Good.alloc {fr' : Frames}
    (hAlloc : allocUserPhysicalPage fr = some (f, fr')) : Good m fr' es (f :: ts) := by
  obtain ⟨rest, hFree, rfl⟩ := alloc_some hAlloc
  have hMem : f ∈ fr.free := by
    rw [hFree]
    exact List.mem_cons_self
  obtain ⟨hNone, hNot⟩ := hGood.free_unnamed hMem
  have hLend := hGood.lend hFree
  refine { hLend with tables := List.nodup_cons.mpr ⟨hNot, hGood.tables⟩, table := ?_ }
  intro g hIn
  rcases List.mem_cons.mp hIn with rfl | hOld
  · exact
      { loan := update_self _ _ _
        refs := update_self _ _ _
        notZero := (hGood.free _ hMem).2.2.2
        unnamed := hNone }
  · exact hLend.table g hOld

end

/- A table that is no longer part of an address space. -/
theorem Good.dropTable (hGood : Good m fr es (f :: ts)) : Good m fr es ts :=
  { hGood with
    tables := (List.nodup_cons.mp hGood.tables).2
    table := (List.forall_mem_cons.mp hGood.table).2 }

/- The frame in hand is mapped. -/
theorem Good.fill (hGood : Good m fr es (f :: ts)) (hOk : e.Ok)
    (hPresent : e.present = true) (hAddr : e.addr = f) : Good m fr (e :: es) ts := by
  subst hAddr
  have hApart := hGood.table e.addr List.mem_cons_self
  have hLent := hGood.lent e.addr hApart.loan
  have hPin := pinCount_of_not_arena hGood hLent.2
  refine hGood.dropTable.cons hOk ?_ ?_ ?_ ?_ ?_ (hGood.slots.cons (inSwap_of_present hPresent))
  · intro _ _ _
    rw [hApart.unnamed, hApart.refs, hPin]
  · intro _ _
    rw [hLent.2]
    exact ⟨Bool.noConfusion, fun _ => hApart.loan⟩
  · exact fun _ => .inl hLent.1
  · exact fun _ => (List.nodup_cons.mp hGood.tables).1
  · exact hGood.sole.fresh fun _ _ _ => ⟨hApart.notZero, hApart.unnamed⟩

----
-- Taking Frames Back
----

/- The stack has room for every frame that is not on it. -/
theorem free_length_lt (hGood : Good m fr es ts) (hPool : m.inPool f)
    (hNot : f ∉ fr.free) : fr.free.length < m.pages := by
  have hInj : ∀ g ∈ f :: fr.free, ∀ h ∈ f :: fr.free, (g - userPhysBase) / pageSize =
        (h - userPhysBase) / pageSize → g = h := by
    have hIn : ∀ g ∈ f :: fr.free, m.inPool g := by
      intro g hMem
      rcases List.mem_cons.mp hMem with rfl | hOld
      · exact hPool
      · exact (hGood.free g hOld).1
    intro g hG h hH hEq
    obtain ⟨hBase, hAlign, _⟩ := hIn g hG
    obtain ⟨hBase', hAlign', _⟩ := hIn h hH
    simp only [userPhysBase, pageSize] at *
    omega
  have hNodup : ((f :: fr.free).map fun g =>
        (g - userPhysBase) / pageSize).Nodup :=
    List.Nodup.map_on hInj (List.nodup_cons.mpr ⟨hNot, hGood.nodup⟩)
  have hSub : ((f :: fr.free).map fun g =>
        (g - userPhysBase) / pageSize) ⊆ List.range m.pages := by
    intro i hMem
    obtain ⟨g, hG, rfl⟩ := List.mem_map.mp hMem
    rw [List.mem_range]
    rcases List.mem_cons.mp hG with rfl | hOld
    · exact hPool.2.2
    · exact (hGood.free g hOld).1.2.2
  have hLength := (List.subperm_of_subset hNodup hSub).length_le
  rw [List.length_map, List.length_cons, List.length_range] at hLength
  omega

theorem Good.takeBack (hGood : Good m fr es ts) (hLoan : fr.loan f = true)
    (hZero : f ≠ m.zero) (hNone : naming es f = 0) (hNotTable : f ∉ ts) :
    Good m (fr.takeBack m f) es ts := by
  obtain ⟨hPool, hArena⟩ := hGood.lent f hLoan
  obtain ⟨hEver, hNotFree⟩ := (hGood.loan f).mp hLoan
  rw [Frames.takeBack, if_pos (free_length_lt hGood hPool hNotFree)]
  refine hGood.setLoan ⟨hPool, hArena, hZero⟩ ⟨hNone, hNotTable⟩ (Nat.zero_le _)
    (List.nodup_cons.mpr ⟨hNotFree, hGood.nodup⟩) (by simp) hEver ?_
  intro g hNe
  exact ⟨by simp [hNe], rfl⟩

theorem Good.freeTable (hGood : Good m fr es (f :: ts)) :
    Good m (freeUserPhysicalPage m fr f) es ts := by
  have hApart := hGood.table f List.mem_cons_self
  have hLent := hGood.lent f hApart.loan
  rw [freeUserPhysicalPage, if_neg hApart.notZero, if_pos ⟨hLent.1, hApart.loan⟩]
  exact hGood.dropTable.takeBack hApart.loan hApart.notZero
    hApart.unnamed (List.nodup_cons.mp hGood.tables).1

----
-- Counting
----

/- Another count for one frame. -/
theorem Good.setRefs (hGood : Good m fr es ts) {n : Nat}
    (hCount : m.inPool f → f ≠ m.zero → naming es f + pinCount fr f ≤ n)
    (hArena : m.arena f = true → m.inPool f → fr.pinned f = true)
    (hNotTable : f ∉ ts) (hSmall : n ≤ 65535) : Good m (fr.setRefs f n) es ts :=
  { hGood with
    count := by
      intro g hPool hZero
      change naming es g + pinCount fr g ≤ update fr.refs f n g
      rcases eq_or_ne g f with rfl | hSame
      · rw [update_self]
        exact hCount hPool hZero
      · rw [update_of_ne hSame]
        exact hGood.count g hPool hZero
    small := update_small hGood.small hSmall
    table := fun g hIn =>
      (hGood.table g hIn).setRefs
        fun hEq => hNotTable (hEq ▸ hIn)
    unpinned := by
      intro g hIs hIn hNot
      change fr.pinned g = false at hNot
      have hNe : g ≠ f := by
        intro hSame
        subst hSame
        rw [hArena hIs hIn] at hNot
        cases hNot
      exact (update_of_ne hNe _ _).trans (hGood.unpinned g hIs hIn hNot) }

/- One more entry for a frame of the pool, and its count. -/
theorem Good.consCounted (hGood : Good m fr es ts) {n : Nat} (hOk : e.Ok)
    (hPresent : e.present = true) (hPool : m.inPool e.addr)
    (hEnough : e.addr ≠ m.zero → naming es e.addr + 1 + pinCount fr e.addr ≤ n) (hSmall : n ≤ 65535)
    (hOwned : (m.arena e.addr = true → fr.pinned e.addr = true) ∧
        (m.arena e.addr = false → fr.loan e.addr = true))
    (hTable : e.addr ∉ ts) (hSole : Sole m (e :: es)) :
    Good m (fr.setRefs e.addr n) (e :: es) ts := by
  have hMore : Good m (fr.setRefs e.addr n) es ts := by
    refine hGood.setRefs ?_ (fun hIs _ => hOwned.1 hIs) hTable hSmall
    omega
  refine hMore.cons hOk ?_ (fun _ _ => hOwned) (fun _ => .inl hPool) (fun _ => hTable) hSole
    (hMore.slots.cons (inSwap_of_present hPresent))
  intro _ _ hZero
  have hSelf : (fr.setRefs e.addr n).refs e.addr = n := update_self _ _ _
  rw [hSelf]
  exact hEnough hZero

theorem refcIndex_cases (hGood : Good m fr es ts) (hMem : e ∈ es) (hPresent : e.present = true) :
    m.refcIndex e.addr = none ∨ (m.inPool e.addr ∧ m.refcIndex e.addr = some e.addr) := by
  rcases hGood.clean e hMem hPresent with hPool | hNone
  · exact .inr ⟨hPool, refcIndex_self hPool⟩
  · exact .inl hNone

/- An entry goes and its reference with it. -/
theorem Good.dec (hGood : Good m fr (e :: es) ts) (hPresent : e.present = true) :
    Good m (rustPageRefDec m fr e.addr).1 es ts := by
  unfold rustPageRefDec
  rcases refcIndex_cases hGood List.mem_cons_self hPresent with hNone | ⟨hPool, hSome⟩
  · rw [hNone]
    exact hGood.dropEntry
  rw [hSome]
  dsimp only
  split
  · exact hGood.dropEntry
  refine hGood.dropEntry.setRefs ?_ ?_ (hGood.not_table List.mem_cons_self hPresent)
    ((Nat.sub_le _ _).trans (hGood.small _))
  · intro _ hZero
    have hCount := hGood.count e.addr hPool hZero
    rw [naming_cons_self es hPresent] at hCount
    omega
  · intro hArena _
    exact (hGood.owned e List.mem_cons_self hPresent hPool).1 hArena

/- A count that falls to zero was that of one entry. -/
theorem Good.naming_last {fr' : Frames} {refs : Int}
    (hGood : Good m fr (e :: es) ts) (hPresent : e.present = true)
    (hZero : e.addr ≠ m.zero) (hPool : m.inPool e.addr)
    (hDec : rustPageRefDec m fr e.addr = (fr', refs)) (hLast : refs ≤ 0) :
    naming (e :: es) e.addr = 1 := by
  have hCount := hGood.count e.addr hPool hZero
  have hPos := naming_cons_self es hPresent
  rw [rustPageRefDec, refcIndex_self hPool] at hDec
  dsimp only at hDec
  split at hDec
  · omega
  · cases hDec
    omega

/- What a decrement that answers zero means. -/
theorem rustPageRefDec_zero {phys : Nat} (hZero : (rustPageRefDec m fr phys).2 = 0) :
    ∃ f, m.refcIndex phys = some f ∧ fr.refs f = 1 ∧
      (rustPageRefDec m fr phys).1 = fr.setRefs f 0 := by
  unfold rustPageRefDec at hZero ⊢
  cases hIndex : m.refcIndex phys with
  | none => simp [hIndex] at hZero
  | some f =>
  simp only [hIndex] at hZero ⊢
  by_cases hNone : fr.refs f = 0
  · simp [hNone] at hZero
  · simp only [if_neg hNone] at hZero ⊢
    have hOne : fr.refs f = 1 := by omega
    exact ⟨f, rfl, hOne, by rw [hOne]⟩

/- A mapping is let go of, and the frame with the last one. -/
theorem Good.release (hGood : Good m fr (e :: es) ts) (hPresent : e.present = true) :
    Good m (userLeafRelease m fr e.addr) es ts := by
  have hDec := hGood.dec hPresent
  unfold userLeafRelease
  generalize hRes : rustPageRefDec m fr e.addr = r at hDec
  dsimp only at hDec ⊢
  split
  case isFalse => exact hDec
  case isTrue hRefs =>
    unfold freeUserPhysicalPage
    split
    · exact hDec
    case isFalse hZero =>
      split
      case isFalse => exact hDec
      case isTrue hFree =>
        -- the count is zero, so no other entry names it
        have hDropped : (rustPageRefDec m fr e.addr).2 = 0 := by
          rw [hRes]
          exact hRefs
        obtain ⟨f, hIndex, hOne, hSet⟩ := rustPageRefDec_zero hDropped
        rw [refcIndex_self hFree.1] at hIndex
        cases hIndex
        have hCount := hGood.count e.addr hFree.1 hZero
        rw [naming_cons_self es hPresent] at hCount
        exact hDec.takeBack hFree.2 hZero (by omega) (hGood.not_table List.mem_cons_self hPresent)

namespace Good

variable (hGood : Good m fr es ts)

include hGood

/- One more entry for a frame that has one already. -/
theorem share (hMem : e ∈ es)
    (hPresent : e.present = true) (hArena : m.arena e.addr = false) (hRead : e.write = false)
    (hFew : Counted m e.addr → naming es e.addr < 65535) (hOk : e'.Ok)
    (hPresent' : e'.present = true) (hRead' : e'.write = false) (hAddr : e'.addr = e.addr) :
    Good m (rustPageRefInc m fr e.addr) (e' :: es) ts := by
  unfold rustPageRefInc
  rcases refcIndex_cases hGood hMem hPresent with hNone | ⟨hPool, hSome⟩
  · rw [hNone]
    refine hGood.addOutside hOk (inSwap_of_present hPresent') fun _ => ?_
    rw [hAddr]
    exact ⟨not_inPool_of_refcIndex hNone, hNone⟩
  rw [hSome]
  have hPin := pinCount_of_not_arena hGood hArena
  have hOwned := hGood.owned e hMem hPresent hPool
  have hTable := hGood.not_table hMem hPresent
  rw [← hAddr] at hPool hArena hPin hOwned hTable hFew ⊢
  refine hGood.consCounted hOk hPresent' hPool ?_ (Nat.min_le_right _ _) hOwned hTable ?_
  · intro hZero
    have hCount := hGood.count e'.addr hPool hZero
    have hLess := hFew ⟨hPool, hZero, hArena⟩
    omega
  · refine hGood.sole.quiet hRead' ?_
    rw [hAddr]
    exact hGood.sole.read_of_two hMem hPresent hRead

----
-- Pages of Frame Objects
----

theorem arena_not_table (hArena : m.arena f = true) : f ∉ ts := by
  intro hTable
  have hNot := (hGood.lent f (hGood.table f hTable).loan).2
  rw [hArena] at hNot
  cases hNot

/- No object is carved from the zero page. -/
theorem pinned_ne_zero (hPinned : fr.pinned f = true) : f ≠ m.zero := by
  intro hEq
  obtain ⟨hArena, hPool⟩ := hGood.pinned f hPinned
  have hNe : m.zero ≠ 0 := by
    have hBase := hPool.1
    simp only [userPhysBase] at hBase
    omega
  have hNot := (hGood.lent _ (hGood.zero hNe)).2
  rw [← hEq, hArena] at hNot
  cases hNot

theorem mapFrame (hPinned : fr.pinned f = true) (hFew : fr.refs f < 65535) (hOk : e.Ok)
    (hPresent : e.present = true) (hAddr : e.addr = f) :
    Good m (pageRefInc m fr f) (e :: es) ts := by
  subst hAddr
  obtain ⟨hArena, hPool⟩ := hGood.pinned e.addr hPinned
  have hNotTable := hGood.arena_not_table hArena
  have hCount := hGood.count e.addr hPool (hGood.pinned_ne_zero hPinned)
  unfold pageRefInc
  rw [refcIndex_self hPool]
  refine hGood.consCounted hOk hPresent hPool ?_ (by omega) ⟨fun _ => hPinned, ?_⟩ hNotTable
    (hGood.sole.outside fun _ _ => hArena)
  · omega
  · rw [hArena]
    exact Bool.noConfusion

end Good

theorem Good.unmapFrame (hGood : Good m fr (e :: es) ts)
    (hPresent : e.present = true) (hPinned : fr.pinned e.addr = true) :
    Good m (pageRefDec m fr e.addr) es ts := by
  obtain ⟨hArena, hPool⟩ := hGood.pinned e.addr hPinned
  unfold pageRefDec
  rw [refcIndex_self hPool]
  refine hGood.dropEntry.setRefs ?_ (fun _ _ => hPinned) (hGood.arena_not_table hArena)
    ((Nat.sub_le _ _).trans (hGood.small _))
  intro _ hZero
  have hCount := hGood.count e.addr hPool hZero
  rw [naming_cons_self es hPresent] at hCount
  omega

namespace Good

variable (hGood : Good m fr es ts)

include hGood

/- A page of an object that is not made yet is not mapped. -/
theorem unpinned_unnamed (hPool : m.inPool f)
    (hArena : m.arena f = true) (hNot : fr.pinned f = false) : naming es f = 0 := by
  rw [naming, List.countP_eq_zero]
  intro e hMem hNames
  obtain ⟨hPresent, rfl⟩ := names_iff.mp hNames
  have hOwned := (hGood.owned e hMem hPresent hPool).1 hArena
  rw [hNot] at hOwned
  cases hOwned

/- A page of an object is made or goes, and its own count with it. -/
theorem setPinned (hPool : m.inPool f)
    (hArena : m.arena f = true) (hNone : naming es f = 0) (pinned : Bool) :
    Good m { fr with
        pinned := update fr.pinned f pinned
        refs := update fr.refs f (if pinned then 1 else 0) } es ts := by
  refine
    { hGood with
      count := ?_
      owned := ?_
      small := update_small hGood.small (by split <;> omega)
      table := ?_
      pinned := ?_
      unpinned := ?_ }
  · intro g hIn hZero
    have hCount := hGood.count g hIn hZero
    simp only [pinCount] at hCount ⊢
    rcases eq_or_ne g f with rfl | hSame
    · simp [hNone]
    · simpa [update_of_ne hSame] using hCount
  · intro x hIn hIs hInPool
    have hOwned := hGood.owned x hIn hIs hInPool
    have hNe : x.addr ≠ f := by
      intro hEq
      have hPos := naming_pos_of_mem hIn hIs
      rw [hEq] at hPos
      omega
    dsimp only
    rw [update_of_ne hNe]
    exact hOwned
  · intro g hIn
    have hNe : g ≠ f := fun hEq => hGood.arena_not_table hArena (hEq ▸ hIn)
    exact { (hGood.table g hIn).setRefs hNe with }
  · intro g hIs
    by_cases hSame : g = f
    · rw [hSame]
      exact ⟨hArena, hPool⟩
    · exact hGood.pinned g ((update_of_ne hSame _ _).symm.trans hIs)
  · intro g hIs hIn hNo
    dsimp only at hNo ⊢
    by_cases hSame : g = f
    · rw [hSame, update_self] at hNo
      rw [hSame, update_self, hNo]
      rfl
    · rw [update_of_ne hSame] at hNo ⊢
      exact hGood.unpinned g hIs hIn hNo

theorem pin (f : Nat) : Good m (framePinRefcount m fr f) es ts := by
  unfold framePinRefcount
  split
  case isFalse => exact hGood
  case isTrue hNew =>
    obtain ⟨hPool, hArena, hNot⟩ := hNew
    rw [if_pos (hGood.unpinned f hArena hPool hNot)]
    exact hGood.setPinned hPool hArena (hGood.unpinned_unnamed hPool hArena hNot) true

theorem unpin (f : Nat) : Good m (frameUnpinRefcount fr f) es ts := by
  unfold frameUnpinRefcount
  split
  case isFalse => exact hGood
  case isTrue hOld =>
    obtain ⟨hPinned, hLow⟩ := hOld
    obtain ⟨hArena, hPool⟩ := hGood.pinned f hPinned
    have hZero := hGood.pinned_ne_zero hPinned
    have hCount := hGood.count f hPool hZero
    rw [pinCount, if_pos hPinned] at hCount
    rw [if_pos (by omega)]
    exact (hGood.setPinned hPool hArena (by omega) false).setPage (fun _ => hZero) zeroPage

end Good

end Toolkit

end Horus.Paging
