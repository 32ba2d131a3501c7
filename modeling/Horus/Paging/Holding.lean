import Horus.Paging.Cases
import Mathlib.Data.List.Perm.Subperm

/-
  Entries taken together.

  The entries of all address spaces are taken as a list whose
  order does not matter: how many of them name a frame or a
  slot of the swap store, that a frame of the pool which one
  of them may write is named by no other, and that a slot is
  counted for each entry that has it.
-/

namespace Horus.Paging

/- How many entries name the frame. -/
def naming (es : List Pte) (f : Nat) : Nat := es.countP (·.names f)

theorem names_iff {e : Pte} {f : Nat} : e.names f = true ↔ e.present = true ∧ e.addr = f := by
  simp [Pte.names]

theorem naming_cons (e : Pte) (es : List Pte) (f : Nat) :
    naming (e :: es) f = naming es f + if e.names f then 1 else 0 := by
  simp [naming, List.countP_cons]

theorem naming_cons_self {e : Pte} (es : List Pte) (hPresent : e.present = true) :
    naming (e :: es) e.addr = naming es e.addr + 1 := by
  rw [naming_cons, if_pos (names_iff.mpr ⟨hPresent, rfl⟩)]

theorem naming_cons_other {e : Pte} {f : Nat} (es : List Pte)
    (hOther : e.present = true → e.addr ≠ f) : naming (e :: es) f = naming es f := by
  rw [naming_cons, if_neg]
  · rfl
  · intro hNames
    obtain ⟨hPresent, hAddr⟩ := names_iff.mp hNames
    exact hOther hPresent hAddr

theorem naming_le_cons (e : Pte) (es : List Pte) (f : Nat) : naming es f ≤ naming (e :: es) f := by
  rw [naming_cons]
  omega

theorem naming_pos_of_mem {e : Pte} {es : List Pte} (hMem : e ∈ es)
    (hPresent : e.present = true) : 0 < naming es e.addr :=
  List.countP_pos_iff.mpr ⟨e, hMem, names_iff.mpr ⟨hPresent, rfl⟩⟩

theorem naming_append (es es' : List Pte) (f : Nat) :
    naming (es ++ es') f = naming es f + naming es' f :=
  List.countP_append

theorem naming_perm {es es' : List Pte} (hPerm : es.Perm es') (f : Nat) :
    naming es f = naming es' f :=
  hPerm.countP_eq _

section Pool

variable {m : Machine} {f : Nat}

theorem inPool_lt (hPool : m.inPool f) : f < 2 ^ 32 := by
  obtain ⟨hBase, hAlign, hIndex⟩ := hPool
  have hFits := m.pages_le
  have hDiv := (Nat.div_lt_iff_lt_mul (by decide : 0 < pageSize)).mp hIndex
  omega

/- The count of a frame of the pool is its own. -/
theorem refcIndex_self (hPool : m.inPool f) : m.refcIndex f = some f := by
  have hLow := inPool_lt hPool
  obtain ⟨hBase, hAlign, hIndex⟩ := hPool
  rw [Machine.refcIndex, Nat.mod_eq_of_lt hLow, if_pos ⟨hBase, hIndex⟩, hAlign, Nat.sub_zero]

theorem not_inPool_of_refcIndex (hNone : m.refcIndex f = none) : ¬ m.inPool f := by
  intro hPool
  rw [refcIndex_self hPool] at hNone
  cases hNone

end Pool

/- A frame that a fork shares by its count. -/
def Counted (m : Machine) (f : Nat) : Prop := m.inPool f ∧ f ≠ m.zero ∧ m.arena f = false

----
-- Frames Named Once
----

/-
  A frame that an entry may write, other than an object's, is
  not the zero page, and no other entry names it.
-/
def Sole (m : Machine) (es : List Pte) : Prop :=
  ∀ e ∈ es, e.present = true → e.write = true → m.inPool e.addr → m.arena e.addr = false →
      e.addr ≠ m.zero ∧ naming es e.addr = 1

section Sole

variable {m : Machine} {es es' : List Pte} {e e' : Pte}

theorem Sole.perm (hSole : Sole m es) (hPerm : es.Perm es') : Sole m es' := by
  intro e hMem hPresent hWrite hPool hArena
  rw [← naming_perm hPerm]
  exact hSole e (hPerm.mem_iff.mpr hMem) hPresent hWrite hPool hArena

theorem Sole.tail (hSole : Sole m (e :: es)) : Sole m es := by
  intro x hMem hPresent hWrite hPool hArena
  obtain ⟨hZero, hOne⟩ := hSole x (List.mem_cons_of_mem _ hMem) hPresent hWrite hPool hArena
  have hPos := naming_pos_of_mem hMem hPresent
  have hLe := naming_le_cons e es x.addr
  exact ⟨hZero, by omega⟩

/- An entry for a frame that no other entry names. -/
theorem Sole.fresh (hSole : Sole m es)
    (hNew : e.present = true → m.inPool e.addr → m.arena e.addr = false →
        e.addr ≠ m.zero ∧ naming es e.addr = 0) :
    Sole m (e :: es) := by
  intro x hMem hPresent hWrite hPool hArena
  rcases List.mem_cons.mp hMem with rfl | hOld
  · obtain ⟨hZero, hNone⟩ := hNew hPresent hPool hArena
    rw [naming_cons_self es hPresent, hNone]
    exact ⟨hZero, rfl⟩
  obtain ⟨hZero, hOne⟩ := hSole x hOld hPresent hWrite hPool hArena
  refine ⟨hZero, ?_⟩
  rw [naming_cons_other es]
  · exact hOne
  intro hIs hAddr
  rw [← hAddr] at hPool hArena hOne
  have hNone := (hNew hIs hPool hArena).2
  omega

/- An entry that may not write, for a frame that none may. -/
theorem Sole.quiet (hSole : Sole m es) (hRead : e.write = false)
    (hNone : ∀ x ∈ es, x.present = true → x.write = true →
      m.inPool x.addr → m.arena x.addr = false → x.addr ≠ e.addr) :
    Sole m (e :: es) := by
  intro x hMem hPresent hWrite hPool hArena
  rcases List.mem_cons.mp hMem with rfl | hOld
  · rw [hRead] at hWrite
    cases hWrite
  obtain ⟨hZero, hOne⟩ := hSole x hOld hPresent hWrite hPool hArena
  refine ⟨hZero, ?_⟩
  rw [naming_cons_other es]
  · exact hOne
  · intro _ hAddr
    exact hNone x hOld hPresent hWrite hPool hArena hAddr.symm

/- An entry that names no such frame. -/
theorem Sole.outside (hSole : Sole m es)
    (hOut : e.present = true → m.inPool e.addr → m.arena e.addr = true) : Sole m (e :: es) := by
  refine hSole.fresh ?_
  intro hPresent hPool hArena
  rw [hOut hPresent hPool] at hArena
  cases hArena

/- Two entries for one frame: none of them may write. -/
theorem Sole.read_of_two (hSole : Sole m es) (hMem : e ∈ es)
    (hPresent : e.present = true) (hRead : e.write = false) :
    ∀ x ∈ es, x.present = true → x.write = true →
      m.inPool x.addr → m.arena x.addr = false → x.addr ≠ e.addr := by
  intro x hIn hIs hWrite hPool hArena hAddr
  obtain ⟨_, hOne⟩ := hSole x hIn hIs hWrite hPool hArena
  have hPerm := List.perm_cons_erase hIn
  rw [naming_perm hPerm, naming_cons_self _ hIs] at hOne
  have hOther : e ∈ es.erase x := by
    rcases List.mem_cons.mp (hPerm.mem_iff.mp hMem) with rfl | hRest
    · rw [hRead] at hWrite
      cases hWrite
    · exact hRest
  have hPos := naming_pos_of_mem hOther hPresent
  rw [← hAddr] at hPos
  omega

/- The flags of an entry change. -/
theorem Sole.reflag (hSole : Sole m (e :: es))
    (hPresent : e'.present = e.present) (hAddr : e'.addr = e.addr)
    (hWrite : e'.write = true → e.write = true ∨ (m.inPool e.addr →
        e.addr ≠ m.zero ∧ naming (e :: es) e.addr = 1)) :
    Sole m (e' :: es) := by
  have hNaming : ∀ f, naming (e' :: es) f = naming (e :: es) f := by
    intro f
    rw [naming_cons, naming_cons, Pte.names, Pte.names, hPresent, hAddr]
  intro x hMem hIs hMay hPool hArena
  rw [hNaming]
  rcases List.mem_cons.mp hMem with rfl | hOld
  · rw [hAddr] at hPool hArena ⊢
    rcases hWrite hMay with hWas | hAlone
    · exact hSole e List.mem_cons_self (hPresent ▸ hIs) hWas hPool hArena
    · exact hAlone hPool
  · exact hSole x (List.mem_cons_of_mem _ hOld) hIs hMay hPool hArena

end Sole

----
-- Slots
----

/- How many entries have the slot. -/
def swapping (es : List Pte) (n : Nat) : Nat := es.countP fun e => e.inSwap && e.addr == n

def slotRefs (fr : Frames) (n : Nat) : Nat :=
  match fr.slot n with
  | none => 0
  | some v => v.refs

def Slots (fr : Frames) (es : List Pte) : Prop := ∀ n, swapping es n ≤ slotRefs fr n

section Slots

variable {fr fr' : Frames} {es es' : List Pte} {e e' : Pte} {n : Nat}

theorem swapping_cons (e : Pte) (es : List Pte) (n : Nat) :
    swapping (e :: es) n = swapping es n + if e.inSwap = true ∧ e.addr = n then 1 else 0 := by
  simp [swapping, List.countP_cons]

theorem swapping_pos_of_mem (hMem : e ∈ es) (hIn : e.inSwap = true) : 0 < swapping es e.addr := by
  refine List.countP_pos_iff.mpr ⟨e, hMem, ?_⟩
  simp [hIn]

theorem Slots.perm (hSlots : Slots fr es) (hPerm : es.Perm es') : Slots fr es' := by
  intro n
  have hSame : swapping es' n = swapping es n := hPerm.symm.countP_eq _
  rw [hSame]
  exact hSlots n

theorem Slots.tail (hSlots : Slots fr (e :: es)) : Slots fr es := by
  intro n
  have hLe := hSlots n
  rw [swapping_cons] at hLe
  omega

/- An entry that is not in swap. -/
theorem Slots.cons (hSlots : Slots fr es) (hNotIn : e.inSwap = false) : Slots fr (e :: es) := by
  intro n
  rw [swapping_cons, if_neg]
  · exact hSlots n
  · rw [hNotIn]
    exact fun hIn => Bool.noConfusion hIn.1

theorem Slots.reflag (hSlots : Slots fr (e :: es))
    (hIn : e'.inSwap = e.inSwap) (hAddr : e'.addr = e.addr) : Slots fr (e' :: es) := by
  intro n
  rw [swapping_cons, hIn, hAddr, ← swapping_cons]
  exact hSlots n

theorem slotRefs_setSlot_self (fr : Frames) (n : Nat) (v : Option SwapPage) :
    slotRefs (fr.setSlot n v) n = match v with
      | none => 0
      | some v => v.refs := by
  simp [slotRefs, Frames.setSlot]

theorem slotRefs_setSlot_other (fr : Frames) {n k : Nat} (v : Option SwapPage) (hNe : k ≠ n) :
    slotRefs (fr.setSlot n v) k = slotRefs fr k := by
  simp [slotRefs, Frames.setSlot, Function.update_of_ne hNe]

theorem slotRefs_swapLetGo (fr : Frames) (n k : Nat) :
    slotRefs (swapLetGo fr n) k = if k = n then slotRefs fr k - 1 else slotRefs fr k := by
  unfold swapLetGo
  split
  case h_1 hNone =>
    split
    case isTrue hSame =>
      subst hSame
      simp [slotRefs, hNone]
    case isFalse => rfl
  case h_2 v hSome =>
    rcases eq_or_ne k n with rfl | hSame
    · have hRefs : slotRefs fr k = v.refs := by
        simp [slotRefs, hSome]
      rw [if_pos rfl, hRefs]
      split
      · exact slotRefs_setSlot_self _ _ _
      · rw [slotRefs_setSlot_self]
        simp only
        omega
    · split
      · exact slotRefs_setSlot_other _ _ hSame
      · exact slotRefs_setSlot_other _ _ hSame

/- An entry leaves swap and its slot is let go of. -/
theorem Slots.letGo (hSlots : Slots fr (e :: es)) (hIn : e.inSwap = true) :
    Slots (swapLetGo fr e.addr) es := by
  intro n
  have hLe := hSlots n
  rw [swapping_cons] at hLe
  rw [slotRefs_swapLetGo]
  split
  case isTrue hSame =>
    rw [if_pos ⟨hIn, hSame.symm⟩] at hLe
    omega
  case isFalse => omega

theorem slotRefs_swapShare (fr : Frames) (n k : Nat)
    (hPos : 0 < slotRefs fr n) : slotRefs (swapShare fr n) k =
      if k = n then slotRefs fr k + 1 else slotRefs fr k := by
  unfold swapShare
  split
  case h_1 hNone => simp [slotRefs, hNone] at hPos
  case h_2 v hSome =>
    split
    case isTrue hSame =>
      subst hSame
      rw [slotRefs_setSlot_self]
      simp [slotRefs, hSome]
    case isFalse hNe => exact slotRefs_setSlot_other _ _ hNe

/- Another entry for a slot that one has already. -/
theorem Slots.share (hSlots : Slots fr es) (hMem : e ∈ es)
    (hIn : e.inSwap = true) (hAddr : e'.addr = e.addr) :
    Slots (swapShare fr e.addr) (e' :: es) := by
  have hPos : 0 < slotRefs fr e.addr := (swapping_pos_of_mem hMem hIn).trans_le (hSlots _)
  intro n
  have hLe := hSlots n
  rw [swapping_cons, slotRefs_swapShare _ _ _ hPos, hAddr]
  split
  case isTrue hBoth =>
    rw [if_pos hBoth.2.symm]
    omega
  case isFalse => split <;> omega

/- A page goes to a slot that no entry has. -/
theorem Slots.store (hSlots : Slots fr es) (hFree : fr.slot n = none)
    (page : Page) (hAddr : e'.addr = n) : Slots (swapStore fr n page) (e' :: es) := by
  intro k
  have hLe := hSlots k
  rw [swapping_cons]
  rcases eq_or_ne k n with rfl | hSame
  · have hNone : slotRefs fr k = 0 := by
      simp [slotRefs, hFree]
    rw [swapStore, slotRefs_setSlot_self]
    simp only
    split <;> omega
  · rw [swapStore, slotRefs_setSlot_other _ _ hSame, if_neg]
    · exact hLe
    · rw [hAddr]
      exact fun hBoth => hSame hBoth.2.symm

end Slots

end Horus.Paging
