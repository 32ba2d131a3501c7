import Mathlib.Algebra.Ring.Nat
import Mathlib.Data.List.Basic

/-
  Which register page the holder of a device capability may map
  (`pci.c`).

  A page is mapped whole, whatever length was asked for. It is
  the device's own when one of its regions declares all of it;
  otherwise no other device may declare a byte of it that this
  one does not declare too, and it lies outside the chipset's
  window.

  Main results: `allowsMmioIn_exclusive`.
-/

namespace Horus.Device

/- `mmio[i]` of `struct io_device`, with the sum wrapping as in the source. -/
structure MmioRegion where
  base : BitVec 64
  len : BitVec 64
deriving DecidableEq, Repr

def MmioRegion.stop (r : MmioRegion) : BitVec 64 := r.base + r.len

/- A byte of the region; a region that wraps goes on from address 0. -/
def MmioRegion.Has (r : MmioRegion) (x : BitVec 64) : Prop := x - r.base < r.len

/- The fields of `struct io_device` that the check reads. -/
structure MmioDevice where
  present : Bool
  mmio : List MmioRegion
  msixTablePhys : BitVec 64
  msixTableLen : BitVec 64
  /- `IODEV_MAX_MMIO` -/
  mmio_le : mmio.length ≤ 8

def pageSize : BitVec 64 := 4096

/- `x & ~(PAGE_SIZE - 1)`. -/
def pageDown (x : BitVec 64) : BitVec 64 := x - x % pageSize

def chipsetBase : BitVec 64 := 0xFEC00000
def chipsetEnd : BitVec 64 := 0xFF000000

namespace MmioDevice

/- `iodev_msix_blocks_page`. -/
def msixBlocksPage (d : MmioDevice) (paddr len : BitVec 64) : Bool :=
  if d.msixTablePhys = 0 ∨ d.msixTableLen = 0 then false
  else if len = 0 ∨ paddr + len < paddr then false
  else
    let tstart := pageDown d.msixTablePhys
    let tend := pageDown (d.msixTablePhys + d.msixTableLen + pageSize - 1)
    decide (paddr < tend ∧ tstart < paddr + len)

/- One region, which does not wrap, declares all of `[a, z)`. -/
def covers (d : MmioDevice) (a z : BitVec 64) : Bool :=
  d.mmio.any fun r => decide (r.base ≤ r.stop ∧ r.base ≤ a ∧ z ≤ r.stop)

/- The part of `r` in `[page, pend)` is declared by `d` as well. -/
def sharesOnly (d : MmioDevice) (page pend : BitVec 64) (r : MmioRegion) : Bool :=
  if r.stop < r.base then false
  else
    let a := if page < r.base then r.base else page
    let z := if r.stop < pend then r.stop else pend
    decide (z ≤ a) || d.covers a z

/- A byte the device declares. -/
def Declares (d : MmioDevice) (x : BitVec 64) : Prop := ∃ r ∈ d.mmio, r.Has x

/- A byte of the device's MSI-X vector table. -/
def HasVector (d : MmioDevice) (x : BitVec 64) : Prop :=
  d.msixTablePhys ≠ 0 ∧ x - d.msixTablePhys < d.msixTableLen

/- The table, rounded up to a page, ends below 2^64. -/
def TableEnds (d : MmioDevice) : Prop :=
  d.msixTablePhys.toNat + d.msixTableLen.toNat + 4095 < 2 ^ 64

end MmioDevice

/- `iodev_page_exclusive` for the device at index `d` of the table. -/
def pageExclusive (table : Nat → MmioDevice) (n d : Nat) (page : BitVec 64) : Bool :=
  let pend := page + pageSize
  if pend < page then false
  else if (table d).covers page pend then true
  else if page < chipsetEnd ∧ chipsetBase < pend then false
  else
    (List.range n).all fun j =>
      j == d || !(table j).present || (table j).mmio.all ((table d).sharesOnly page pend)

/- `iodev_allows_mmio_in`. -/
def allowsMmioIn (table : Nat → MmioDevice) (n d : Nat) (paddr len : BitVec 64) : Bool :=
  if len = 0 ∨ paddr + len < paddr then false
  else if (table d).msixBlocksPage paddr len then false
  else if !(table d).covers paddr (paddr + len) then false
  else pageExclusive table n d (pageDown paddr)

section

variable {paddr len x : BitVec 64}

theorem toNat_pageDown (x : BitVec 64) : (pageDown x).toNat = x.toNat - x.toNat % 4096 := by
  have hLe : x % pageSize ≤ x := by
    exact Nat.mod_le _ _
  rw [pageDown, BitVec.toNat_sub_of_le hLe, BitVec.toNat_umod]
  rfl

theorem MmioDevice.declares_of_covers {dev : MmioDevice} {a z : BitVec 64}
    (hCovers : dev.covers a z = true) (hLow : a ≤ x) (hHigh : x < z) : dev.Declares x := by
  obtain ⟨r, hMem, hFits⟩ := List.any_eq_true.mp hCovers
  have hFits := of_decide_eq_true hFits
  refine ⟨r, hMem, ?_⟩
  simp only [MmioRegion.Has, MmioRegion.stop] at hFits ⊢
  bv_omega

/- A region that passed `sharesOnly` gives away no byte of its own. -/
theorem MmioDevice.declares_of_sharesOnly {dev : MmioDevice} {page pend : BitVec 64}
    {r : MmioRegion} (hShares : dev.sharesOnly page pend r = true) (hHas : r.Has x)
    (hLow : page ≤ x) (hHigh : x < pend) : dev.Declares x := by
  rw [MmioRegion.Has] at hHas
  simp only [sharesOnly] at hShares
  split at hShares
  · cases hShares
  next hStraight =>
  rw [MmioRegion.stop] at hStraight hShares
  have hA : (if page < r.base then r.base else page) ≤ x := by
    split <;> bv_omega
  have hZ : x < (if r.base + r.len < pend then r.base + r.len else pend) := by
    split <;> bv_omega
  rcases Bool.or_eq_true_iff.mp hShares with hEmpty | hCovers
  · rw [decide_eq_true_eq] at hEmpty
    bv_omega
  · exact declares_of_covers hCovers hA hZ

/- The page at `paddr` holds `x`. -/
theorem page_bounds (hPage : pageDown x = paddr) : paddr.toNat % 4096 = 0 ∧ paddr ≤ x ∧
    x.toNat < paddr.toNat + 4096 := by
  have hNat := toNat_pageDown x
  rw [hPage] at hNat
  rw [BitVec.le_def]
  omega

/- A request that is not blocked has no vector in its page. -/
theorem MmioDevice.not_hasVector {dev : MmioDevice} (hPage : pageDown x = paddr)
    (hLen : len ≠ 0) (hSum : ¬ paddr + len < paddr) (hEnds : dev.TableEnds)
    (hOpen : dev.msixBlocksPage paddr len = false) : ¬ dev.HasVector x := by
  rintro ⟨hPhys, hVector⟩
  have hSize : dev.msixTableLen ≠ 0 := by bv_omega
  have hIn := page_bounds hPage
  rw [TableEnds] at hEnds
  simp only [msixBlocksPage, hPhys, hSize, hLen, hSum, or_self, if_false] at hOpen
  rw [pageSize] at hOpen
  refine of_decide_eq_false hOpen ⟨?_, ?_⟩ <;>
    rw [BitVec.lt_def, toNat_pageDown] <;>
    bv_omega

/-
  What an accepted request gives, for every byte `x` of the page:
  another present device that declares `x` shares it with `d`,
  `x` is no byte of the device's own vector table, and it lies
  in the chipset's window only when one region of `d` declares
  the whole page.
-/
theorem allowsMmioIn_exclusive (table : Nat → MmioDevice) (n d : Nat) (paddr len x : BitVec 64)
    (hPage : pageDown x = paddr) (hAllows : allowsMmioIn table n d paddr len = true) :
    (∀ j < n, j ≠ d → (table j).present = true → (table j).Declares x → (table d).Declares x) ∧
    ((table d).TableEnds → ¬ (table d).HasVector x) ∧
    ((table d).covers paddr (paddr + pageSize) = false → ¬ (chipsetBase ≤ x ∧ x < chipsetEnd)) := by
  have hIn := page_bounds hPage
  have hDown : pageDown paddr = paddr := by
    rw [BitVec.toNat_eq, toNat_pageDown]
    omega
  simp only [allowsMmioIn, pageExclusive, hDown] at hAllows
  split at hAllows
  · cases hAllows
  next hSum =>
  rw [not_or] at hSum
  split at hAllows
  · cases hAllows
  next hOpen =>
  split at hAllows
  · cases hAllows
  split at hAllows
  · cases hAllows
  next hEnd =>
  have hBelow : x < paddr + pageSize := by
    rw [pageSize] at hEnd ⊢
    bv_omega
  have hTable := fun hEnds => MmioDevice.not_hasVector hPage hSum.1 hSum.2 hEnds
    (Bool.eq_false_iff.mpr hOpen)
  split at hAllows
  next hWhole =>
    refine ⟨fun _ _ _ _ _ => MmioDevice.declares_of_covers hWhole hIn.2.1 hBelow, hTable, ?_⟩
    intro hPart
    rw [hPart] at hWhole
    cases hWhole
  · split at hAllows
    · cases hAllows
    next hOutside =>
    refine ⟨?_, hTable, ?_⟩
    · rintro j hj hOther hPresent ⟨r, hMem, hHas⟩
      have hOne := List.all_eq_true.mp hAllows j (List.mem_range.mpr hj)
      simp only [beq_eq_false_iff_ne.mpr hOther, hPresent, Bool.not_true, Bool.or_self,
        Bool.false_or] at hOne
      exact MmioDevice.declares_of_sharesOnly (List.all_eq_true.mp hOne r hMem) hHas hIn.2.1 hBelow
    · rintro - ⟨hBase, hStop⟩
      bv_omega

end

/- A present device with one region and a vector table. -/
def oneRegion (base len phys tableLen : BitVec 64) : MmioDevice :=
  ⟨true, [⟨base, len⟩], phys, tableLen, by simp⟩

/- A small region alone in its page, beside a device elsewhere. -/
def sdhciTable (j : Nat) : MmioDevice :=
  if j = 0 then oneRegion 0xF0001000 256 0 0 else oneRegion 0xF0002000 4096 0xF0002000 64

theorem allowsMmioIn_exclusive_sdhci : allowsMmioIn sdhciTable 2 0 0xF0001000 256 = true ∧
    ¬ (chipsetBase ≤ 0xF0001FFF#64 ∧ 0xF0001FFF#64 < chipsetEnd) :=
  ⟨by decide, (allowsMmioIn_exclusive sdhciTable 2 0 0xF0001000 256 0xF0001FFF (by decide)
    (by decide)).2.2 (by decide)⟩

/-
  A region that declares a whole page is enough: in the chipset's
  window, over another device's vector table, and over the
  device's own table when its end rounds up to 2^64.
-/
theorem whole_page_is_allowed :
    (allowsMmioIn (fun _ => oneRegion 0xFEC00000 4096 0 0) 1 0 0xFEC00000 4096 = true ∧
      chipsetBase ≤ 0xFEC00000#64) ∧
    (allowsMmioIn (fun j => oneRegion 0xF0000000 4096 (if j = 0 then 0 else 0xF0000000) 64) 2 0
        0xF0000000 4096 = true ∧
      (oneRegion 0xF0000000 4096 0xF0000000 64).HasVector 0xF0000000) ∧
    (allowsMmioIn (fun _ => oneRegion (-16384) 12288 (-8192) 8192) 1 0 (-8192) 4096 = true ∧
      (oneRegion (-16384) 12288 (-8192) 8192).HasVector (-8192)) :=
  ⟨by decide, ⟨by decide, by decide, by decide⟩, by decide, by decide, by decide⟩

end Horus.Device
