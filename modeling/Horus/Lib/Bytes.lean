import Mathlib.Data.List.Basic
import Mathlib.Tactic.Ring

/-
  Records packed into byte buffers.

  A buffer is a list of bytes. `put` overwrites a range of it
  and `slice` reads one; what is read after a write depends
  only on how the two ranges lie. Numbers are stored with the
  least significant byte first.
-/

namespace Horus.Lib

/- The `n` low bytes of a number. -/
def leBytes : Nat → Nat → List UInt8
  | 0, _ => []
  | n + 1, v => UInt8.ofNat v :: leBytes n (v / 256)

def ofLe : List UInt8 → Nat
  | [] => 0
  | b :: bs => b.toNat + 256 * ofLe bs

@[simp] theorem length_leBytes (n v : Nat) : (leBytes n v).length = n := by
  induction n generalizing v with
  | zero => rfl
  | succ n ih => simp [leBytes, ih]

theorem ofLe_leBytes (n v : Nat) : ofLe (leBytes n v) = v % 256 ^ n := by
  induction n generalizing v with
  | zero => simp [leBytes, ofLe, Nat.mod_one]
  | succ n ih =>
    have hByte : (UInt8.ofNat v).toNat = v % 256 := by
      simp
    rw [leBytes, ofLe, ih, hByte, pow_succ', Nat.mod_mul]

theorem ofLe_leBytes_of_lt {n v : Nat} (hFits : v < 256 ^ n) : ofLe (leBytes n v) = v := by
  rw [ofLe_leBytes, Nat.mod_eq_of_lt hFits]

section Buffers

variable {α : Type}

/- The bytes from `off` on are overwritten with `v`. -/
def put (b : List α) (off : Nat) (v : List α) : List α := b.take off ++ v ++ b.drop (off + v.length)

def slice (b : List α) (off n : Nat) : List α := (b.drop off).take n

variable {b v : List α} {off i n : Nat}

theorem length_put (hFits : off + v.length ≤ b.length) : (put b off v).length = b.length := by
  simp only [put, List.length_append, List.length_take, List.length_drop]
  omega

theorem getElem?_slice (b : List α) (off n i : Nat) :
    (slice b off n)[i]? = if i < n then b[off + i]? else none := by
  simp [slice, List.getElem?_take, List.getElem?_drop]

theorem getElem?_put (hFits : off + v.length ≤ b.length) (i : Nat) :
    (put b off v)[i]? = if i < off then b[i]?
      else if i < off + v.length then v[i - off]?
      else b[i]? := by
  have hFront : (b.take off).length = off := by
    simp only [List.length_take]
    omega
  rw [put, List.append_assoc, List.getElem?_append, hFront]
  split
  · rename_i hBefore
    rw [List.getElem?_take, if_pos hBefore]
  rw [List.getElem?_append]
  by_cases hInside : i < off + v.length
  · rw [if_pos (by omega), if_pos hInside]
  · rw [if_neg (by omega), if_neg hInside, List.getElem?_drop]
    congr 1
    omega

/- A range inside what was written. -/
theorem slice_put_inside (hFits : off + v.length ≤ b.length) (hInside : i + n ≤ v.length) :
    slice (put b off v) (off + i) n = slice v i n := by
  apply List.ext_getElem?
  intro j
  rw [getElem?_slice, getElem?_slice, getElem?_put hFits]
  by_cases hIndex : j < n
  · rw [if_pos hIndex, if_pos hIndex, if_neg (by omega), if_pos (by omega)]
    congr 1
    omega
  · rw [if_neg hIndex, if_neg hIndex]

/- A range before or behind what was written. -/
theorem slice_put_apart (hFits : off + v.length ≤ b.length)
    (hApart : i + n ≤ off ∨ off + v.length ≤ i) : slice (put b off v) i n = slice b i n := by
  apply List.ext_getElem?
  intro j
  rw [getElem?_slice, getElem?_slice, getElem?_put hFits]
  by_cases hIndex : j < n
  · rw [if_pos hIndex, if_pos hIndex]
    rcases hApart with hBefore | hBehind
    · rw [if_pos (by omega)]
    · rw [if_neg (by omega), if_neg (by omega)]
  · rw [if_neg hIndex, if_neg hIndex]

/- What was written is read. -/
theorem slice_put_self (hFits : off + v.length ≤ b.length)
    (hLength : n = v.length) : slice (put b off v) off n = v := by
  have hInside := slice_put_inside (i := 0) (n := n) hFits (by omega)
  rw [Nat.add_zero] at hInside
  rw [hInside, hLength]
  exact List.take_length

theorem slice_replicate {x : α} {m : Nat} (hInside : off + n ≤ m) :
    slice (List.replicate m x) off n = List.replicate n x := by
  simp only [slice, List.drop_replicate, List.take_replicate]
  congr 1
  omega

/- Two neighbouring ranges. -/
theorem slice_append_slice (b : List α) (off n m : Nat) :
    slice b off n ++ slice b (off + n) m = slice b off (n + m) := by
  rw [slice, slice, slice, List.take_add, List.drop_drop]

/- The fields of a record, each with its offset. -/
def putAll (b : List α) : List (Nat × List α) → List α
  | [] => b
  | f :: fs => putAll (put b f.1 f.2) fs

/- Two fields that share no byte. -/
def Apart (f f' : Nat × List α) : Prop := f.1 + f.2.length ≤ f'.1 ∨ f'.1 + f'.2.length ≤ f.1

variable {fs : List (Nat × List α)}

theorem length_putAll (hFits : ∀ f ∈ fs, f.1 + f.2.length ≤ b.length) :
    (putAll b fs).length = b.length := by
  induction fs generalizing b with
  | nil => rfl
  | cons f _ ih =>
  have hHead := length_put (hFits f List.mem_cons_self)
  rw [putAll, ih, hHead]
  intro f' hMem
  rw [hHead]
  exact hFits f' (List.mem_cons_of_mem f hMem)

theorem putAll_append (b : List α) (fs fs' : List (Nat × List α)) :
    putAll b (fs ++ fs') = putAll (putAll b fs) fs' := by
  induction fs generalizing b with
  | nil => rfl
  | cons f _ ih => exact ih (put b f.1 f.2)

/- A range that no field touches. -/
theorem slice_putAll_apart (hFits : ∀ f ∈ fs, f.1 + f.2.length ≤ b.length)
    (hApart : ∀ f ∈ fs, i + n ≤ f.1 ∨ f.1 + f.2.length ≤ i) :
    slice (putAll b fs) i n = slice b i n := by
  induction fs generalizing b with
  | nil => rfl
  | cons f _ ih =>
  have hHead := hFits f List.mem_cons_self
  rw [putAll, ih, slice_put_apart hHead (hApart f List.mem_cons_self)]
  · intro f' hMem
    rw [length_put hHead]
    exact hFits f' (List.mem_cons_of_mem f hMem)
  · exact fun f' hMem => hApart f' (List.mem_cons_of_mem f hMem)

/- Every field of a record without overlaps is read back. -/
theorem slice_putAll_of_mem (hFits : ∀ f ∈ fs, f.1 + f.2.length ≤ b.length)
    (hApart : fs.Pairwise Apart) {f : Nat × List α} (hMem : f ∈ fs)
    (hLength : n = f.2.length) : slice (putAll b fs) f.1 n = f.2 := by
  induction fs generalizing b with
  | nil => simp at hMem
  | cons f' fs ih =>
  have hHead := hFits f' List.mem_cons_self
  have hTail : ∀ f ∈ fs, f.1 + f.2.length ≤ (put b f'.1 f'.2).length := by
    intro f hMem'
    rw [length_put hHead]
    exact hFits f (List.mem_cons_of_mem f' hMem')
  rw [List.pairwise_cons] at hApart
  rw [putAll]
  rcases List.mem_cons.mp hMem with rfl | hLater
  · rw [slice_putAll_apart hTail]
    · exact slice_put_self hHead hLength
    · intro f' hMem'
      rw [hLength]
      exact hApart.1 f' hMem'
  · exact ih hTail hApart.2 hLater

end Buffers

end Horus.Lib
