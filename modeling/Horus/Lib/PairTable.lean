import Mathlib.Data.Finset.Card
import Mathlib.Logic.Function.Basic
import Mathlib.Logic.Relation
import Mathlib.Order.Lattice

/-
  A table of key-value pairs in an array: sorted in place by
  insertion, searched by bisection, and followed from key to
  key with a bound on the number of steps.
-/

namespace Horus

open Function

namespace Lib

namespace PairTable

variable {K V : Type}
variable [LinearOrder K]

variable {i n : Nat} {t : Nat → K × V}

----
-- Insertion by Shifting
----

/-
  Move the entries below `j` with a key above `k` one place
  up, and return the place that became free.
-/
def shift (k : K) : Nat → (Nat → K × V) → (Nat → K × V) × Nat
  | 0, t => (t, 0)
  | j + 1, t => if k < (t j).1 then shift k j (update t (j + 1) (t j)) else (t, j + 1)

/- Insert entry `i` into the sorted entries before it. -/
def insertAt (i : Nat) (t : Nat → K × V) : Nat → K × V :=
  update (shift (t i).1 i t).1 (shift (t i).1 i t).2 (t i)

/- Insert the `count` entries from `i` on, one by one. -/
def insertFrom : Nat → Nat → (Nat → K × V) → Nat → K × V
  | 0, _, t => t
  | count + 1, i, t => insertFrom count (i + 1) (insertAt i t)

/- Sort the first `n` entries. -/
def insertionSort (n : Nat) (t : Nat → K × V) : Nat → K × V := insertFrom (n - 1) 1 t

/- The first `n` keys do not decrease. -/
def SortedBelow (n : Nat) (t : Nat → K × V) : Prop := ∀ p q, p < q → q < n → (t p).1 ≤ (t q).1

/- Entry `e` is among the first `n`. -/
def Holds (n : Nat) (t : Nat → K × V) (e : K × V) : Prop := ∃ p < n, t p = e

/- Where each entry of the table is after a shift. -/
structure ShiftSpec (k : K) (i : Nat) (t : Nat → K × V) (r : (Nat → K × V) × Nat) : Prop where
  le : r.2 ≤ i
  below : ∀ p < r.2, r.1 p = t p
  moved : ∀ p, r.2 ≤ p → p < i → r.1 (p + 1) = t p
  above : ∀ p, i < p → r.1 p = t p
  greater : ∀ p, r.2 ≤ p → p < i → k < (t p).1
  stop : ∀ p, p + 1 = r.2 → (t p).1 ≤ k

theorem shift_spec (k : K) (i : Nat) (t : Nat → K × V) : ShiftSpec k i t (shift k i t) := by
  induction i generalizing t with
  | zero => refine ⟨le_rfl, ?_, ?_, ?_, ?_, ?_⟩ <;> simp [shift]
  | succ i ih =>
  unfold shift
  split
  · rename_i hGreater
    have hSpec := ih (update t (i + 1) (t i))
    have hLow : ∀ p ≤ i, update t (i + 1) (t i) p = t p := by
      intro p hp
      exact update_of_ne (by omega) _ _
    refine ⟨by have := hSpec.le; omega, ?_, ?_, ?_, ?_, ?_⟩
    · intro p hp
      have hLe := hSpec.le
      rw [hSpec.below p hp, hLow p (by omega)]
    · intro p hFree hp
      rcases eq_or_ne p i with rfl | hLast
      · rw [hSpec.above (p + 1) (by omega), update_self]
      · rw [hSpec.moved p hFree (by omega), hLow p (by omega)]
    · intro p hp
      rw [hSpec.above p (by omega), update_of_ne (by omega)]
    · intro p hFree hp
      rcases eq_or_ne p i with rfl | hLast
      · exact hGreater
      · have hKey := hSpec.greater p hFree (by omega)
        rwa [hLow p (by omega)] at hKey
    · intro p hp
      have hLe := hSpec.le
      have hKey := hSpec.stop p hp
      rwa [hLow p (by omega)] at hKey
  · rename_i hGreater
    refine ⟨le_rfl, fun p _ => rfl, ?_, fun p _ => rfl, ?_, ?_⟩
    · omega
    · omega
    intro p hp
    have hEq : p = i := by
      omega
    subst hEq
    exact not_lt.mp hGreater

----
-- Insertion Sort
----

/-
  The inserted table, entry by entry: `j` is the place of the
  inserted entry.
-/
theorem insertAt_spec (i : Nat) (t : Nat → K × V) :
    ∃ j ≤ i, (∀ p < j, insertAt i t p = t p) ∧ insertAt i t j = t i ∧
      (∀ p, j ≤ p → p < i → insertAt i t (p + 1) = t p) ∧ (∀ p, i < p → insertAt i t p = t p) ∧
      (∀ p, j ≤ p → p < i → (t i).1 < (t p).1) ∧ (∀ p, p + 1 = j → (t p).1 ≤ (t i).1) := by
  have hSpec := shift_spec (t i).1 i t
  refine ⟨(shift (t i).1 i t).2, hSpec.le, ?_, ?_, ?_, ?_, hSpec.greater, hSpec.stop⟩
  · intro p hp
    rw [insertAt, update_of_ne (by omega), hSpec.below p hp]
  · rw [insertAt, update_self]
  · intro p hFree hp
    rw [insertAt, update_of_ne (by omega), hSpec.moved p hFree hp]
  · intro p hp
    have hLe := hSpec.le
    rw [insertAt, update_of_ne (by omega), hSpec.above p hp]

theorem SortedBelow.insertAt (hSorted : SortedBelow i t) : SortedBelow (i + 1) (insertAt i t) := by
  rcases insertAt_spec i t with ⟨j, hj, hBelow, hAt, hMoved, _, hGreater, hStop⟩
  -- Everything before the free place is at most the new key.
  have hSmall : ∀ p < j, (t p).1 ≤ (t i).1 := by
    intro p hp
    have hLast := hStop (j - 1) (by omega)
    by_cases hEq : p = j - 1
    · rwa [hEq]
    · exact le_trans (hSorted p (j - 1) (by omega) (by omega)) hLast
  -- Each place after it holds the entry one place below.
  have hShifted : ∀ q, j < q → q < i + 1 → PairTable.insertAt i t q = t (q - 1) := by
    intro q hjq hq
    have hEq := hMoved (q - 1) (by omega) (by omega)
    rwa [Nat.sub_add_cancel (by omega)] at hEq
  intro p q hpq hq
  rcases lt_trichotomy q j with hqj | hqj | hqj
  · rw [hBelow p (by omega), hBelow q hqj]
    exact hSorted p q hpq (by omega)
  · rw [hBelow p (by omega), hqj, hAt]
    exact hSmall p (by omega)
  rw [hShifted q hqj hq]
  rcases lt_trichotomy p j with hpj | hpj | hpj
  · rw [hBelow p hpj]
    by_cases hEq : p = q - 1
    · omega
    · exact hSorted p (q - 1) (by omega) (by omega)
  · rw [hpj, hAt]
    exact le_of_lt (hGreater (q - 1) (by omega) (by omega))
  · rw [hShifted p hpj (by omega)]
    exact hSorted (p - 1) (q - 1) (by omega) (by omega)

theorem holds_insertAt_iff (hi : i < n) (t : Nat → K × V)
    (e : K × V) : Holds n (insertAt i t) e ↔ Holds n t e := by
  rcases insertAt_spec i t with ⟨j, hj, hBelow, hAt, hMoved, hAbove, _, _⟩
  constructor
  · rintro ⟨p, hp, hEq⟩
    rcases lt_trichotomy p j with hpj | hpj | hpj
    · exact ⟨p, hp, by rw [← hEq, hBelow p hpj]⟩
    · subst hpj
      exact ⟨i, hi, by rw [← hEq, hAt]⟩
    by_cases hpi : i < p
    · exact ⟨p, hp, by rw [← hEq, hAbove p hpi]⟩
    refine ⟨p - 1, by omega, ?_⟩
    have hFrom := hMoved (p - 1) (by omega) (by omega)
    rw [Nat.sub_add_cancel (by omega)] at hFrom
    rw [← hEq, hFrom]
  · rintro ⟨p, hp, hEq⟩
    by_cases hpj : p < j
    · exact ⟨p, hp, by rw [hBelow p hpj, hEq]⟩
    rcases lt_trichotomy p i with hpi | hpi | hpi
    · refine ⟨p + 1, by omega, ?_⟩
      rw [hMoved p (by omega) hpi, hEq]
    · subst hpi
      exact ⟨j, by omega, by rw [hAt, hEq]⟩
    · exact ⟨p, hp, by rw [hAbove p hpi, hEq]⟩

theorem insertFrom_spec (count i : Nat) (t : Nat → K × V) (hSorted : SortedBelow i t) :
    SortedBelow (i + count) (insertFrom count i t) ∧
      ∀ e, Holds (i + count) (insertFrom count i t) e ↔ Holds (i + count) t e := by
  induction count generalizing i t with
  | zero => exact ⟨hSorted, fun e => Iff.rfl⟩
  | succ count ih =>
  rcases ih (i + 1) (insertAt i t) hSorted.insertAt with ⟨hAll, hSame⟩
  have hEq : i + 1 + count = i + (count + 1) := by
    omega
  rw [hEq] at hAll hSame
  refine ⟨hAll, ?_⟩
  intro e
  rw [insertFrom, hSame e]
  exact holds_insertAt_iff (by omega) t e

/- Sorting orders the table and keeps its entries. -/
theorem insertionSort_spec (n : Nat) (t : Nat → K × V) :
    SortedBelow n (insertionSort n t) ∧ ∀ e, Holds n (insertionSort n t) e ↔ Holds n t e := by
  cases n with
  | zero =>
    refine ⟨fun p q _ hq => absurd hq (by omega), ?_⟩
    intro e
    exact Iff.rfl
  | succ n =>
  have hOne : SortedBelow 1 t := by
    intro p q hpq hq
    omega
  have hSpec := insertFrom_spec n 1 t hOne
  rw [Nat.add_comm 1 n] at hSpec
  exact hSpec

----
-- Bisection
----

/- The index of `key` between `lo` and `hi`. -/
def search (t : Nat → K × V) (key : K) : Nat → Nat → Nat → Option Nat
  | 0, _, _ => none
  | fuel + 1, lo, hi =>
    if lo < hi then
      if (t (lo + (hi - lo) / 2)).1 = key then some (lo + (hi - lo) / 2)
      else if (t (lo + (hi - lo) / 2)).1 < key then search t key fuel (lo + (hi - lo) / 2 + 1) hi
      else search t key fuel lo (lo + (hi - lo) / 2)
    else none

/- The value stored under `key` in the first `n` entries. -/
def lookup (n : Nat) (t : Nat → K × V) (key : K) : Option V :=
  (search t key n 0 n).map fun p => (t p).2

theorem search_some (t : Nat → K × V) (key : K) (fuel lo hi p : Nat)
    (hFound : search t key fuel lo hi = some p) : p < hi ∧ (t p).1 = key := by
  induction fuel generalizing lo hi with
  | zero => simp [search] at hFound
  | succ _ ih =>
  unfold search at hFound
  split at hFound
  · split at hFound
    · rename_i hOpen hEq
      simp only [Option.some.injEq] at hFound
      subst hFound
      exact ⟨by omega, hEq⟩
    · split at hFound
      · exact ih _ _ hFound
      · rcases ih _ _ hFound with ⟨hLt, hKey⟩
        exact ⟨by omega, hKey⟩
  · simp at hFound

/-
  An unsuccessful search has excluded every entry: the keys
  outside the remaining interval are on the wrong side.
-/
theorem search_none (hSorted : SortedBelow n t)
    (key : K) (fuel lo hi : Nat) (hHi : hi ≤ n) (hFuel : hi - lo ≤ fuel)
    (hLow : ∀ p < lo, p < n → (t p).1 < key) (hHigh : ∀ p, hi ≤ p → p < n → key < (t p).1)
    (hNone : search t key fuel lo hi = none) : ∀ p < n, (t p).1 ≠ key := by
  induction fuel generalizing lo hi with
  | zero =>
    intro p hp
    by_cases hpl : p < lo
    · exact (hLow p hpl hp).ne
    · exact (hHigh p (by omega) hp).ne'
  | succ _ ih =>
  unfold search at hNone
  by_cases hOpen : lo < hi
  · rw [if_pos hOpen] at hNone
    split at hNone
    · simp at hNone
    rename_i hNe
    split at hNone
    · rename_i hLess
      refine ih _ _ hHi (by omega) ?_ hHigh hNone
      intro p hp hpn
      by_cases hEq : p = lo + (hi - lo) / 2
      · rwa [hEq]
      · exact lt_of_le_of_lt (hSorted p _ (by omega) (by omega)) hLess
    · rename_i hMore
      have hGreater := lt_of_le_of_ne (not_lt.mp hMore) (Ne.symm hNe)
      refine ih _ _ (by omega) (by omega) hLow ?_ hNone
      intro p hp hpn
      by_cases hEq : p = lo + (hi - lo) / 2
      · rwa [hEq]
      · exact lt_of_lt_of_le hGreater (hSorted _ p (by omega) hpn)
  · intro p hp
    by_cases hpl : p < lo
    · exact (hLow p hpl hp).ne
    · exact (hHigh p (by omega) hp).ne'

/- Each key stands with one value. -/
def Functional (n : Nat) (t : Nat → K × V) : Prop :=
  ∀ k v v', Holds n t (k, v) → Holds n t (k, v') → v = v'

theorem lookup_eq_some_iff (hSorted : SortedBelow n t) (hFunctional : Functional n t)
    (key : K) (v : V) : lookup n t key = some v ↔ Holds n t (key, v) := by
  constructor
  · intro hFound
    rcases Option.map_eq_some_iff.mp hFound with ⟨p, hSearch, rfl⟩
    rcases search_some t key n 0 n p hSearch with ⟨hp, hKey⟩
    exact ⟨p, hp, by rw [← hKey]⟩
  rintro ⟨p, hp, hEntry⟩
  cases hSearch : search t key n 0 n with
  | none =>
    have hAbsent := search_none hSorted key n 0 n le_rfl (by omega) (by omega) (by omega) hSearch
    exact absurd (by rw [hEntry]) (hAbsent p hp)
  | some q =>
  rcases search_some t key n 0 n q hSearch with ⟨hq, hKey⟩
  have hSame := hFunctional key (t q).2 v ⟨q, hq, by rw [← hKey]⟩ ⟨p, hp, hEntry⟩
  simp [lookup, hSearch, hSame]

/-
  Follow `find` from `parent` until it reaches `stop`, leaves
  the table, or has taken more than `bound` steps. The result
  is where the climb ended and the step counter.
-/
def climb (find : K → Option K) (stop : K) (bound : Nat) : Nat → K → Nat → K × Nat
  | 0, parent, steps => (parent, steps)
  | fuel + 1, parent, steps =>
    if parent ≠ stop ∧ steps ≤ bound then
      match find parent with
      | some next => climb find stop bound fuel next (steps + 1)
      | none => (parent, steps)
    else (parent, steps)

/- The keys of a table that are at most `k`. -/
def keysUpTo (keys : Finset K) (k : K) : Finset K := keys.filter fun x => x ≤ k

theorem card_keysUpTo_lt {keys : Finset K} {k k' : K} (hKey : k ∈ keys) (hLess : k' < k) :
    (keysUpTo keys k').card < (keysUpTo keys k).card := by
  apply Finset.card_lt_card
  refine Finset.ssubset_iff_subset_ne.mpr ⟨?_, ?_⟩
  · intro x hx
    simp only [keysUpTo, Finset.mem_filter] at hx ⊢
    exact ⟨hx.1, le_trans hx.2 hLess.le⟩
  intro hSame
  have hIn : k ∈ keysUpTo keys k := by
    simp [keysUpTo, hKey]
  rw [← hSame] at hIn
  simp only [keysUpTo, Finset.mem_filter] at hIn
  exact absurd hIn.2 (not_le.mpr hLess)

/-
  When `find` goes down strictly and only from `keys`, the
  bound is never exceeded: each step leaves at least one key
  behind. The climb then ends at `stop` or outside the table.
-/
theorem climb_spec (find : K → Option K) (stop : K) (bound : Nat) (keys : Finset K)
    (hDown : ∀ k k', find k = some k' → k ∈ keys ∧ k' < k)
    (fuel : Nat) (parent : K) (steps : Nat) (hFuel : bound < steps + fuel)
    (hLeft : steps + (keysUpTo keys parent).card ≤ bound) : ∃ top last,
      climb find stop bound fuel parent steps = (top, last) ∧ last ≤ bound ∧
      Relation.ReflTransGen (fun k k' => k ≠ stop ∧ find k = some k') parent top ∧
      (top = stop ∨ find top = none) := by
  induction fuel generalizing parent steps with
  | zero => omega
  | succ _ ih =>
  unfold climb
  by_cases hStop : parent = stop
  · refine ⟨parent, steps, ?_, by omega, Relation.ReflTransGen.refl, .inl hStop⟩
    rw [if_neg (fun hGo => hGo.1 hStop)]
  rw [if_pos ⟨hStop, by omega⟩]
  cases hFind : find parent with
  | none => exact ⟨parent, steps, rfl, by omega, Relation.ReflTransGen.refl, .inr hFind⟩
  | some next =>
  rcases hDown parent next hFind with ⟨hKey, hLess⟩
  have hFewer := card_keysUpTo_lt hKey hLess
  rcases ih next (steps + 1) (by omega) (by omega) with ⟨top, last, hEq, hLast, hReach, hEnd⟩
  exact ⟨top, last, hEq, hLast, Relation.ReflTransGen.head ⟨hStop, hFind⟩ hReach, hEnd⟩

end PairTable

end Lib

end Horus
