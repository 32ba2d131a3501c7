import Mathlib.Data.List.Perm.Basic
import Mathlib.Data.List.Nodup
import Mathlib.Logic.Function.Basic

/-
  Finite tables.

  A table is a list of keys and values in which the first
  entry of a key counts. What is said about all the values of
  a table, such as how many name one thing, changes with one
  update by exactly the value put in and the value it
  replaces.
-/

namespace Horus.Lib

open Function

section Tables

variable {κ α β : Type} [DecidableEq κ]

abbrev Table (κ α : Type) : Type := List (κ × α)

def Table.get (t : Table κ α) (k : κ) : Option α :=
  match t with
  | [] => none
  | (k', v) :: rest => if k' = k then some v else Table.get rest k

def Table.set (t : Table κ α) (k : κ) (v : α) : Table κ α :=
  match t with
  | [] => [(k, v)]
  | (k', v') :: rest => if k' = k then (k, v) :: rest else (k', v') :: Table.set rest k v

def Table.values (t : Table κ α) : List α := t.map Prod.snd

variable {t : Table κ α} {k k' : κ} {v v' : α}

@[simp] theorem Table.get_set_self (t : Table κ α) (k : κ) (v : α) :
    (t.set k v).get k = some v := by
  induction t with
  | nil => simp [Table.set, Table.get]
  | cons e _ ih =>
    obtain ⟨k₀, v₀⟩ := e
    by_cases hKey : k₀ = k
    · simp [Table.set, Table.get, hKey]
    · simp [Table.set, Table.get, hKey, ih]

theorem Table.get_set_other (hNe : k' ≠ k) : (t.set k v).get k' = t.get k' := by
  induction t with
  | nil => simp [Table.set, Table.get, hNe.symm]
  | cons e _ ih =>
  obtain ⟨k₀, v₀⟩ := e
  rcases eq_or_ne k₀ k with rfl | hKey
  · simp [Table.set, Table.get, hNe.symm]
  · simp only [Table.set, if_neg hKey, Table.get, ih]

theorem Table.get_eq_none (hNot : k ∉ t.map Prod.fst) : t.get k = none := by
  induction t with
  | nil => rfl
  | cons e _ ih =>
    rw [List.map_cons, List.mem_cons, not_or] at hNot
    rw [Table.get, if_neg (Ne.symm hNot.1)]
    exact ih hNot.2

theorem Table.mem_values_of_get (hGet : t.get k = some v) : v ∈ t.values := by
  induction t with
  | nil => simp [Table.get] at hGet
  | cons e _ ih =>
  obtain ⟨k₀, v₀⟩ := e
  by_cases hKey : k₀ = k
  · rw [Table.get, if_pos hKey] at hGet
    cases hGet
    exact List.mem_cons_self
  · rw [Table.get, if_neg hKey] at hGet
    exact List.mem_cons_of_mem _ (ih hGet)

/- One value is replaced and the others stay. -/
theorem Table.values_replace (hGet : t.get k = some v) :
    ∃ rest : List α, t.values.Perm (v :: rest) ∧ ∀ w, (t.set k w).values.Perm (w :: rest) := by
  induction t with
  | nil => simp [Table.get] at hGet
  | cons e tail ih =>
  obtain ⟨k₀, v₀⟩ := e
  by_cases hKey : k₀ = k
  · rw [Table.get, if_pos hKey] at hGet
    cases hGet
    refine ⟨Table.values tail, List.Perm.refl _, ?_⟩
    intro w
    rw [Table.set, if_pos hKey]
    exact List.Perm.refl _
  · rw [Table.get, if_neg hKey] at hGet
    obtain ⟨rest, hOld, hNew⟩ := ih hGet
    refine ⟨v₀ :: rest, ?_, ?_⟩
    · exact (hOld.cons v₀).trans (List.Perm.swap _ _ _)
    · intro w
      rw [Table.set, if_neg hKey]
      exact ((hNew w).cons v₀).trans (List.Perm.swap _ _ _)

theorem Table.values_new (hGet : t.get k = none) (w : α) :
    (t.set k w).values.Perm (w :: t.values) := by
  induction t with
  | nil => exact List.Perm.refl _
  | cons e _ ih =>
  obtain ⟨k₀, v₀⟩ := e
  by_cases hKey : k₀ = k
  · simp [Table.get, hKey] at hGet
  · rw [Table.get, if_neg hKey] at hGet
    rw [Table.set, if_neg hKey]
    exact ((ih hGet).cons v₀).trans (List.Perm.swap _ _ _)

/- The other values of a function at a list of arguments. -/
theorem filterMap_update {l : List κ} (hNodup : l.Nodup) (hMem : k ∈ l)
    (f : κ → Option β) (b : Option β) : (l.filterMap (update f k b)).Perm
      (b.toList ++ (l.erase k).filterMap f) := by
  have hSplit := List.perm_cons_erase hMem
  have hRest : (l.erase k).filterMap (update f k b) = (l.erase k).filterMap f := by
    refine List.filterMap_congr ?_
    intro x hIn
    have hNe : x ≠ k := by
      intro hEq
      subst hEq
      exact (List.Nodup.not_mem_erase hNodup) hIn
    rw [update_of_ne hNe]
  have hAll := hSplit.filterMap (update f k b)
  refine hAll.trans ?_
  rw [List.filterMap_cons, hRest, update_self]
  cases b with
  | none | some => exact List.Perm.refl _

end Tables

end Horus.Lib
