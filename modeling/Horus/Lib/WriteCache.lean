import Mathlib.Logic.Function.Basic
import Mathlib.Data.List.Nodup

/-
  A block device with a volatile write cache.

  A write is held back until a flush. At a crash each write
  held back has reached the medium or not, independently of
  the others.
-/

namespace Horus.Lib

open Function

section Writes

variable {β : Type}

/- The writes in their order, the later ones over the earlier. -/
def writeAll (m : Nat → β) : List (Nat × β) → Nat → β
  | [] => m
  | w :: ws => writeAll (update m w.1 w.2) ws

theorem writeAll_append (m : Nat → β) (ws ws' : List (Nat × β)) :
    writeAll m (ws ++ ws') = writeAll (writeAll m ws) ws' := by
  induction ws generalizing m with
  | nil => rfl
  | cons w _ ih => exact ih (update m w.1 w.2)

/- A block keeps its content or has the content of a write. -/
theorem writeAll_cases (m : Nat → β) (ws : List (Nat × β)) (b : Nat) :
    ((∀ w ∈ ws, w.1 ≠ b) ∧ writeAll m ws b = m b) ∨ (b, writeAll m ws b) ∈ ws := by
  induction ws generalizing m with
  | nil => exact .inl ⟨fun w hMem => absurd hMem (by simp), rfl⟩
  | cons w ws ih =>
  rcases ih (update m w.1 w.2) with ⟨hNone, hEq⟩ | hMem
  · by_cases hBlock : w.1 = b
    · right
      have hValue : writeAll m (w :: ws) b = w.2 := by
        rw [← hBlock] at hEq ⊢
        exact hEq.trans (update_self ..)
      rw [hValue, ← hBlock]
      exact List.mem_cons_self
    · left
      refine ⟨?_, ?_⟩
      · intro w' hMem
        rcases List.mem_cons.mp hMem with rfl | hTail
        · exact hBlock
        · exact hNone w' hTail
      · exact hEq.trans (update_of_ne (Ne.symm hBlock) ..)
  · exact .inr (List.mem_cons_of_mem w hMem)

theorem writeAll_of_ne {m : Nat → β} {ws : List (Nat × β)} {b : Nat}
    (hNone : ∀ w ∈ ws, w.1 ≠ b) : writeAll m ws b = m b := by
  rcases writeAll_cases m ws b with ⟨_, hEq⟩ | hMem
  · exact hEq
  · exact absurd rfl (hNone _ hMem)

/- Two media that agree wherever the list does not write. -/
theorem writeAll_congr {m m' : Nat → β} (ws : List (Nat × β)) {b : Nat}
    (hAgree : (∀ w ∈ ws, w.1 ≠ b) → m b = m' b) : writeAll m ws b = writeAll m' ws b := by
  induction ws generalizing m m' with
  | nil => exact hAgree fun w hMem => absurd hMem (by simp)
  | cons w _ ih =>
  apply ih
  intro hNone
  by_cases hBlock : w.1 = b
  · rw [← hBlock, update_self, update_self]
  rw [update_of_ne (Ne.symm hBlock), update_of_ne (Ne.symm hBlock)]
  apply hAgree
  intro w' hMem
  rcases List.mem_cons.mp hMem with rfl | hTail
  · exact hBlock
  · exact hNone w' hTail

end Writes

/- What is on the medium, and the writes not yet flushed. -/
structure WriteCache (β : Type) where
  medium : Nat → β
  pending : List (Nat × β)

namespace WriteCache

variable {β : Type}

def read (d : WriteCache β) : Nat → β := writeAll d.medium d.pending

def write (d : WriteCache β) (b : Nat) (v : β) : WriteCache β :=
  { d with pending := d.pending ++ [(b, v)] }

def flush (d : WriteCache β) : WriteCache β := { medium := d.read, pending := [] }

/- The writes of `landed` reached the medium. -/
def crash (d : WriteCache β) (landed : List (Nat × β)) : WriteCache β :=
  { medium := writeAll d.medium landed, pending := [] }

/- The contents block `b` may be found with after a crash. -/
def May (d : WriteCache β) (b : Nat) (v : β) : Prop := v = d.medium b ∨ (b, v) ∈ d.pending

variable {d : WriteCache β}

@[simp] theorem read_write (b : Nat) (v : β) : (d.write b v).read = update d.read b v :=
  writeAll_append _ _ _

theorem may_read (b : Nat) : d.May b (d.read b) := by
  rcases writeAll_cases d.medium d.pending b with ⟨_, hEq⟩ | hMem
  · exact .inl hEq
  · exact .inr hMem

theorem may_write {b b' : Nat} {v v' : β} : (d.write b v).May b' v' ↔
      d.May b' v' ∨ (b' = b ∧ v' = v) := by
  simp [May, write, or_assoc]

theorem may_flush {b : Nat} {v : β} : d.flush.May b v ↔ v = d.read b := by
  simp [May, flush]

/- A crash leaves a content the block might have had. -/
theorem may_crash {landed : List (Nat × β)} (hLanded : landed.Sublist d.pending) {b : Nat} {v : β}
    (hMay : (d.crash landed).May b v) : d.May b v := by
  have hValue : v = writeAll d.medium landed b := by
    simpa [May, crash] using hMay
  rcases writeAll_cases d.medium landed b with ⟨_, hEq⟩ | hMem
  · exact .inl (hValue.trans hEq)
  · rw [← hValue] at hMem
    exact .inr (hLanded.subset hMem)

end WriteCache

end Horus.Lib
