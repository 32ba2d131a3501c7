import Horus.Capability.Revoke

/-
  Correctness of revocation: the passes and the sweep empty
  exactly the subtree of the revoked capability, in every
  slot of the array of spaces, and touch nothing else.

  The subtree is stated on the records as they were at entry,
  through the chain of badges, so it does not mention marks,
  passes or the order of the slots.
-/

namespace Horus

open Capability
open SlotRef
open Function
open Relation

/- The record can be found through its badge. -/
def Linked (c : Capability) : Prop := c.typ ≠ .null ∧ c.serial ≠ 0 ∧ c.badge ≠ 0

instance (c : Capability) : Decidable (Linked c) := by
  unfold Linked
  infer_instance

/- A record in `S` has serial `k` and badge `k'`. -/
def Up (mem : CapMem) (S : Addr → Prop) (k k' : Nat) : Prop :=
  ∃ a, S a ∧ Linked (mem a) ∧ (mem a).serial = k ∧ (mem a).badge = k'

/- The chain of badges from `a`, through `S`, meets `root`. -/
def Below (mem : CapMem) (S : Addr → Prop) (root : Nat) (a : Addr) : Prop :=
  S a ∧ Linked (mem a) ∧ ReflTransGen (Up mem S) (mem a).badge root

/- No record in `S` carries a sentinel type. -/
def NoMarks (mem : CapMem) (S : Addr → Prop) : Prop :=
  ∀ a, S a → (mem a).typ ≠ .markNew ∧ (mem a).typ ≠ .markDone

/-
  A chain to `root` needs no link out of `root`: it can stop
  at its first visit.
-/
theorem reaches_of_agree_off_root {mem mem' : CapMem} {S : Addr → Prop} {k root : Nat}
    (hAgree : ∀ a, S a → (mem a).serial ≠ root → mem' a = mem a)
    (hReach : ReflTransGen (Up mem S) k root) : ReflTransGen (Up mem' S) k root := by
  induction hReach using ReflTransGen.head_induction_on with
  | refl => exact ReflTransGen.refl
  | @head x y hStep _ ih =>
  by_cases hRoot : x = root
  · rw [hRoot]
  rcases hStep with ⟨a, hS, hLinked, rfl, rfl⟩
  have hSame := hAgree a hS hRoot
  exact ReflTransGen.head ⟨a, hS, by rwa [hSame], by rw [hSame], by rw [hSame]⟩ ih

----
-- The Loops as Marking
----

/- Marks are kept in the type of a capability. -/
def capMarking : Lib.Marking Capability Nat where
  key c := c.serial
  up c := c.badge
  linked c := decide (Linked c)
  isNew c := decide (c.typ = .markNew)
  isDone c := decide (c.typ = .markDone)
  setNew c := { c with typ := .markNew }
  setDone c := { c with typ := .markDone }
  key_setNew := by intro c; rfl
  isNew_setNew := by intro c; simp
  isDone_setNew := by intro c; simp
  isNew_setDone := by intro c; simp
  isDone_setDone := by intro c; simp

theorem capMarking_marked (c : Capability) :
    capMarking.marked c = (decide (c.typ = .markNew) || decide (c.typ = .markDone)) := rfl

@[simp] theorem markLoop_mem (p : Nat) (refs : List SlotRef) (w : Sweep) :
    (markLoop p refs w).mem = capMarking.markKids (refs.map addr) p
        w.mem := by
  induction refs generalizing w with
  | nil => rfl
  | cons ref _ ih =>
  unfold markLoop
  simp only [List.map_cons, Lib.Marking.markKids, Lib.updateWhere, capMarking_marked]
  simp only [Lib.Marking.markKids, capMarking_marked] at ih
  by_cases hOut : (w.mem ref.addr).typ = .null ∨ (w.mem ref.addr).typ = .markNew ∨
        (w.mem ref.addr).typ = .markDone
  · rw [if_pos hOut, ih]
    rcases hOut with hOut | hOut | hOut <;> simp [capMarking, Linked, hOut]
  rw [if_neg hOut]
  push Not at hOut
  rcases hOut with ⟨hNull, hNew, hDone⟩
  by_cases hRoot : (w.mem ref.addr).serial = 0 ∨ (w.mem ref.addr).badge = 0
  · rw [if_pos hRoot, ih]
    rcases hRoot with hRoot | hRoot <;> simp [capMarking, Linked, hRoot]
  rw [if_neg hRoot]
  push Not at hRoot
  by_cases hChild : (w.mem ref.addr).badge = p
  · rw [if_pos hChild, ih, if_pos]
    · rfl
    · simp [capMarking, Linked, hNull, hNew, hDone, hRoot.1, hChild, hChild ▸ hRoot.2]
  · rw [if_neg hChild, ih]
    simp [capMarking, hChild]

/- No record has badge 0 and a parent. -/
theorem markKids_zero (cells : List Addr) (mem : CapMem) :
    capMarking.markKids cells 0 mem = mem := by
  funext a
  rw [Lib.Marking.markKids_apply, if_neg]
  rintro ⟨_, _, hLinked, hUp⟩
  simp only [capMarking, decide_eq_true_eq] at hLinked hUp
  exact hLinked.2.2 hUp

@[simp] theorem markChildrenOf_mem (refs : List SlotRef) (p : Nat) (w : Sweep) :
    (markChildrenOf refs p w).mem = capMarking.markKids (refs.map addr) p
        w.mem := by
  unfold markChildrenOf
  split
  · rename_i hZero
    rw [hZero, markKids_zero]
  · exact markLoop_mem p refs w

theorem promoteLoop_eq_pass (refs rest : List SlotRef) (w : Sweep) (progress : Bool) :
    ((promoteLoop refs rest w progress).1.mem, (promoteLoop refs rest w progress).2) =
      capMarking.pass (refs.map addr) (rest.map addr) w.mem progress := by
  induction rest generalizing w progress with
  | nil => rfl
  | cons ref _ ih =>
  unfold promoteLoop
  simp only [List.map_cons, Lib.Marking.pass]
  by_cases hNew : (w.mem ref.addr).typ = .markNew
  · have hMark : capMarking.isNew (w.mem ref.addr) = true := by
      simp [capMarking, hNew]
    simp only [hNew, if_true]
    rw [ih]
    split
    · rename_i hZero
      have hKey : capMarking.key (w.mem ref.addr) = 0 := hZero
      rw [hKey, markKids_zero]
      rfl
    · rw [markChildrenOf_mem]
      rfl
  · have hMark : ¬ capMarking.isNew (w.mem ref.addr) = true := by
      simp [capMarking, hNew]
    rw [if_neg hMark]
    simp only [hNew, if_false]
    exact ih w progress

@[simp] theorem promotePasses_mem (refs : List SlotRef) (fuel : Nat) (w : Sweep) :
    (promotePasses refs fuel w).mem = capMarking.passes (refs.map addr) fuel
        w.mem := by
  induction fuel generalizing w with
  | zero => rfl
  | succ _ ih =>
  have hPass := promoteLoop_eq_pass refs refs w false
  have hMem := congrArg Prod.fst hPass
  have hFlag := congrArg Prod.snd hPass
  simp only at hMem hFlag
  unfold promotePasses Lib.Marking.passes
  rw [hFlag]
  split
  · rw [ih, hMem]
  · exact hMem

theorem sweepLoop_mem (rs ro : Nat) (refs : List SlotRef) (w : Sweep) :
    (sweepLoop rs ro refs w).mem = Lib.updateWhere
        (fun c => decide (c.typ ≠ .null) && sweepHit rs ro c)
        (fun _ => nullify)
        (refs.map addr) w.mem := by
  induction refs generalizing w with
  | nil => rfl
  | cons ref _ ih =>
  unfold sweepLoop
  simp only [List.map_cons, Lib.updateWhere]
  by_cases hNull : (w.mem ref.addr).typ = .null
  · rw [if_pos hNull, ih, if_neg (by simp [hNull])]
  rw [if_neg hNull]
  by_cases hHit : sweepHit rs ro (w.mem ref.addr)
  · rw [if_pos hHit, ih, if_pos (by simp [hNull, hHit])]
  · rw [if_neg hHit, ih, if_neg (by simp [hHit])]

----
-- Exactness of the Subtree
----

theorem capMarking_up (cells : List Addr) (mem : CapMem) :
    capMarking.Up cells mem = Up mem (· ∈ cells) := by
  funext k k'
  simp [Lib.Marking.Up, Up, capMarking]

theorem capMarking_below (cells : List Addr) (mem : CapMem) (root : Nat) (a : Addr) :
    capMarking.Below cells mem root a ↔ Below mem (· ∈ cells) root a := by
  unfold Lib.Marking.Below Below
  rw [capMarking_up]
  simp [capMarking]

/-
  What a revocation removes from the slots of `S`: with a
  serial to go by, the subtree and whatever shares the serial;
  without one, whatever names the object.
-/
def Revoked (mem : CapMem) (S : Addr → Prop) (rootSerial rootObject : Nat) (a : Addr) : Prop :=
  S a ∧ (mem a).typ ≠ .null ∧ ((rootSerial ≠ 0 ∧ (Below mem S rootSerial a ∨
          (mem a).serial = rootSerial)) ∨
      (rootSerial = 0 ∧ rootObject ≠ 0 ∧ (mem a).object = rootObject))

/- The records after marking and before the sweep. -/
theorem marked_mem (refs : List SlotRef) (root : Nat) (w : Sweep)
    (hMarks : NoMarks w.mem (· ∈ refs.map addr)) (a : Addr) :
    (Below w.mem (· ∈ refs.map addr) root a → (promotePasses refs (refs.length + 1)
        (markChildrenOf refs root w)).mem a = { w.mem a with typ := .markDone }) ∧
    (¬ Below w.mem (· ∈ refs.map addr) root a → (promotePasses refs (refs.length + 1)
        (markChildrenOf refs root w)).mem a = w.mem a) := by
  have hUnmarked : capMarking.Unmarked (refs.map addr)
        w.mem := by
    intro b hb
    simp [capMarking_marked, (hMarks b hb).1, (hMarks b hb).2]
  rw [promotePasses_mem, markChildrenOf_mem, ← capMarking_below]
  exact Lib.Marking.passes_apply hUnmarked (refs.length + 1) (by simp) a

theorem sweepLoop_mem_apply (rs ro : Nat) (refs : List SlotRef) (w : Sweep) (a : Addr) :
    (sweepLoop rs ro refs w).mem a = if a ∈ refs.map addr ∧
          (w.mem a).typ ≠ .null ∧ sweepHit rs ro (w.mem a)
      then nullify else w.mem a := by
  rw [sweepLoop_mem, Lib.updateWhere_apply]
  · simp
  · intro _ _ _
    rfl

theorem revokeSubtree_mem (spaces : List CSpaceDesc) (rs ro : Nat) (w : Sweep)
    (hMarks : NoMarks w.mem (· ∈ slotAddrs spaces)) (a : Addr) :
    (Revoked w.mem (· ∈ slotAddrs spaces) rs ro a →
      (revokeSubtree spaces rs ro w).mem a = nullify) ∧
    (¬ Revoked w.mem (· ∈ slotAddrs spaces) rs ro a →
      (revokeSubtree spaces rs ro w).mem a = w.mem a) := by
  have hClean : a ∈ slotAddrs spaces → sweepHit rs ro (w.mem a) = ((decide (rs ≠ 0) &&
              decide ((w.mem a).serial = rs)) ||
            (decide (rs = 0) && decide (ro ≠ 0) && decide ((w.mem a).object = ro))) := by
    intro hMem
    simp [sweepHit, (hMarks a hMem).1, (hMarks a hMem).2]
  unfold revokeSubtree
  simp only [sweepLoop_mem_apply]
  split
  · rename_i hObject
    constructor
    · rintro ⟨hMem, hNull, ⟨hNot, _⟩ | ⟨_, hRo, hEq⟩⟩
      · exact absurd hObject hNot
      rw [if_pos]
      refine ⟨hMem, hNull, ?_⟩
      rw [hClean hMem]
      simp [hObject, hRo, hEq]
    · intro hNot
      rw [if_neg]
      rintro ⟨hMem, hNull, hHit⟩
      rw [hClean hMem] at hHit
      simp only [hObject, ne_eq, not_true_eq_false, decide_false, Bool.false_and, decide_true,
        Bool.true_and, Bool.false_or, Bool.and_eq_true,
        decide_eq_true_eq] at hHit
      exact hNot ⟨hMem, hNull, .inr ⟨hObject, hHit.1, hHit.2⟩⟩
  · rename_i hObject
    rcases marked_mem (slotRefs spaces) rs w hMarks a with ⟨hIn, hOut⟩
    by_cases hBelow : Below w.mem (· ∈ slotAddrs spaces) rs a
    · rw [hIn hBelow]
      constructor
      · intro _
        rw [if_pos]
        exact ⟨hBelow.1, by simp, by simp [sweepHit]⟩
      · intro hNot
        exact absurd ⟨hBelow.1, hBelow.2.1.1, .inl ⟨hObject, .inl hBelow⟩⟩ hNot
    · rw [hOut hBelow]
      constructor
      · rintro ⟨hMem, hNull, ⟨_, hB | hSerial⟩ | ⟨hZ, _⟩⟩
        · exact absurd hB hBelow
        · rw [if_pos]
          refine ⟨hMem, hNull, ?_⟩
          simp [hClean hMem, hObject, hSerial]
        · exact absurd hZ hObject
      · intro hNot
        rw [if_neg]
        rintro ⟨hMem, hNull, hHit⟩
        rw [hClean hMem] at hHit
        simp only [ne_eq, hObject, not_false_eq_true, decide_true, Bool.true_and, decide_false,
          Bool.false_and, Bool.or_false,
          decide_eq_true_eq] at hHit
        exact hNot ⟨hMem, hNull, .inl ⟨hObject, .inr hHit⟩⟩

----
-- Exactness of a Revocation
----

/-
  Nullifying the target first does not hide its subtree: a
  chain that reaches the target's serial needs no link out of
  the target.
-/
theorem below_update_target {mem : CapMem} {S : Addr → Prop} {target a : Addr} (hNe : a ≠ target) :
    Below (update mem target nullify) S (mem target).serial a ↔
      Below mem S (mem target).serial a := by
  have hHere : update mem target nullify a = mem a := update_of_ne hNe _ _
  unfold Below
  rw [hHere]
  refine and_congr_right fun _ => and_congr_right fun _ => ?_
  constructor
  · intro hReach
    refine ReflTransGen.mono ?_ _ _ hReach
    rintro k k' ⟨b, hS, hLinked, hSerial, hBadge⟩
    rcases eq_or_ne b target with rfl | hb
    · rw [update_self] at hLinked
      exact absurd rfl hLinked.1
    · rw [update_of_ne hb] at hLinked hSerial hBadge
      exact ⟨b, hS, hLinked, hSerial, hBadge⟩
  · apply reaches_of_agree_off_root
    intro b _ hRoot
    refine update_of_ne ?_ _ _
    rintro rfl
    exact hRoot rfl

/-
  What `rust_cap_revoke_global` empties, in terms of the
  records at entry.
-/
def Emptied (mem : CapMem) (S : Addr → Prop) (target a : Addr) : Prop :=
  a = target ∨ Revoked mem S (mem target).serial (mem target).object a

theorem NoMarks.update_nullify {mem : CapMem} {S : Addr → Prop}
    (hMarks : NoMarks mem S) (target : Addr) : NoMarks
      (update mem target nullify) S := by
  intro b hb
  rcases eq_or_ne b target with rfl | hEq
  · simp [nullify]
  · rw [update_of_ne hEq]
    exact hMarks b hb

/- The entry checks alone decide the return value. -/
theorem rustCapRevokeGlobal_fst_iff (space size slot : Nat) (counter : Option Nat)
    (spaces : List CSpaceDesc) (w : Sweep) :
    (rustCapRevokeGlobal space size slot counter spaces w).1 = true ↔
      slot < size ∧ slot < cnodeSize ∧ isPrimordialRoot w.mem ⟨space, slot⟩ = false := by
  unfold rustCapRevokeGlobal
  split
  · simp only [Bool.false_eq_true, false_iff]
    omega
  rename_i hBounds
  push Not at hBounds
  by_cases hRoot : isPrimordialRoot w.mem ⟨space, slot⟩
  · simp [hRoot]
  · rw [if_neg hRoot]
    dsimp only
    split <;> simp [hRoot, hBounds.1, hBounds.2]

theorem rustCapRevokeGlobal_mem (space size slot : Nat) (counter : Option Nat)
    (spaces : List CSpaceDesc) (w : Sweep) (hMarks : NoMarks w.mem (· ∈ slotAddrs spaces))
    (hTrue : (rustCapRevokeGlobal space size slot counter spaces w).1 = true) (a : Addr) :
    (Emptied w.mem (· ∈ slotAddrs spaces) ⟨space, slot⟩ a → (w.mem ⟨space, slot⟩).typ ≠ .null →
      (rustCapRevokeGlobal space size slot counter spaces w).2.mem a = nullify) ∧
    (¬ Emptied w.mem (· ∈ slotAddrs spaces) ⟨space, slot⟩ a →
      (rustCapRevokeGlobal space size slot counter spaces w).2.mem a = w.mem a) := by
  unfold rustCapRevokeGlobal at hTrue ⊢
  split
  · rename_i hBounds
    simp [hBounds] at hTrue
  split
  · rename_i hPrimordial
    simp [hPrimordial] at hTrue
  by_cases hNull : (w.mem ⟨space, slot⟩).typ = .null
  · simp [hNull]
  simp only [hNull, if_false]
  have hSub := revokeSubtree_mem spaces (w.mem ⟨space, slot⟩).serial (w.mem ⟨space, slot⟩).object
    { mem := update w.mem ⟨space, slot⟩ nullify
      capsInUse := decrementInUse counter w.capsInUse
      tally := w.tally.note (w.mem ⟨space, slot⟩) }
    (hMarks.update_nullify ⟨space, slot⟩) a
  by_cases hTarget : a = ⟨space, slot⟩
  · -- The target was nullified before the sweep.
    subst hTarget
    have hOut := hSub.2 (by
      rintro ⟨_, hTyp, _⟩
      simp [nullify] at hTyp)
    refine ⟨fun _ _ => by simpa using hOut, ?_⟩
    intro hNot
    exact absurd (.inl rfl) hNot
  · have hHere : update w.mem ⟨space, slot⟩ nullify a = w.mem a :=
      update_of_ne hTarget _ _
    have hIff : Revoked (update w.mem ⟨space, slot⟩ nullify) (· ∈ slotAddrs spaces)
            (w.mem ⟨space, slot⟩).serial
            (w.mem ⟨space, slot⟩).object a ↔
          Emptied w.mem (· ∈ slotAddrs spaces) ⟨space, slot⟩ a := by
      unfold Emptied Revoked
      rw [below_update_target hTarget]
      simp [hTarget]
    rw [← hIff]
    refine ⟨fun hIn _ => hSub.1 hIn, ?_⟩
    intro hOut
    exact (hSub.2 hOut).trans hHere

----
-- Counters
----

@[simp] theorem markLoop_capsInUse (p : Nat) (refs : List SlotRef) (w : Sweep) :
    (markLoop p refs w).capsInUse = w.capsInUse := by
  induction refs generalizing w with
  | nil => rfl
  | cons _ _ ih =>
  unfold markLoop
  dsimp only
  split
  · exact ih w
  split
  · exact ih w
  · split
    · rw [ih]
    · exact ih w

@[simp] theorem markChildrenOf_capsInUse (refs : List SlotRef) (p : Nat) (w : Sweep) :
    (markChildrenOf refs p w).capsInUse = w.capsInUse := by
  unfold markChildrenOf
  split
  · rfl
  · exact markLoop_capsInUse p refs w

@[simp] theorem promoteLoop_capsInUse (refs rest : List SlotRef) (w : Sweep) (progress : Bool) :
    (promoteLoop refs rest w progress).1.capsInUse =
      w.capsInUse := by
  induction rest generalizing w progress with
  | nil => rfl
  | cons _ _ ih =>
  unfold promoteLoop
  dsimp only
  split
  · rw [ih]
    split
    · rfl
    · rw [markChildrenOf_capsInUse]
  · exact ih w progress

@[simp] theorem promotePasses_capsInUse (refs : List SlotRef) (fuel : Nat) (w : Sweep) :
    (promotePasses refs fuel w).capsInUse =
      w.capsInUse := by
  induction fuel generalizing w with
  | zero => rfl
  | succ _ ih =>
    unfold promotePasses
    split
    · rw [ih, promoteLoop_capsInUse]
    · exact promoteLoop_capsInUse refs refs w false

theorem decrementInUse_apply (counter : Option Nat) (capsInUse : Nat → Nat)
    (t : Nat) : decrementInUse counter capsInUse t = if counter = some t then capsInUse t - 1
      else capsInUse t := by
  cases counter with
  | none => simp [decrementInUse]
  | some u =>
    rcases eq_or_ne t u with rfl | hEq
    · simp [decrementInUse]
    · simp [decrementInUse, hEq, Ne.symm hEq]

/- The slots counted for `t` that lose their record. -/
def emptiedFor (t : Nat) (before after : CapMem) (refs : List SlotRef) : Nat :=
  refs.countP fun ref =>
    decide (ref.capsInUse = some t) && decide ((before ref.addr).typ ≠ .null) &&
      decide ((after ref.addr).typ = .null)

/-
  The sweep takes one off the counter for each slot it
  empties. With distinct slots no slot is counted twice.
-/
theorem sweepLoop_capsInUse (rs ro t : Nat) (refs : List SlotRef)
    (hNodup : (refs.map addr).Nodup) (w : Sweep) :
    (sweepLoop rs ro refs w).capsInUse t = w.capsInUse t -
        emptiedFor t w.mem (sweepLoop rs ro refs w).mem
          refs := by
  induction refs generalizing w with
  | nil => simp [sweepLoop, emptiedFor]
  | cons ref rest ih =>
  rw [List.map_cons, List.nodup_cons] at hNodup
  rcases hNodup with ⟨hNew, hRest⟩
  -- The rest of the loop does not visit this slot again.
  have hKeep : ∀ v : Sweep, (sweepLoop rs ro rest v).mem ref.addr = v.mem ref.addr := by
    intro v
    rw [sweepLoop_mem_apply, if_neg]
    exact fun hIn => hNew hIn.1
  have hCons : ∀ before after : CapMem, emptiedFor t before after (ref :: rest) =
          emptiedFor t before after rest + if decide (ref.capsInUse = some t) &&
                decide ((before ref.addr).typ ≠ .null) &&
                decide ((after ref.addr).typ = .null)
            then 1 else 0 := by
    intro before after
    exact List.countP_cons
  unfold sweepLoop
  by_cases hNull : (w.mem ref.addr).typ = .null
  · simp only [hNull, if_true]
    rw [hCons, ih hRest]
    simp [hNull]
  by_cases hHit : sweepHit rs ro (w.mem ref.addr)
  · simp only [hNull, hHit, if_false, if_true]
    rw [hCons, ih hRest, hKeep]
    have hSame : ∀ after : CapMem, emptiedFor t (update w.mem ref.addr
                nullify) after rest =
            emptiedFor t w.mem after rest := by
      intro after
      apply List.countP_congr
      intro other hOther
      rw [update_of_ne]
      rintro hEq
      exact hNew (hEq ▸ List.mem_map_of_mem hOther)
    simp only [hSame, decrementInUse_apply, update_self]
    by_cases hCount : ref.capsInUse = some t
    · simp [hCount, hNull, nullify]
      omega
    · simp [hCount]
  · simp only [hNull, if_false, if_neg hHit]
    rw [hCons, ih hRest, hKeep]
    simp [hNull]

theorem revokeSubtree_capsInUse (spaces : List CSpaceDesc) (rs ro t : Nat) (w : Sweep)
    (hMarks : NoMarks w.mem (· ∈ slotAddrs spaces)) (hNodup : (slotAddrs spaces).Nodup) :
    (revokeSubtree spaces rs ro w).capsInUse t = w.capsInUse t -
        emptiedFor t w.mem (revokeSubtree spaces rs ro w).mem (slotRefs spaces) := by
  unfold revokeSubtree
  rw [sweepLoop_capsInUse _ _ _ _ hNodup]
  by_cases hObject : rs = 0
  · simp only [hObject, if_true]
  simp only [hObject, if_false, promotePasses_capsInUse, markChildrenOf_capsInUse]
  congr 1
  apply List.countP_congr
  intro ref hRef
  -- A mark never makes a slot look empty.
  have hTyp : ((promotePasses (slotRefs spaces) ((slotRefs spaces).length + 1)
          (markChildrenOf (slotRefs spaces) rs w)).mem ref.addr).typ = .null ↔
        (w.mem ref.addr).typ = .null := by
    rcases marked_mem (slotRefs spaces) rs w hMarks ref.addr with ⟨hIn, hOut⟩
    by_cases hBelow : Below w.mem (· ∈ (slotRefs spaces).map addr) rs ref.addr
    · rw [hIn hBelow]
      simp [hBelow.2.1.1]
    · rw [hOut hBelow]
  simp only [ne_eq, hTyp]

end Horus
