import Horus.Kernel.Records

/-
  What an operation changes that live tasks can see.

  A slot that is visible after an operation was visible before
  and holds what it held, or it has been emptied, or it holds
  something the operation gave it. And a task that has been
  killed in the middle of a call changes nothing but its own
  space, which is out of sight, unless it grants or revokes.
-/

namespace Horus

open Function

variable {space slot cur : Nat} {s : CapState} {a : Addr}

/- The space of a new task holds what it was born with. -/
theorem Tables.createTask_born (hTables : Tables s) (id : Nat) (source : CNodeSource)
    (hSpace : ((createTask s id source).tasks id).cspace = some space)
    (hAlive : ((createTask s id source).tasks id).state ≠ .dead) (hSlot : slot < cnodeSize) :
    ((createTask s id source).mem ⟨space, slot⟩).typ = .null ∨ BirthCap id
        ((createTask s id source).mem ⟨space, slot⟩) := by
  rcases hTables.createTask_eq source with hAge | ⟨space', _, hBirth⟩
  · rw [hAge] at hAlive
    simp [Act.apply, CapState.setTask] at hAlive
  rw [hBirth] at hSpace ⊢
  rw [(placeBirth_tasks _ id space').1, openSpace_cspace s id space'] at hSpace
  obtain rfl := Option.some.inj hSpace
  have hNull := openSpace_null s id space' slot hSlot
  rcases writes_placeBirth (s := s.openSpace id space') id space' ⟨space', slot⟩ with hSame | hNew
  · rw [hSame]
    exact .inl hNull
  · exact hNew

/- A capability that an operation can have put somewhere. -/
def Op.Gives (s : Sys) (op : Op) (c : Capability) : Prop :=
  op.Makes s c ∨ (∃ id, BirthCap id c) ∨ ∃ cur src need, CopiedFrom s.cap cur src need c

variable {op : Op}

/- What the slots of a task hold that has just been created. -/
theorem Tables.exec_born {s : Sys} (hTables : Tables s.cap) {id : Nat} (hCreates : op.creates = some id)
    (hEnabled : enabled s.cap op = true) (hAlive : ((exec s op).2.cap.tasks id).state ≠ .dead)
    (hSpace : ((exec s op).2.cap.tasks id).cspace = some space) (hSlot : slot < cnodeSize) :
    ((exec s op).2.cap.mem ⟨space, slot⟩).typ = .null ∨
      op.Gives s ((exec s op).2.cap.mem ⟨space, slot⟩) := by
  rcases hTables.exec_birth hCreates hEnabled with ⟨source, hWrites, hSame, hBorn⟩
  rw [hSame] at hSpace
  rcases hWrites ⟨space, slot⟩ with hOld | hNull | ⟨parent, src, hCopied⟩
  · rw [hOld]
    rcases hTables.createTask_born id source hSpace (hBorn hAlive) hSlot with hNull | hBirth
    · exact .inl hNull
    · exact .inr (.inr (.inl ⟨id, hBirth⟩))
  · exact .inl hNull
  · exact .inr (.inr (.inr ⟨parent, src, _, hCopied⟩))

----
-- Calls That Write Their Own Space Only
----

/- The caller of a call that writes into its own space only. -/
def Op.ownCaller : Op → Option Nat
  | .installReplyFor pid _ _ => some pid
  | .consumeReply cur => some cur
  | .mint cur _ _ _ => some cur
  | .mintToken cur _ _ _ _ => some cur
  | .transfer cur _ _ => some cur
  | .replyMint pid _ _ _ _ _ _ => some pid
  | .pipe cur => some cur
  | .pipeClose cur _ => some cur
  | .untypedSplit cur _ _ _ => some cur
  | _ => none

theorem Op.writer_of_ownCaller (hCaller : op.ownCaller = some cur) : op.writer = some cur := by
  cases op with
  | installReplyFor | consumeReply | mint | mintToken | transfer | replyMint | pipe | pipeClose
  | untypedSplit => exact hCaller
  | _ => cases hCaller

theorem exec_ownSpace {s : Sys} (hCaller : op.ownCaller = some cur)
    (hSpace : (s.cap.tasks cur).cspace = some space) : Confined space s.cap (exec s op).2.cap := by
  rw [← cspaceOrRoot_eq hSpace]
  exact exec_confined (Op.writer_of_ownCaller hCaller)

theorem Tables.confined {s' : CapState} (hTables : Tables s)
    (hConfined : Confined space s s') : Tables s' :=
  hTables.congr hConfined.tasks hConfined.nextSpace hConfined.maxTasks

/- The table stays in order, whatever the regions look like. -/
theorem Tables.afterOp {s : Sys} (hTables : Tables s.cap)
    (hEnabled : enabled s.cap op = true) : Tables (exec s op).2.cap := by
  by_cases hSplit : ∃ cur src dest bytes, op = .untypedSplit cur src dest bytes
  · rcases hSplit with ⟨cur, src, dest, bytes, rfl⟩
    rcases hTables.running_cspace hEnabled with ⟨space, hSpace, _⟩
    exact hTables.confined (exec_ownSpace rfl hSpace)
  · exact hTables.step op (fun cur src dest bytes hEq =>
        absurd ⟨cur, src, dest, bytes, hEq⟩ hSplit) hEnabled

/-
  What can be seen after an operation was there before, or is
  empty, or was put there.
-/
theorem Tables.exec_visible {s : Sys} (hTables : Tables s.cap) (hEnabled : enabled s.cap op = true)
    (hLife : ∀ id scratch, op ≠ .teardown id scratch) (hVisible : (exec s op).2.cap.Visible a) :
    (s.cap.Visible a ∧ (exec s op).2.cap.mem a = s.cap.mem a) ∨
      ((exec s op).2.cap.mem a).typ = .null ∨ op.Gives s ((exec s op).2.cap.mem a) := by
  have hWrites := hTables.exec_writes op hEnabled hLife a
  have hOld : s.cap.Visible a → (s.cap.Visible a ∧ (exec s op).2.cap.mem a = s.cap.mem a) ∨
        ((exec s op).2.cap.mem a).typ = .null ∨ op.Gives s ((exec s op).2.cap.mem a) := by
    intro hBefore
    rcases hWrites with hSame | hNull | hMade
    · exact .inl ⟨hBefore, hSame⟩
    · exact .inr (.inl hNull)
    · exact .inr (.inr (.inl hMade))
  rcases ((hTables.afterOp hEnabled).visible_iff a).mp
      hVisible with ⟨hSlot, hRoot | ⟨pid, hRun, hSpace⟩⟩
  · exact hOld ((hTables.visible_iff a).mpr ⟨hSlot, .inl hRoot⟩)
  have hKept : (exec s op).2.cap.tasks pid = s.cap.tasks pid →
      (exec s op).2.cap.maxTasks = s.cap.maxTasks →
      s.cap.Visible a := by
    intro hTask hMax
    refine (hTables.visible_iff a).mpr ⟨hSlot, .inr ⟨pid, ?_, by rwa [← hTask]⟩⟩
    rwa [CapState.running, ← hTask, ← hMax]
  cases hCreates : op.creates with
  | none =>
    have hSame := exec_sameTasks s op (Op.plain_of_creates hCreates hLife)
    exact hOld (hKept (congrFun hSame.tasks pid) hSame.maxTasks)
  | some id =>
  have hNew := exec_creates s op id hCreates
  by_cases hId : pid = id
  · subst hId
    simp only [CapState.running, decide_eq_true_eq] at hRun
    exact .inr (hTables.exec_born hCreates hEnabled hRun.2 hSpace hSlot)
  · exact hOld (hKept (hNew.other.tasks pid hId) hNew.other.maxTasks)

/- A dead caller's own space is out of sight. -/
theorem Tables.not_visible_dead (hTables : Tables s) (hSpace : (s.tasks cur).cspace = some space)
    (hDead : s.running cur = false) (hVisible : s.Visible a) : a.space ≠ space := by
  rintro rfl
  rcases ((hTables.visible_iff a).mp hVisible).2 with hRoot | ⟨pid, hRun, hOwn⟩
  · have hPos := (hTables.space cur a.space hSpace).1
    omega
  · rw [hTables.own pid cur a.space hOwn hSpace, hDead] at hRun
    cases hRun

end Horus
