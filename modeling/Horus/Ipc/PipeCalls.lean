import Horus.Ipc.Pipe
import Horus.Kernel.Steps

/-
  The pipe calls (`pipe.c`), and what a failed one has done.

  `h_pipe_close` empties the slot before it looks at the type,
  and `h_pipe_read` takes the bytes before it knows that they
  can be copied out. Where a call returns a count, the bytes are
  returned here.

  Main results: `failed_call_unchanged_iff`.
-/

namespace Horus.Ipc

open Function

def pipeIoChunk : Nat := 1024

/- The kernel with what is in its pipes. -/
structure PipeSys where
  sys : Sys
  rings : Nat → Lib.Ring UInt8

def PipeSys.pipe (s : PipeSys) (i : Nat) : Pipe :=
  let p := s.sys.obj.pipes i
  ⟨p.inUse, s.rings i, p.readerEnds, p.writerEnds⟩

inductive CallError where
  | perm
  | fault
  | pipe (e : PipeError)
deriving DecidableEq, Repr

def pipeIoBySlot (s : PipeSys) (cur slot : Nat) (right : Rights)
    (io : Pipe → Pipe × Except PipeError (List UInt8)) : PipeSys × Except CallError (List UInt8) :=
  match capLookup s.sys.cap cur slot (some .pipe) right with
  | none => (s, .error .perm)
  | some a =>
    match pipeOf s.sys.obj.pipes (s.sys.cap.mem a).object with
    | none => (s, .error (.pipe .inval))
    | some i =>
      let (p, out) := io (s.pipe i)
      (⟨s.sys, update s.rings i p.ring⟩, out.mapError .pipe)

/-
  `writable n` says whether `n` bytes can be copied to the
  caller's buffer, `fetch n` are the bytes copied from it.
-/
inductive PipeCall where
  | close (slot : Nat)
  | read (slot len : Nat) (writable : Nat → Bool)
  | write (slot len : Nat) (fetch : Nat → Option (List UInt8))

/- `h_pipe_close`, `h_pipe_read` and `h_pipe_write`. -/
def pipeCall (s : PipeSys) (cur : Nat) : PipeCall → PipeSys × Except CallError (List UInt8)
  | .close slot =>
    let (ok, sys) := hPipeClose s.sys cur slot
    -- a pipe that is freed is scrubbed
    (⟨sys, fun i => if (sys.obj.pipes i).inUse = (s.sys.obj.pipes i).inUse then s.rings i
        else .empty 0⟩, if ok then .ok [] else .error (.pipe .inval))
  | .read slot len writable =>
    let (s, out) := pipeIoBySlot s cur slot Right.read (·.readBytes (min len pipeIoChunk))
    (s, out.bind fun bytes => if bytes ≠ [] ∧ !writable bytes.length then .error .fault else out)
  | .write slot len fetch =>
    if (capLookup s.sys.cap cur slot (some .pipe) Right.write).isNone then (s, .error .perm)
    else
      match fetch (min len pipeIoChunk) with
      | none => (s, .error .fault)
      | some stage => pipeIoBySlot s cur slot Right.write (·.writeBytes stage)

/- The caller's capabilities, the counts and the bytes. -/
structure Unchanged (cur : Nat) (s s' : PipeSys) : Prop where
  slots : ∀ space, (s.sys.cap.tasks cur).cspace = some space →
    ∀ slot, s'.sys.cap.mem ⟨space, slot⟩ = s.sys.cap.mem ⟨space, slot⟩
  pipes : s'.sys.obj.pipes = s.sys.obj.pipes
  bytes : ∀ i, (s'.rings i).toList pipeBufBytes = (s.rings i).toList pipeBufBytes

/-
  The slot that is closed holds a pipe end or nothing; bytes that
  are read can be copied out.
-/
def Harmless (s : PipeSys) (cur : Nat) : PipeCall → Prop
  | .close slot => ∀ c, (capConsumeSlotOf s.sys.cap cur slot).1 = some c →
    c.typ ≠ .pipe → c.typ = .null
  | .read slot len writable => ∀ bytes,
    (pipeIoBySlot s cur slot Right.read (·.readBytes (min len pipeIoChunk))).2 = .ok bytes →
      bytes ≠ [] → writable bytes.length = true
  | .write _ _ _ => True

variable {s : PipeSys} {cur slot : Nat}

theorem Unchanged.refl : Unchanged cur s s := ⟨fun _ _ _ => rfl, rfl, fun _ => rfl⟩

theorem pipeIoBySlot_cases (s : PipeSys) (cur slot : Nat) (right : Rights)
    (io : Pipe → Pipe × Except PipeError (List UInt8)) :
    (∃ e, pipeIoBySlot s cur slot right io = (s, .error e)) ∨
      ∃ i, pipeIoBySlot s cur slot right io =
        (⟨s.sys, update s.rings i (io (s.pipe i)).1.ring⟩, (io (s.pipe i)).2.mapError .pipe) := by
  unfold pipeIoBySlot
  split
  · exact .inl ⟨_, rfl⟩
  split
  · exact .inl ⟨_, rfl⟩
  · exact .inr ⟨_, rfl⟩

theorem pipeIoBySlot_error {right : Rights} {io : Pipe → Pipe × Except PipeError (List UInt8)}
    {e : CallError} (hIo : ∀ p e, (io p).2 = .error e → (io p).1 = p)
    (hFails : (pipeIoBySlot s cur slot right io).2 = .error e) :
    (pipeIoBySlot s cur slot right io).1 = s := by
  rcases pipeIoBySlot_cases s cur slot right io with ⟨_, hEq⟩ | ⟨i, hEq⟩
  · rw [hEq]
  rw [hEq] at hFails ⊢
  cases hOut : (io (s.pipe i)).2 with
  | ok => simp [hOut, Except.mapError] at hFails
  | error =>
    rw [hIo _ _ hOut]
    exact congrArg (PipeSys.mk s.sys) (update_eq_self i s.rings)

/- Bytes that were read are no longer there. -/
theorem pipeIoBySlot_read {len : Nat} {bytes : List UInt8} (hSome : bytes ≠ [])
    (hRead : (pipeIoBySlot s cur slot Right.read (·.readBytes len)).2 = .ok bytes) :
    ¬ Unchanged cur s (pipeIoBySlot s cur slot Right.read (·.readBytes len)).1 := by
  rintro ⟨_, _, hBytes⟩
  rcases pipeIoBySlot_cases s cur slot Right.read (·.readBytes len) with ⟨_, hEq⟩ | ⟨i, hEq⟩
  · simp [hEq] at hRead
  have hLength := congrArg List.length (hBytes i)
  simp only [hEq, update_self, Lib.Ring.toList, List.length_map, List.length_range] at hLength hRead
  unfold Pipe.readBytes PipeSys.pipe Except.mapError at *
  grind

theorem capConsumeSlotOf_cases (s : CapState) (pid slot : Nat) :
    capConsumeSlotOf s pid slot = (none, s) ∨ ∃ space, (s.tasks pid).cspace = some space ∧
      capConsumeSlotOf s pid slot = (some (s.mem ⟨space, slot⟩), s.erase pid ⟨space, slot⟩) := by
  unfold capConsumeSlotOf
  grind

theorem failed_call_unchanged_iff (s : PipeSys) (cur : Nat) (call : PipeCall) (e : CallError)
    (hFails : (pipeCall s cur call).2 = .error e) :
    Unchanged cur s (pipeCall s cur call).1 ↔ Harmless s cur call := by
  cases call with
  | close slot =>
    rcases capConsumeSlotOf_cases s.sys.cap cur slot with hEq | ⟨space, hSpace, hEq⟩ <;>
      simp only [pipeCall, hPipeClose, hEq, Harmless] at hFails ⊢
    · exact iff_of_true (by simpa using .refl) nofun
    split at hFails
    · rename_i hPipe
      simp only [if_pos hPipe, CapState.erase]
      constructor
      · rintro ⟨hSlots, _, _⟩ c ⟨⟩ _
        by_contra hUsed
        have hSlot := congrArg Capability.typ (hSlots space hSpace slot)
        simp only [if_neg hUsed, update_self] at hSlot
        exact hUsed hSlot.symm
      · intro hNull
        simpa [hNull _ rfl hPipe] using .refl
    · cases hFails
  | read slot len writable =>
    cases hIo : (pipeIoBySlot s cur slot Right.read (·.readBytes (min len pipeIoChunk))).2 with
      simp only [pipeCall, Harmless, hIo, Except.bind] at hFails ⊢
    | error =>
      rw [pipeIoBySlot_error (fun p e hE => by unfold Pipe.readBytes at *; grind) hIo]
      exact iff_of_true .refl nofun
    | ok bytes =>
      split at hFails
      · rename_i hFault
        refine iff_of_false (pipeIoBySlot_read hFault.1 hIo) fun hHarmless => ?_
        simp [hHarmless bytes rfl hFault.1] at hFault
      · cases hFails
  | write slot len fetch =>
    refine iff_of_true ?_ trivial
    unfold pipeCall at hFails ⊢
    dsimp only at hFails ⊢
    split_ifs at hFails ⊢
    · exact .refl
    split at hFails
    · exact .refl
    · rw [pipeIoBySlot_error (fun p e hE => by unfold Pipe.writeBytes at *; grind) hFails]
      exact .refl

/- Task 1 has made a pipe; every ring holds one byte. -/
def pipeMade : PipeSys :=
  ⟨execAll (boot smallMachine) [.createTask 1 .kernel, .pipe 1], fun _ => ⟨fun _ => 7, 0, 1⟩⟩

theorem failed_call_unchanged_iff_refused :
    Unchanged 1 pipeMade (pipeCall pipeMade 1 (.write 64 1 fun _ => some [8])).1 :=
  (failed_call_unchanged_iff pipeMade 1 _ .perm (by decide +kernel)).mpr trivial

/- An endpoint capability is closed, a byte is read in vain. -/
theorem failed_calls_take :
    ((pipeCall pipeMade 1 (.close 4)).2 = .error (.pipe .inval) ∧
        (pipeMade.sys.cap.mem ⟨2, 4⟩).typ = .endpoint ∧
        ((pipeCall pipeMade 1 (.close 4)).1.sys.cap.mem ⟨2, 4⟩).typ = .null) ∧
      (pipeCall pipeMade 1 (.read 64 1 fun _ => false)).2 = .error .fault ∧
        ((pipeCall pipeMade 1 (.read 64 1 fun _ => false)).1.rings 0).count = 0 := by
  decide +kernel

end Horus.Ipc
