import Horus.Lib.Ring
import Horus.Lib.Runs
import Mathlib.Algebra.Ring.Nat

/-
  The bytes of a pipe (`pipe.c`).

  A pipe is a ring of bytes and counts its ends in either
  direction. Each operation is one section under `pipe_lock`,
  on the use of a slot that the generation of an end names: when
  that use is over, it is refused.

  A read returns 0 at the end of file, and also when no byte was
  asked for.

  Main results: `pipe_is_fifo`.
-/

namespace Horus.Ipc

def pipeBufBytes : Nat := 4096

inductive PipeError where
  | inval
  | again
  | pipe
deriving DecidableEq, Repr

structure Pipe where
  inUse : Bool
  ring : Lib.Ring UInt8
  readerEnds : Nat
  writerEnds : Nat

namespace Pipe

variable (p : Pipe)

/- `pipe_read_bytes`: the bytes that are put into `dst`. -/
def readBytes (len : Nat) : Pipe × Except PipeError (List UInt8) :=
  if p.inUse = false then (p, .error .inval)
  else if p.ring.count = 0 then (p, if p.writerEnds ≠ 0 then .error .again else .ok [])
  else
    let n := min p.ring.count len
    ({ p with
        ring :=
          { p.ring with
            head := (p.ring.head + n) % pipeBufBytes
            count := p.ring.count - n } },
      .ok ((List.range n).map fun i => p.ring.cells ((p.ring.head + i) % pipeBufBytes)))

/- `pipe_write_bytes`: the bytes of `src` that are taken. -/
def writeBytes (src : List UInt8) : Pipe × Except PipeError (List UInt8) :=
  if p.inUse = false then (p, .error .inval)
  else if p.readerEnds = 0 then (p, .error .pipe)
  else
    let space := pipeBufBytes - p.ring.count
    if space = 0 then (p, .error .again)
    else ({ p with ring := (src.take space).foldl (Lib.Ring.push pipeBufBytes) p.ring },
      .ok (src.take space))

/- `pipe_end_ref`. -/
def endRef (isWriter : Bool) : Pipe :=
  if p.inUse = false then p
  else if isWriter then { p with writerEnds := (p.writerEnds + 1) % 2 ^ 32 }
  else { p with readerEnds := (p.readerEnds + 1) % 2 ^ 32 }

/- `pipe_free_if_unheld`. -/
def freeIfUnheld : Pipe :=
  if p.readerEnds = 0 ∧ p.writerEnds = 0 then { p with inUse := false, ring := .empty 0 } else p

/-
  `pipe_release_revoked_ends` for this pipe; `pipe_end_unref`
  releases one end.
-/
def release (readers writers : Nat) : Pipe :=
  if p.inUse = false ∨ readers = 0 ∧ writers = 0 then p
  else
    freeIfUnheld { p with
      readerEnds := p.readerEnds - readers
      writerEnds := p.writerEnds - writers }

end Pipe

inductive PipeOp where
  | read (len : Nat)
  | write (src : List UInt8)
  | ref (isWriter : Bool)
  | release (readers writers : Nat)

/- A pipe, and the bytes that went in and came out so far. -/
structure Traffic where
  pipe : Pipe
  accepted : List UInt8
  returned : List UInt8

namespace Traffic

/- `pipe_alloc`; the buffer is as its last use left it. -/
def alloc (cells : Nat → UInt8) : Traffic := ⟨⟨true, ⟨cells, 0, 0⟩, 0, 0⟩, [], []⟩

def step (t : Traffic) : PipeOp → Traffic
  | .read len =>
    let (p, out) := t.pipe.readBytes len
    { t with pipe := p, returned := t.returned ++ out.toOption.getD [] }
  | .write src =>
    let (p, out) := t.pipe.writeBytes src
    { t with pipe := p, accepted := t.accepted ++ out.toOption.getD [] }
  | .ref isWriter => { t with pipe := t.pipe.endRef isWriter }
  | .release readers writers => { t with pipe := t.pipe.release readers writers }

/-
  What went in is what came out and what is in the ring; at the
  end of the pipe the rest is dropped.
-/
structure Flows (t : Traffic) : Prop where
  fits : t.pipe.ring.Fits pipeBufBytes
  order : t.returned <+: t.accepted
  bytes : t.pipe.inUse = true → t.accepted = t.returned ++ t.pipe.ring.toList pipeBufBytes

variable {t : Traffic}

theorem Flows.of_bytes (hFits : t.pipe.ring.Fits pipeBufBytes)
    (hBytes : t.accepted = t.returned ++ t.pipe.ring.toList pipeBufBytes) : t.Flows where
  fits := hFits
  order := ⟨_, hBytes.symm⟩
  bytes := fun _ => hBytes

theorem Flows.read (hFlows : t.Flows) (len : Nat) : (t.step (.read len)).Flows := by
  have hSame : (⟨t.pipe, t.accepted, t.returned ++ []⟩ : Traffic).Flows := by
    rwa [List.append_nil]
  simp only [step, Pipe.readBytes]
  split
  · exact hSame
  rename_i hUse
  split
  · dsimp only
    split <;> exact hSame
  have hBytes := hFlows.bytes (by simpa using hUse)
  rw [Lib.Ring.toList_drop (Nat.min_le_left _ len), ← List.append_assoc] at hBytes
  refine .of_bytes ⟨Nat.mod_lt _ (by decide), ?_⟩ hBytes
  exact Nat.le_trans (Nat.sub_le _ _) hFlows.fits.count

theorem Flows.write (hFlows : t.Flows) (src : List UInt8) : (t.step (.write src)).Flows := by
  have hSame : (⟨t.pipe, t.accepted ++ [], t.returned⟩ : Traffic).Flows := by
    rwa [List.append_nil]
  simp only [step, Pipe.writeBytes]
  split
  · exact hSame
  rename_i hUse
  split
  · exact hSame
  split
  · exact hSame
  have hRoom : t.pipe.ring.count + (src.take (pipeBufBytes - t.pipe.ring.count)).length ≤
      pipeBufBytes := by
    have hCount := hFlows.fits.count
    rw [List.length_take]
    omega
  have hPush := Lib.Ring.toList_pushAll hFlows.fits hRoom
  apply Flows.of_bytes hPush.2
  dsimp only
  rw [hPush.1, hFlows.bytes (by simpa using hUse), List.append_assoc]
  rfl

theorem Flows.step (hFlows : t.Flows) (op : PipeOp) : (t.step op).Flows := by
  cases op with
  | read len => exact hFlows.read len
  | write src => exact hFlows.write src
  | ref isWriter =>
    simp only [Traffic.step, Pipe.endRef]
    split
    · exact hFlows
    · split <;> exact ⟨hFlows.fits, hFlows.order, hFlows.bytes⟩
  | release readers writers =>
    simp only [Traffic.step, Pipe.release, Pipe.freeIfUnheld]
    split
    · exact hFlows
    split
    · exact ⟨Lib.Ring.fits_empty _ (by decide), hFlows.order, nofun⟩
    · exact ⟨hFlows.fits, hFlows.order, hFlows.bytes⟩

end Traffic

/-
  In every run on one pipe the bytes come out as they went in.
  As long as the pipe is in use the rest is in the ring, and a
  read of at least one byte finds the end of file only when all
  is read and no write end is counted.
-/
theorem pipe_is_fifo (cells : Nat → UInt8) (t : Traffic)
    (hRun : Lib.Run Traffic.step (fun _ _ => True) (.alloc cells) t) : t.returned <+: t.accepted ∧
    (t.pipe.inUse = true → t.accepted = t.returned ++ t.pipe.ring.toList pipeBufBytes ∧
      (t.pipe.ring.toList pipeBufBytes).length ≤ pipeBufBytes ∧
      (∀ len, 0 < len → (t.pipe.readBytes len).2 = .ok [] →
        t.returned = t.accepted ∧ t.pipe.writerEnds = 0) ∧
      (∀ src, (t.pipe.writeBytes src).2 = .error .pipe ↔ t.pipe.readerEnds = 0) ∧
      (∀ len, (t.pipe.readBytes len).2 = .error .again → t.pipe.ring.toList pipeBufBytes = []) ∧
      ∀ src, (t.pipe.writeBytes src).2 = .error .again →
        (t.pipe.ring.toList pipeBufBytes).length = pipeBufBytes) := by
  have hFlows : t.Flows := hRun.invariant Traffic.Flows (fun _ op hFlows _ => hFlows.step op)
    (.of_bytes ⟨Nat.zero_lt_succ _, Nat.zero_le _⟩ rfl)
  refine ⟨hFlows.order, fun hUse => ?_⟩
  have hBytes := hFlows.bytes hUse
  have hCount := hFlows.fits.count
  have hLength : (t.pipe.ring.toList pipeBufBytes).length = t.pipe.ring.count := by
    simp [Lib.Ring.toList]
  rw [hLength]
  refine ⟨hBytes, hCount, ?_, ?_, ?_, ?_⟩
  · intro len hLen hEnd
    rw [hBytes]
    simp only [Pipe.readBytes, hUse] at hEnd
    by_cases hEmpty : t.pipe.ring.count = 0
    · rw [Lib.Ring.toList_eq_nil hEmpty, List.append_nil]
      grind
    · simp_all
  · intro src
    simp only [Pipe.writeBytes, hUse]
    grind
  · intro len hAgain
    apply Lib.Ring.toList_eq_nil
    simp only [Pipe.readBytes, hUse] at hAgain
    grind
  · intro src hAgain
    simp only [Pipe.writeBytes, hUse] at hAgain
    grind

/- One byte is in the pipe. -/
def oneByte : Traffic :=
  Lib.runAll Traffic.step (.alloc fun _ => 0) [.ref false, .ref true, .write [7]]

theorem pipe_is_fifo_oneByte : oneByte.accepted = [7] ∧
    oneByte.accepted = oneByte.returned ++ oneByte.pipe.ring.toList pipeBufBytes :=
  ⟨rfl, (pipe_is_fifo (fun _ => 0) oneByte
    (Lib.run_runAll _ ⟨trivial, trivial, trivial, trivial⟩)).2 rfl |>.1⟩

/- A read of no bytes returns 0, the end of file. -/
theorem empty_read_ends :
    oneByte.accepted = [7] ∧ oneByte.returned = [] ∧ (oneByte.pipe.readBytes 0).2 = .ok [] :=
  ⟨rfl, rfl, rfl⟩

end Horus.Ipc
