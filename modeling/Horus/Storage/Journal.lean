import Horus.Lib.Runs
import Horus.Lib.WriteCache

/-
  The write-ahead journal of the volume (storage.c).

  A transaction stages blocks in memory. A commit writes them
  to the journal, flushes, writes a header with a keyed hash
  over them, flushes, writes them home, flushes and clears the
  header. Recovery redoes a transaction whose header is found
  with its data.

  Each device operation of a commit or of a recovery is one
  step, so that a crash can come between any two of them. The
  contents of a block and the hash are parameters.
-/

namespace Horus.Storage

open Horus.Lib

def journalMagic : Nat := 0x4C52574A

def journalDataMax : Nat := 24

structure JournalHeader (τ : Type) where
  magic : Nat
  count : Nat
  seq : Nat
  target : List Nat
  hmac : τ

/-
  How a header is laid out in a block, and the keyed hash over
  sequence number, targets and data. The hash has no
  collisions.
-/
structure JournalFormat (β τ : Type) where
  zero : β
  pack : JournalHeader τ → β
  unpack : β → JournalHeader τ
  hmac : Nat → List Nat → List β → τ
  unpack_pack : ∀ hdr : JournalHeader τ,
      hdr.target.length = journalDataMax → unpack (pack hdr) = hdr
  unpack_zero : (unpack zero).magic ≠ journalMagic
  hmac_injective : ∀ seq targets data seq' targets' data',
      hmac seq targets data = hmac seq' targets' data' →
        seq = seq' ∧ targets = targets' ∧ data = data'

/-
  The fields of the superblock that recovery reads. Format
  puts the journal behind other regions and gives it a block
  for the header and one for each slot.
-/
structure Geometry where
  totalBlocks : Nat
  journalStart : Nat
  journalBlocks : Nat
  placed : journalStart ≠ 0
  room : journalDataMax < journalBlocks

/- A block of the volume outside the journal region. -/
def Geometry.Home (g : Geometry) (b : Nat) : Prop :=
  b < g.totalBlocks ∧ ¬ (g.journalStart ≤ b ∧ b < g.journalStart + g.journalBlocks)

instance (g : Geometry) : DecidablePred g.Home :=
  fun b => inferInstanceAs (Decidable (b < g.totalBlocks ∧
      ¬ (g.journalStart ≤ b ∧ b < g.journalStart + g.journalBlocks)))

/-
  Where a commit or a recovery stands, named after its next
  device operation. In `data`, `home` and `redo` the index is
  that of the next block; past the last block the next
  operation is the flush that ends the loop.
-/
inductive JournalPhase (β : Type) where
  | idle
  | data (i : Nat)
  | header
  | headerFlush
  | home (i : Nat)
  | clear
  | down
  | redo (writes : List (Nat × β)) (seq : Nat) (i : Nat)
  | discard

/- A transaction whose commit was entered with blocks staged. -/
structure Attempt (β : Type) where
  slots : List (Nat × β)
  returned : Bool

/-
  `active`, `overflow` and `slots` are `g_txn`. The last three
  fields record the past: the commits that were entered, in
  order, with whether they returned 0; whether the last
  reported transaction still depends on its journal; whether
  the last mount could read the journal's header.
-/
structure JournalState (β : Type) where
  disk : WriteCache β
  active : Bool
  overflow : Bool
  slots : List (Nat × β)
  seq : Nat
  phase : JournalPhase β
  attempts : List (Attempt β)
  owed : Bool
  recovered : Bool

section Journal

variable {β τ : Type} [DecidableEq τ]
variable (fmt : JournalFormat β τ) (g : Geometry)

/- A volume that was just formatted and mounted. -/
def formatted (m : Nat → β) : JournalState β :=
  { disk :=
      { medium := fun b =>
          if g.journalStart ≤ b ∧ b < g.journalStart + g.journalBlocks then fmt.zero else m b
        pending := [] }
    active := false
    overflow := false
    slots := []
    seq := 1
    phase := .idle
    attempts := []
    owed := false
    recovered := true }

/- The slot of a block that is staged already is overwritten. -/
def stageSlot (slots : List (Nat × β)) (b : Nat) (v : β) : Option (List (Nat × β)) :=
  if b ∈ slots.map Prod.fst then some (slots.map fun w => if w.1 = b then (b, v) else w)
  else if journalDataMax ≤ slots.length then none
  else some (slots ++ [(b, v)])

def JournalState.journalBegin (s : JournalState β) : JournalState β :=
  { s with active := true, overflow := false, slots := [] }

def JournalState.stage (s : JournalState β) (b : Nat) (v : β) : JournalState β :=
  match stageSlot s.slots b v with
  | some slots => { s with slots := slots }
  | none => { s with overflow := true }

def JournalState.journalAbort (s : JournalState β) : JournalState β :=
  { s with active := false, overflow := false, slots := [], phase := .idle }

/- A write that fails may have got as far as the cache. -/
inductive IoResult where
  | ok
  | failed (arrived : Bool)
  deriving DecidableEq

def IoResult.arrived : IoResult → Bool
  | ok => true
  | failed arrived => arrived

/- `raw_block_write` with the device's answer. -/
def rawWrite (d : WriteCache β) (b : Nat) (v : β) (r : IoResult) : WriteCache β :=
  if r.arrived then d.write b v else d

def commitHeader (slots : List (Nat × β)) (seq : Nat) : JournalHeader τ :=
  { magic := journalMagic
    count := slots.length
    seq := seq
    target := slots.map Prod.fst ++ List.replicate (journalDataMax - slots.length) 0
    hmac := fmt.hmac seq (slots.map Prod.fst) (slots.map Prod.snd) }

/-
  `journal_commit` up to its first device operation. The
  blocks that the caches flush into the transaction are staged
  before.
-/
def JournalState.journalCommit (s : JournalState β) : JournalState β :=
  if g.journalStart = 0 ∨ s.overflow then s.journalAbort
  else if s.slots = [] then { s with active := false }
  else { s with phase := .data 0, attempts := s.attempts ++ [⟨s.slots, false⟩] }

/- `journal_commit` returns 0. -/
def JournalState.commitReturn (s : JournalState β) : JournalState β :=
  { s with
    seq := s.seq + 1
    active := false
    slots := []
    phase := .idle
    attempts := s.attempts.dropLast ++ [⟨s.slots, true⟩] }

def JournalState.ioData (s : JournalState β) (i : Nat) (r : IoResult) : JournalState β :=
  match s.slots[i]? with
  | some w =>
    let s' : JournalState β :=
      { s with disk := rawWrite s.disk (g.journalStart + 1 + i) w.2 r, phase := .data (i + 1) }
    if r = .ok then s' else s'.journalAbort
  | none =>
  if r = .ok then { s with disk := s.disk.flush, phase := .header } else s.journalAbort

def JournalState.ioHeader (s : JournalState β) (r : IoResult) : JournalState β :=
  let s' : JournalState β :=
    { s with
      disk := rawWrite s.disk g.journalStart (fmt.pack (commitHeader fmt s.slots s.seq)) r
      phase := .headerFlush }
  if r = .ok then s' else s'.journalAbort

def JournalState.ioHeaderFlush (s : JournalState β) (r : IoResult) : JournalState β :=
  if r = .ok then { s with disk := s.disk.flush, phase := .home 0 } else s.journalAbort

/- The result of a home write is not looked at. -/
def JournalState.ioHome (s : JournalState β) (i : Nat) (r : IoResult) : JournalState β :=
  match s.slots[i]? with
  | some w => { s with disk := rawWrite s.disk w.1 w.2 r, phase := .home (i + 1) }
  | none =>
  if r = .ok then { s with disk := s.disk.flush, phase := .clear }
  else { s with owed := true }.commitReturn

def JournalState.ioClear (s : JournalState β) (r : IoResult) : JournalState β :=
  { s with disk := rawWrite s.disk g.journalStart fmt.zero r }.commitReturn

----
-- Recovery
----

/- What recovery decides from what it reads. -/
inductive RecoverPlan (β : Type) where
  | nothing
  | discard
  | redo (writes : List (Nat × β)) (seq : Nat)

def journalData (m : Nat → β) (count : Nat) : List β :=
  (List.range count).map fun i => m (g.journalStart + 1 + i)

/- The hash is the one of the data, and every target is home. -/
def headerHolds (hdr : JournalHeader τ) (data : List β) : Prop :=
  hdr.magic = journalMagic ∧ hdr.count ≠ 0 ∧ hdr.count ≤ journalDataMax ∧
    fmt.hmac hdr.seq (hdr.target.take hdr.count) data = hdr.hmac ∧
    ∀ t ∈ hdr.target.take hdr.count, g.Home t

/- `unread` is the journal data block whose read fails. -/
def recoverPlan (m : Nat → β) (active : Bool) (unread : Option Nat) : RecoverPlan β :=
  let hdr := fmt.unpack (m g.journalStart)
  if hdr.magic ≠ journalMagic then .nothing
  else if hdr.count = 0 ∨ journalDataMax < hdr.count then .discard
  else if active then .nothing
  else if ∃ i ∈ unread, i < hdr.count then .discard
  else if fmt.hmac hdr.seq (hdr.target.take hdr.count) (journalData g m hdr.count) ≠ hdr.hmac then
    .discard
  else if ∃ t ∈ hdr.target.take hdr.count, ¬ g.Home t then .discard
  else .redo ((hdr.target.take hdr.count).zip (journalData g m hdr.count)) hdr.seq

/-
  What the reads of a recovery run into: nothing, a header
  that cannot be read, or a data block that cannot be read.
-/
inductive MountRead where
  | complete
  | noHeader
  | noData (i : Nat)
  deriving DecidableEq

def MountRead.unread : MountRead → Option Nat
  | complete => none
  | noHeader => none
  | noData i => some i

/- `journal_recover` up to its first write. -/
def JournalState.mount (s : JournalState β) (r : MountRead) : JournalState β :=
  if g.journalStart = 0 then { s with phase := .idle, recovered := true }
  else if r = .noHeader then { s with phase := .idle }
  else
    match recoverPlan fmt g s.disk.read s.active r.unread with
    | .nothing => { s with phase := .idle, recovered := true }
    | .discard => { s with phase := .discard }
    | .redo writes seq => { s with phase := .redo writes seq 0 }

/- The result of a redo write is not looked at. -/
def JournalState.ioRedo (s : JournalState β) (writes : List (Nat × β)) (seq i : Nat)
    (r : IoResult) : JournalState β :=
  match writes[i]? with
  | some w => { s with disk := rawWrite s.disk w.1 w.2 r, phase := .redo writes seq (i + 1) }
  | none =>
  let s' : JournalState β := { s with seq := if s.seq ≤ seq then seq + 1 else s.seq }
  if r = .ok then { s' with disk := s.disk.flush, owed := false, phase := .discard }
  else { s' with phase := .idle, recovered := true }

def JournalState.ioDiscard (s : JournalState β) (r : IoResult) : JournalState β :=
  { s with disk := rawWrite s.disk g.journalStart fmt.zero r, phase := .idle, recovered := true }

/- Power is lost: memory is gone. -/
def JournalState.crash (s : JournalState β) (landed : List (Nat × β)) : JournalState β :=
  { s with
    disk := s.disk.crash landed
    active := false
    overflow := false
    slots := []
    seq := 1
    phase := .down
    recovered := false }

inductive JournalOp (g : Geometry) (β : Type) where
  | begin
  | stage (b : { b // g.Home b }) (v : β)
  | abort
  | commit
  | io (r : IoResult)
  | crash (landed : List (Nat × β))
  | mount (r : MountRead)

def JournalState.io (s : JournalState β) (r : IoResult) : JournalState β :=
  match s.phase with
  | .idle => s
  | .data i => s.ioData g i r
  | .header => s.ioHeader fmt g r
  | .headerFlush => s.ioHeaderFlush r
  | .home i => s.ioHome i r
  | .clear => s.ioClear fmt g r
  | .down => s
  | .redo writes seq i => s.ioRedo writes seq i r
  | .discard => s.ioDiscard fmt g r

def journalExec (s : JournalState β) : JournalOp g β → JournalState β
  | .begin => s.journalBegin
  | .stage b v => s.stage b v
  | .abort => s.journalAbort
  | .commit => s.journalCommit g
  | .io r => s.io fmt g r
  | .crash landed => s.crash landed
  | .mount r => s.mount fmt g r

def JournalPhase.Busy : JournalPhase β → Prop
  | .idle => False
  | .down => False
  | _ => True

def JournalPhase.Idle : JournalPhase β → Prop
  | .idle => True
  | _ => False

def JournalPhase.Down : JournalPhase β → Prop
  | .down => True
  | _ => False

def journalEnabled (s : JournalState β) : JournalOp g β → Prop
  | .begin => s.phase.Idle
  | .stage _ _ => s.phase.Idle ∧ s.active
  | .abort => s.phase.Idle ∧ s.active
  | .commit => s.phase.Idle ∧ s.active
  | .io _ => s.phase.Busy
  | .crash landed => landed.Sublist s.disk.pending
  | .mount _ => s.phase.Down

instance (p : JournalPhase β) : Decidable p.Busy :=
  match p with
  | .idle => isFalse id
  | .down => isFalse id
  | .data _ => isTrue trivial
  | .header => isTrue trivial
  | .headerFlush => isTrue trivial
  | .home _ => isTrue trivial
  | .clear => isTrue trivial
  | .redo _ _ _ => isTrue trivial
  | .discard => isTrue trivial

instance (p : JournalPhase β) : Decidable p.Idle :=
  match p with
  | .idle => isTrue trivial
  | .down => isFalse id
  | .data _ => isFalse id
  | .header => isFalse id
  | .headerFlush => isFalse id
  | .home _ => isFalse id
  | .clear => isFalse id
  | .redo _ _ _ => isFalse id
  | .discard => isFalse id

instance (p : JournalPhase β) : Decidable p.Down :=
  match p with
  | .idle => isFalse id
  | .down => isTrue trivial
  | .data _ => isFalse id
  | .header => isFalse id
  | .headerFlush => isFalse id
  | .home _ => isFalse id
  | .clear => isFalse id
  | .redo _ _ _ => isFalse id
  | .discard => isFalse id

instance [DecidableEq β] (s : JournalState β) (op : JournalOp g β) :
    Decidable (journalEnabled g s op) :=
  match op with
  | .begin => inferInstanceAs (Decidable s.phase.Idle)
  | .stage _ _ => inferInstanceAs (Decidable (s.phase.Idle ∧ s.active))
  | .abort => inferInstanceAs (Decidable (s.phase.Idle ∧ s.active))
  | .commit => inferInstanceAs (Decidable (s.phase.Idle ∧ s.active))
  | .io _ => inferInstanceAs (Decidable s.phase.Busy)
  | .crash landed => inferInstanceAs (Decidable (landed.Sublist s.disk.pending))
  | .mount _ => inferInstanceAs (Decidable s.phase.Down)

end Journal

/- Blocks as lists of numbers, each with its length in front. -/
def lengthPrefixed (data : List (List Nat)) : List Nat := data.flatMap fun d => d.length :: d

theorem lengthPrefixed_injective :
    ∀ data data' : List (List Nat), lengthPrefixed data = lengthPrefixed data' → data = data'
  | [], [], _ => rfl
  | [], d' :: data', hEq => by simp [lengthPrefixed] at hEq
  | d :: data, [], hEq => by simp [lengthPrefixed] at hEq
  | d :: data, d' :: data', hEq => by
      simp only [lengthPrefixed, List.flatMap_cons, List.cons_append, List.cons.injEq] at hEq
      obtain ⟨hLength, hRest⟩ := hEq
      obtain ⟨hHead, hTail⟩ := List.append_inj hRest hLength
      rw [hHead, lengthPrefixed_injective data data' hTail]

/-
  A format whose hash is the hashed text itself. It shows that
  formats without collisions exist.
-/
def plainFormat : JournalFormat (List Nat) (List Nat) where
  zero := []
  pack := fun hdr => hdr.magic :: hdr.count :: hdr.seq :: (hdr.target ++ hdr.hmac)
  unpack := fun b =>
    match b with
    | magic :: count :: seq :: rest =>
      { magic := magic
        count := count
        seq := seq
        target := rest.take journalDataMax
        hmac := rest.drop journalDataMax }
    | _ =>
    { magic := 0, count := 0, seq := 0, target := [], hmac := [] }
  hmac := fun seq targets data => seq :: targets.length :: (targets ++ lengthPrefixed data)
  unpack_pack := by
    intro hdr hLength
    simp [← hLength]
  unpack_zero := by decide
  hmac_injective := by
    intro seq targets data seq' targets' data' hEq
    simp only [List.cons.injEq] at hEq
    obtain ⟨hSeq, hLength, hRest⟩ := hEq
    obtain ⟨hTargets, hData⟩ := List.append_inj hRest hLength
    exact ⟨hSeq, hTargets, lengthPrefixed_injective _ _ hData⟩

end Horus.Storage
