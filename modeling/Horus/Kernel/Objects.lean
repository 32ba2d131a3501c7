import Horus.Kernel.State

/-
  The object tables behind the capabilities: the pipe table
  (`pipe.c`), splitting untyped memory (`untyped.c`) and
  splitting a scheduling context (`scheduler.c`, `sched.rs`).
-/

namespace Horus

open Function

/- The least index below `n` with the property, in order. -/
def firstIndex (p : Nat → Bool) (n : Nat) : Option Nat := (List.range n).find? p

theorem firstIndex_some {p : Nat → Bool} {n i : Nat}
    (hFound : firstIndex p n = some i) : p i = true ∧ i < n := by
  refine ⟨List.find?_some hFound, ?_⟩
  exact List.mem_range.mp (List.mem_of_find?_eq_some hFound)

----
-- Pipes
----

/- `PIPE_OBJ`: the index and the generation of a pipe. -/
def pipeObj (idx gen : Nat) : Nat := gen % 2 ^ 32 * 2 ^ 32 + idx % 2 ^ 32

/-
  `pipe_alloc`: the object, 0 when the table is full. The
  generation skips 0 and the tally's marker.
-/
def pipeAlloc (pipes : Nat → Pipe) : Nat × (Nat → Pipe) :=
  match firstIndex (fun i => !(pipes i).inUse) maxPipes with
  | none => (0, pipes)
  | some i =>
  let next := ((pipes i).gen + 1) % 2 ^ 32
  let gen := if next = 0 ∨ next = pipeTallyGenMixed then 1 else next
  (pipeObj i gen, update pipes i { inUse := true, gen := gen, readerEnds := 0, writerEnds := 0 })

/- `pipe_of`: the index of a pipe that is still the one named. -/
def pipeOf (pipes : Nat → Pipe) (obj : Nat) : Option Nat :=
  let idx := obj % 2 ^ 32
  if maxPipes ≤ idx then none
  else if !(pipes idx).inUse then none
  else if (pipes idx).gen ≠ obj / 2 ^ 32 % 2 ^ 32 then none
  else some idx

def pipeEndRef (pipes : Nat → Pipe) (obj : Nat) (isWriter : Bool) : Option (Nat → Pipe) :=
  match pipeOf pipes obj with
  | none => none
  | some i =>
  let p := pipes i
  if isWriter then some (update pipes i { p with writerEnds := (p.writerEnds + 1) % 2 ^ 32 })
  else some (update pipes i { p with readerEnds := (p.readerEnds + 1) % 2 ^ 32 })

/- `pipe_free_if_unheld`. -/
def Pipe.freeIfUnheld (p : Pipe) : Pipe :=
  if p.readerEnds = 0 ∧ p.writerEnds = 0 then { p with inUse := false } else p

def pipeEndUnref (pipes : Nat → Pipe) (obj : Nat) (isWriter : Bool) : Nat → Pipe :=
  match pipeOf pipes obj with
  | none => pipes
  | some i =>
    let p := pipes i
    let p' := if isWriter then { p with writerEnds := p.writerEnds - 1 }
      else { p with readerEnds := p.readerEnds - 1 }
    update pipes i p'.freeIfUnheld

/- One iteration of `pipe_release_revoked_ends`. -/
def releaseTallied (tally : PipeTally) (i : Nat) (pipes : Nat → Pipe) : Nat → Pipe :=
  let readers := tally.cells (pipeTallyCells * i)
  let writers := tally.cells (pipeTallyCells * i + 1)
  let gen := tally.cells (pipeTallyCells * i + 2)
  if readers = 0 ∧ writers = 0 then pipes
  else if gen = pipeTallyGenMixed then pipes
  else
    match pipeOf pipes (pipeObj i gen) with
    | none => pipes
    | some idx =>
    let p := pipes idx
    update pipes idx (Pipe.freeIfUnheld
        { p with readerEnds := p.readerEnds - readers, writerEnds := p.writerEnds - writers })

/- `pipe_release_revoked_ends`, without its diagnostic. -/
def pipeReleaseRevokedEnds (tally : PipeTally) (pipes : Nat → Pipe) : Nat → Pipe :=
  (List.range (min (tally.len / pipeTallyCells) maxPipes)).foldl
    (fun ps i => releaseTallied tally i ps) pipes

/- The slots that `pipe_count_forked_ends` counts. -/
def isCountedEnd (c : Capability) : Bool := c.typ = .pipe ∧ c.serial ≠ 0

/-
  `pipe_count_forked_ends`: nothing is counted unless every
  end still names its pipe.
-/
def pipeCountForkedEnds (pipes : Nat → Pipe) (mem : CapMem)
    (space size : Nat) : Option (Nat → Pipe) :=
  let ends := ((List.range (min size cnodeSize)).map fun slot =>
      mem ⟨space, slot⟩).filter isCountedEnd
  if ends.any fun c => (pipeOf pipes c.object).isNone then none
  else
    some (ends.foldl (fun ps c =>
        (pipeEndRef ps c.object (c.rights &&& Right.write ≠ 0)).getD ps)
      pipes)

def pageSize : Nat := 4096

/- `align_up`, in 64 bits. -/
def alignUp (n align : Nat) : Nat := (n + align - 1) % 2 ^ 64 / align * align

/-
  The part of `untyped_split` under the region lock: the child
  index, the child region, and the parent region afterwards.
-/
def untypedCarve (untypeds : Nat → Untyped)
    (parent bytes : Nat) : Option (Nat × Untyped × Untyped) :=
  let pu := untypeds parent
  let start := alignUp pu.watermark pageSize
  let take := alignUp bytes pageSize
  let stop := (start + take) % 2 ^ 64
  if take < bytes ∨ stop < start then none
  else if pu.size < stop then none
  else
    match firstIndex (fun i => !(untypeds i).inUse) maxUntyped with
    | none => none
    | some child =>
    some (child,
      { base := (pu.base + start) % 2 ^ 64
        size := take
        watermark := 0
        objects := 0
        inUse := true },
      { pu with watermark := stop })

theorem alignUp_lt (n : Nat) : alignUp n pageSize < 2 ^ 64 := by
  unfold alignUp pageSize
  omega

/- What a successful carve takes: no sum has wrapped. -/
theorem untypedCarve_eq_some {untypeds : Nat → Untyped}
    {parent bytes child : Nat} {region rest : Untyped}
    (hCarve : untypedCarve untypeds parent bytes = some (child, region, rest)) :
    ∃ start size, start = alignUp (untypeds parent).watermark pageSize ∧
      start + size ≤ (untypeds parent).size ∧ (untypeds child).inUse = false ∧ child < maxUntyped ∧
      region =
        { base := ((untypeds parent).base + start) % 2 ^ 64
          size := size
          watermark := 0
          objects := 0
          inUse := true } ∧
      rest = { untypeds parent with watermark := start + size } := by
  have hStart := alignUp_lt (untypeds parent).watermark
  have hTake := alignUp_lt bytes
  unfold untypedCarve at hCarve
  dsimp only at hCarve
  generalize hS : alignUp (untypeds parent).watermark pageSize = start at hCarve hStart
  generalize alignUp bytes pageSize = take at hCarve hTake
  split at hCarve
  · cases hCarve
  split at hCarve
  · cases hCarve
  rename_i hRoom
  -- A sum that wrapped would be less than `start`.
  have hStop : (start + take) % 2 ^ 64 = start + take := by
    omega
  split at hCarve
  · cases hCarve
  rename_i free hFree
  rcases hCarve with ⟨rfl, rfl, rfl⟩
  rcases firstIndex_some hFree with ⟨hUnused, hBound⟩
  rw [hStop] at hRoom ⊢
  exact ⟨start, take, rfl, by omega, by simpa using hUnused, hBound, rfl, rfl⟩

/- `child_share`: the share that buys the budget, rounded up. -/
def childShare (budgetUs periodUs : Nat) : Option Nat :=
  if periodUs < scMinPeriodUs ∨ scMaxPeriodUs < periodUs then none
  else if budgetUs = 0 ∨ periodUs < budgetUs then none
  else some ((budgetUs * scPpmWhole + periodUs - 1) / periodUs)

/- `split_with_share`: the parent's rest and the child's part. -/
def splitWithShare (parentShare budgetUs periodUs share : Nat) : Option (Nat × Nat) :=
  if scPpmWhole < parentShare ∨ periodUs < scMinPeriodUs ∨ scMaxPeriodUs < periodUs then none
  else if budgetUs = 0 ∨ periodUs < budgetUs ∨ share = 0 ∨ scPpmWhole < share then none
  else if share * periodUs < budgetUs * scPpmWhole then none
  else if parentShare < share then none
  else some (parentShare - share, share)

def rustScSplit (parentShare budgetUs periodUs : Nat) : Option (Nat × Nat) :=
  match childShare budgetUs periodUs with
  | none => none
  | some share => splitWithShare parentShare budgetUs periodUs share

/-
  `sched_carve`: the parent's context afterwards and the
  child's. A context outside the index range is not live.
-/
def schedCarve (scs : Nat → SchedContext) (parent budgetUs periodUs : Nat) (slack badFlags : Bool) :
    Option (SchedContext × SchedContext) :=
  let p := scs parent
  if badFlags then none
  else if !p.live then none
  else if slack ∧ !p.slack then none
  else
    match rustScSplit p.sharePpm budgetUs periodUs with
    | none => none
    | some (rest, share) =>
    some ( { p with sharePpm := rest },
      { live := true
        cpu := p.cpu
        sharePpm := share
        periodUs := periodUs
        slack := slack
        parent := parent })

/- A split moves share and creates none. -/
theorem rustScSplit_conserves {parentShare budgetUs periodUs rest share : Nat}
    (hSplit : rustScSplit parentShare budgetUs periodUs = some (rest, share)) :
    rest + share = parentShare ∧ 0 < share := by
  unfold rustScSplit at hSplit
  cases hShare : childShare budgetUs periodUs with
  | none => simp [hShare] at hSplit
  | some =>
    simp only [hShare, splitWithShare] at hSplit
    split_ifs at hSplit
    simp only [Option.some.injEq, Prod.mk.injEq] at hSplit
    omega

end Horus
