import Horus.Kernel.Objects
import Horus.Lib.HashTree
import Horus.Lib.Oldest
import Horus.Lib.Runs

/-
  The tree of hashes over the metadata and span blocks of a
  volume and its cache of nodes (`storage.c`).

  Nodes are read from and written to a device through the
  cache; a node that has been checked against the hash in its
  parent, up to the root in memory, is marked as verified. The
  device is a parameter: what it answers to a request, and how
  the request changes it.

  The hashes are parameters too. They cover the content of a
  block at its place, and the geometry of the volume, which
  does not change here.
-/

namespace Horus.Storage

open Lib Function

def merkleFanout : Nat := 128
def merkleMaxLevels : Nat := 6
def merkleCacheLines : Nat := 16

instance merkleFanout.neZero : NeZero merkleFanout := ⟨by decide⟩

/- The hashes of the children of a node. -/
abbrev MerkleNode (H : Type) : Type := Fin merkleFanout → H

/- The loop of `merkle_layout` with `n` nodes to place. -/
def layoutFrom : Nat → Nat → Option (List Nat)
  | 0, _ => none
  | room + 1, n =>
    if n = 1 then some [1]
    else (layoutFrom room ((n + merkleFanout - 1) / merkleFanout)).map (n :: ·)

/- `merkle_layout`: the number of nodes at each level. -/
def merkleLayout (leaves : Nat) : Option (List Nat) :=
  if leaves = 0 then none
  else layoutFrom merkleMaxLevels ((leaves + merkleFanout - 1) / merkleFanout)

/- A volume whose tree has a place. -/
structure MerkleTree where
  leaves : Nat
  counts : List Nat
  laid : merkleLayout leaves = some counts

namespace MerkleTree

def levels (g : MerkleTree) : Nat := g.counts.length

/- How many places there are below a level. -/
def width (g : MerkleTree) : Nat → Nat
  | 0 => g.leaves
  | l + 1 => g.counts.getD l 0

end MerkleTree

/- `struct merkle_line`; no index is `MERKLE_IDX_NONE`. -/
structure MerkleLine (H : Type) where
  level : Nat
  index : Option Nat
  stamp : Nat
  dirty : Bool
  verified : Bool
  img : MerkleNode H

/- What a device answers, and what becomes of it. -/
structure MerkleDevice (H D : Type) where
  read : D → Nat → Nat → Option (MerkleNode H) × D
  write : D → Nat → Nat → MerkleNode H → Bool × D
  writeRoot : D → H → D

structure Merkle (H D : Type) where
  lines : Nat → MerkleLine H
  clock : Nat
  root : H
  dev : D

section Model

variable {H B D : Type} [DecidableEq H]

namespace Merkle

def setLine (s : Merkle H D) (i : Nat) (line : MerkleLine H) : Merkle H D :=
  { s with lines := update s.lines i line }

/- `++g_merkle_clock`, in 32 bits. -/
def tick (s : Merkle H D) : Nat := (s.clock + 1) % 2 ^ 32

/- The line that holds a node. -/
def find (s : Merkle H D) (level index : Nat) : Option Nat :=
  firstIndex (fun i =>
      (s.lines i).index == some index && (s.lines i).level == level)
    merkleCacheLines

def touch (s : Merkle H D) (i : Nat) : Merkle H D :=
  { s.setLine i { s.lines i with stamp := s.tick } with clock := s.tick }

end Merkle

variable (dev : MerkleDevice H D)

def merkleFlushLine (s : Merkle H D) (i : Nat) : Bool × Merkle H D :=
  match (s.lines i).index with
  | none => (true, s)
  | some index =>
  let r := dev.write s.dev (s.lines i).level index (s.lines i).img
  if r.1 then (true, { s.setLine i { s.lines i with dirty := false } with dev := r.2 })
  else (false, { s with dev := r.2 })

/- The line to load into; a dirty one is written first. -/
def merkleVictim (s : Merkle H D) : Option Nat × Merkle H D :=
  match firstIndex (fun i => (s.lines i).index.isNone) merkleCacheLines with
  | some i => (some i, s)
  | none =>
  let v := oldest (fun i => (s.lines i).stamp) merkleCacheLines
  if (s.lines v).dirty then
    let r := merkleFlushLine dev s v
    if r.1 then (some v, r.2) else (none, r.2)
  else (some v, s)

/- A node is read into the line `v`. -/
def merkleLoad (s : Merkle H D) (v level index : Nat) : Option Nat × Merkle H D :=
  let r := dev.read s.dev level index
  match r.1 with
  | none =>
    (none,
      { s.setLine v
          { level := level
            index := none
            stamp := s.tick
            dirty := false
            verified := false
            img := (s.lines v).img } with
        clock := s.tick
        dev := r.2 })
  | some img =>
    (some v,
      { s.setLine v
          { level := level
            index := some index
            stamp := s.tick
            dirty := false
            verified := false
            img := img } with
        clock := s.tick
        dev := r.2 })

def merkleLineFor (s : Merkle H D) (level index : Nat) : Option Nat × Merkle H D :=
  match s.find level index with
  | some i => (some i, s.touch i)
  | none =>
    match merkleVictim dev s with
    | (none, s) => (none, s)
    | (some v, s) => merkleLoad dev s v level index

variable (h : TreeHash merkleFanout H B)

/-
  The hash that the node in line `i` must have is the one its
  parent has for it, or the root.
-/
def merkleChecks (s : Merkle H D) (top l index : Nat) (parent : Option Nat) (i : Nat) : Bool :=
  if l = top then h.root (s.lines i).img = s.root
  else
    match parent with
    | none => false
    | some p => h.node l index (s.lines i).img = (s.lines p).img (slot merkleFanout index)

/-
  The loop of `merkle_node`, from the top down to `level`;
  `n` is how far it is to go.
-/
def merkleWalk (top level index : Nat) : Nat → Option Nat → Merkle H D → Option Nat × Merkle H D
  | n, parent, s =>
    let l := level + n
    let place := index / merkleFanout ^ n
    match merkleLineFor dev s l place with
    | (none, s) => (none, s)
    | (some i, s) =>
    if (s.lines i).verified = false ∧ merkleChecks h s top l place parent i = false then (none, s)
    else
      let s := s.setLine i { s.lines i with verified := true }
      match n with
      | 0 => (some i, s)
      | n + 1 => merkleWalk top level index n (some i) s

variable (g : MerkleTree)

def merkleNode (s : Merkle H D) (level index : Nat) : Option Nat × Merkle H D :=
  if g.levels ≤ level ∨ g.width (level + 1) ≤ index then (none, s)
  else merkleWalk dev h (g.levels - 1) level index (g.levels - 1 - level) none s

/- `merkle_verify_leaf`: whether it returned 0. -/
def merkleVerifyLeaf (s : Merkle H D) (i : Nat) (b : B) : Bool × Merkle H D :=
  match merkleNode dev h g s 0 (i / merkleFanout) with
  | (none, s) => (false, s)
  | (some line, s) => (h.leaf i b = (s.lines line).img (slot merkleFanout i), s)

/-
  The loop of `merkle_update_leaf` at level `l` with `n` levels
  to go: `place` is the place of the child and `value` its new
  hash.
-/
def merkleUpdateFrom : Nat → Nat → Nat → H → Merkle H D → Bool × Merkle H D
  | 0, _, _, value, s => (true, { s with root := value, dev := dev.writeRoot s.dev value })
  | n + 1, l, place, value, s =>
    let parent := place / merkleFanout
    match merkleNode dev h g s l parent with
    | (none, s) => (false, s)
    | (some line, s) =>
    let img := update (s.lines line).img (slot merkleFanout place) value
    let s := s.setLine line { s.lines line with img := img, dirty := true }
    let value := if l + 1 = g.levels then h.root img
      else h.node l parent img
    merkleUpdateFrom n (l + 1) parent value s

def merkleUpdateLeaf (s : Merkle H D) (i : Nat) (b : B) : Bool × Merkle H D :=
  merkleUpdateFrom dev h g g.levels 0 i (h.leaf i b) s

/- The node blocks on the device, by level and place. -/
abbrev MerkleBlocks (H : Type) : Type := Nat → Nat → MerkleNode H

/- One turn of the loops of `merkle_build`: a node. -/
def merkleBuildNode (leaves : Nat → B) (l : Nat) (disk : MerkleBlocks H)
    (k : Nat) : MerkleBlocks H :=
  update disk l (update (disk l) k fun c =>
      let child := k * merkleFanout + c
      if child < g.width l then
        match l with
        | 0 => h.leaf child (leaves child)
        | l + 1 => h.node l child (disk l child)
      else h.zero)

/- A level of the tree, node by node. -/
def merkleBuildLevel (leaves : Nat → B) (disk : MerkleBlocks H) (l : Nat) : MerkleBlocks H :=
  (List.range (g.width (l + 1))).foldl (merkleBuildNode h g leaves l) disk

/- `merkle_build`: the nodes and the root. -/
def merkleBuild (leaves : Nat → B) (disk : MerkleBlocks H) : H × MerkleBlocks H :=
  let disk := (List.range g.levels).foldl (merkleBuildLevel h g leaves) disk
  (h.root (disk (g.levels - 1) 0), disk)

/- `merkle_cache_reset` on a volume with this root. -/
def merkleMounted (root : H) (d : D) : Merkle H D :=
  { lines := fun _ =>
      { level := 0
        index := none
        stamp := 0
        dirty := false
        verified := false
        img := fun _ => root }
    clock := 0
    root := root
    dev := d }

end Model

end Horus.Storage
