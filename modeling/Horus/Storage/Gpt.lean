import Horus.Lib.Bytes

/-
  The partition table of an installed disk (gpt.rs).

  The installer plans a layout and writes a table for it at
  each end of the disk; the kernel reads the table at the
  front to find the volume and the swap partition. Numbers are
  64 bits wide: arithmetic the source does not check wraps.
-/

namespace Horus.Storage

open Horus.Lib

def wrap64 (n : Nat) : Nat := n % 2 ^ 64

def mul64 (a b : Nat) : Nat := wrap64 (a * b)

def add64 (a b : Nat) : Nat := wrap64 (a + b)

def sub64 (a b : Nat) : Nat := wrap64 (a + 2 ^ 64 - b)

def checkedAdd (a b : Nat) : Option Nat := if a + b < 2 ^ 64 then some (a + b) else none

def checkedSub (a b : Nat) : Option Nat := if b ≤ a then some (a - b) else none

def checkedMul (a b : Nat) : Option Nat := if a * b < 2 ^ 64 then some (a * b) else none

/- Both steps of a reader that stops at the first failure. -/
theorem bind_eq_ok {ε α γ : Type} {x : Except ε α} {f : α → Except ε γ} {c : γ}
    (hOk : (x >>= f) = .ok c) : ∃ a, x = .ok a ∧ f a = .ok c := by
  cases x with
  | error => cases hOk
  | ok a => exact ⟨a, rfl, hOk⟩

/- The number of `n` bytes at `off`, if the buffer has them. -/
def rdLe (n : Nat) (b : List UInt8) (off : Nat) : Option Nat :=
  if off + n ≤ b.length then some (ofLe (slice b off n)) else none

def rdU32 (b : List UInt8) (off : Nat) : Option Nat := rdLe 4 b off

def rdU64 (b : List UInt8) (off : Nat) : Option Nat := rdLe 8 b off

def crcBit (crc : UInt32) : UInt32 :=
  if crc &&& 1 ≠ 0 then (crc >>> 1) ^^^ 0xEDB88320 else crc >>> 1

def crcByte (crc : UInt32) (b : UInt8) : UInt32 := Nat.repeat crcBit 8 (crc ^^^ b.toUInt32)

def crc32Update (crc : UInt32) (data : List UInt8) : UInt32 := data.foldl crcByte crc

def crc32 (data : List UInt8) : UInt32 := ~~~ crc32Update (~~~ 0) data

def horusVolumeType : List UInt8 :=
  [0x3e, 0x4a, 0x1c, 0x7b, 0x2d, 0x5f, 0x8a, 0x4e, 0x9c, 0x61, 0x0d, 0x2f, 0x3a, 0x4b, 0x5c, 0x6d]

def horusSwapType : List UInt8 :=
  [0x3e, 0x4a, 0x1c, 0x7b, 0x2d, 0x5f, 0x8a, 0x4e, 0x9c, 0x61, 0x0d, 0x2f, 0x3a, 0x4b, 0x5c, 0x6e]

def espType : List UInt8 :=
  [0x28, 0x73, 0x2a, 0xc1, 0x1f, 0xf8, 0xd2, 0x11, 0xba, 0x4b, 0x00, 0xa0, 0xc9, 0x3e, 0xc9, 0x3b]

/- The text `EFI PART`. -/
def efiPart : List UInt8 := [0x45, 0x46, 0x49, 0x20, 0x50, 0x41, 0x52, 0x54]

def sector : Nat := 512

def sectorsPerBlock : Nat := 8

def entrySize : Nat := 128

def tableEntries : Nat := 128

/- The length of the entry array. -/
def arrayBytes : Nat := tableEntries * entrySize

def leadBlocks : Nat := 256

def tailBlocks : Nat := 256

def espBlocks : Nat := 16384

def tableBytes : Nat := 5 * 4096

inductive GptError where
  | none
  | badHeader
  | badEntries
  | badEntriesCrc
  | noVolume
  | twoVolumes
  | badRange
  | noSwap
  | twoSwaps
  | swapOverlaps
  deriving DecidableEq, Repr

def GptError.code : GptError → Int
  | none => -1
  | badHeader => -2
  | badEntries => -3
  | badEntriesCrc => -4
  | noVolume => -5
  | twoVolumes => -6
  | badRange => -7
  | noSwap => -8
  | twoSwaps => -9
  | swapOverlaps => -10

----
-- Reading a Table
----

/- An inclusive range of sectors as base and count of blocks. -/
def volumeBlocks (first last firstUsable lastUsable tableEnd : Nat)
    (deviceBlocks : Nat) : Option (Nat × Nat) :=
  if first > last ∨ first < firstUsable ∨ last > lastUsable ∨ first < tableEnd then none
  else if first % sectorsPerBlock ≠ 0 then none
  else do
    let stop ← checkedAdd last 1
    if stop % sectorsPerBlock ≠ 0 then none
    else
      let base := first / sectorsPerBlock
      let count := (stop - first) / sectorsPerBlock
      let reach ← checkedAdd base count
      if count = 0 ∨ reach > deviceBlocks then none else some (base, count)

/- The fields of a header that the reader uses. -/
structure GptHeader where
  firstUsable : Nat
  lastUsable : Nat
  entriesLba : Nat
  num : Nat
  size : Nat
  entriesCrc : Nat
  deriving DecidableEq

def orError {α : Type} (e : GptError) : Option α → Except GptError α
  | some a => .ok a
  | none => .error e

@[simp] theorem orError_some {α : Type} (e : GptError) (a : α) : orError e (some a) = .ok a := rfl

@[simp] theorem ok_bind {α γ : Type} (a : α) (f : α → Except GptError γ) :
    (Except.ok a >>= f) = f a :=
  rfl

/- The checksum over a header, its own field taken as zero. -/
def headerCrc (hdr : List UInt8) (headerSize : Nat) : UInt32 :=
  let c := crc32Update (~~~ 0) (slice hdr 0 16)
  let c := crc32Update c (List.replicate 4 0)
  let c := crc32Update c (slice hdr 20 (headerSize - 20))
  ~~~ c

def gptHeader (hdr : List UInt8) : Except GptError GptHeader :=
  if slice hdr 0 8 ≠ efiPart then .error .none
  else do
    let headerSize ← orError .badHeader (rdU32 hdr 12)
    if headerSize < 92 ∨ sector < headerSize then .error .badHeader
    else
      let stored ← orError .badHeader (rdU32 hdr 16)
      if (headerCrc hdr headerSize).toNat ≠ stored then .error .badHeader
      else if rdU64 hdr 24 ≠ some 1 then .error .badHeader
      else
        let firstUsable ← orError .badHeader (rdU64 hdr 40)
        let lastUsable ← orError .badHeader (rdU64 hdr 48)
        let entriesLba ← orError .badHeader (rdU64 hdr 72)
        let num ← orError .badHeader (rdU32 hdr 80)
        let size ← orError .badHeader (rdU32 hdr 84)
        let entriesCrc ← orError .badHeader (rdU32 hdr 88)
        .ok
          { firstUsable := firstUsable
            lastUsable := lastUsable
            entriesLba := entriesLba
            num := num
            size := size
            entriesCrc := entriesCrc }

/- The entry array and the end of it, in bytes. -/
def gptEntries (buf : List UInt8) (h : GptHeader) : Except GptError (List UInt8 × Nat) :=
  if h.size ≠ entrySize ∨ h.num = 0 ∨ h.entriesLba < 2 then .error .badEntries
  else do
    let start ← orError .badEntries (checkedMul h.entriesLba sector)
    let span ← orError .badEntries (checkedMul h.num h.size)
    let stop ← orError .badEntries (checkedAdd start span)
    if buf.length < stop then .error .badEntries
    else
      let entries := slice buf start span
      if (crc32 entries).toNat ≠ h.entriesCrc then .error .badEntriesCrc else .ok (entries, stop)

/- The entries of an array of `num` entries. -/
def entryRows (entries : List UInt8) (num : Nat) : List (List UInt8) :=
  (List.range num).map fun i => slice entries (i * entrySize) entrySize

/- The loop over the entries; `found` is what it found so far. -/
def findRows (h : GptHeader) (tableEnd deviceBlocks : Nat) (ty : List UInt8) (two : GptError)
    (found : Option (Nat × Nat)) : List (List UInt8) → Except GptError (Option (Nat × Nat))
  | [] => .ok found
  | e :: rows =>
    if slice e 0 16 ≠ ty then findRows h tableEnd deviceBlocks ty two found rows
    else if found.isSome then .error two
    else do
      let first ← orError .badRange (rdU64 e 32)
      let last ← orError .badRange (rdU64 e 40)
      let range ← orError .badRange (volumeBlocks first last h.firstUsable h.lastUsable
          tableEnd deviceBlocks)
      findRows h tableEnd deviceBlocks ty two (some range) rows

def divCeil (a b : Nat) : Nat := (a + b - 1) / b

def findPart (buf : List UInt8) (deviceBlocks : Nat) (ty : List UInt8)
    (two : GptError) : Except GptError (Option (Nat × Nat)) :=
  if buf.length < 2 * sector then .error .none
  else do
    let h ← gptHeader (slice buf sector sector)
    let (entries, stop) ← gptEntries buf h
    findRows h (divCeil stop sector) deviceBlocks ty two none (entryRows entries h.num)

def findVolume (buf : List UInt8) (deviceBlocks : Nat) : Except GptError (Nat × Nat) := do
  let found ← findPart buf deviceBlocks horusVolumeType .twoVolumes
  orError .noVolume found

def rangesDisjoint (a na b nb : Nat) : Bool :=
  match checkedAdd a na, checkedAdd b nb with
  | some ea, some eb => ea ≤ b || eb ≤ a
  | _, _ => false

def findSwap (buf : List UInt8) (deviceBlocks : Nat) : Except GptError (Nat × Nat) := do
  let vol ← findVolume buf deviceBlocks
  let found ← findPart buf deviceBlocks horusSwapType .twoSwaps
  let swap ← orError .noSwap found
  if rangesDisjoint vol.1 vol.2 swap.1 swap.2 then .ok swap else .error .swapOverlaps

structure GptLayout where
  espBase : Nat
  espCount : Nat
  swapBase : Nat
  swapCount : Nat
  volumeBase : Nat
  volumeCount : Nat
  deriving DecidableEq

/- `volume = 0` asks for the rest of the device. -/
def plan (deviceBlocks swap volume minVolume : Nat) : Option GptLayout := do
  let swapBase ← checkedAdd leadBlocks espBlocks
  let volumeBase ← checkedAdd swapBase swap
  let limit ← checkedSub deviceBlocks tailBlocks
  let room ← checkedSub limit volumeBase
  let volumeCount := if volume = 0 then room else volume
  if volumeCount < minVolume ∨ volumeCount = 0 ∨ volumeCount > room then none
  else
    some
      { espBase := leadBlocks
        espCount := espBlocks
        swapBase := swapBase
        swapCount := swap
        volumeBase := volumeBase
        volumeCount := volumeCount }

----
-- Writing a Table
----

/- The code units of a name, all of them below 2^16. -/
def nameUnits (name : String) : List Nat := (name.toList.map Char.toNat).take 36

/- Each unit with its offset in the entry. -/
def nameFields (name : String) : List (Nat × List UInt8) :=
  (nameUnits name).mapIdx fun i c => (56 + 2 * i, leBytes 2 c)

def rangeFields (ty unique : List UInt8) (base count : Nat) : List (Nat × List UInt8) :=
  [(0, ty), (16, unique), (32, leBytes 8 (mul64 base sectorsPerBlock)),
    (40, leBytes 8 (sub64 (mul64 (add64 base count) sectorsPerBlock) 1))]

def entryBytes (e ty unique : List UInt8) (base count : Nat) (name : String) : List UInt8 :=
  putAll e (rangeFields ty unique base count ++ nameFields name)

/- What the two headers share. -/
structure HeaderCommon where
  firstUsable : Nat
  lastUsable : Nat
  disk : List UInt8
  entriesCrc : UInt32

/- The header's fields but for its own checksum. -/
def headerFields (my alt entriesLba : Nat) (c : HeaderCommon) : List (Nat × List UInt8) :=
  [(0, efiPart), (8, leBytes 4 0x00010000), (12, leBytes 4 92), (24, leBytes 8 my),
    (32, leBytes 8 alt),
    (40, leBytes 8 c.firstUsable),
    (48, leBytes 8 c.lastUsable),
    (56, c.disk),
    (72, leBytes 8 entriesLba),
    (80, leBytes 4 tableEntries),
    (84, leBytes 4 entrySize),
    (88, leBytes 4 c.entriesCrc.toNat)]

def headerBytes (h : List UInt8) (my alt entriesLba : Nat) (c : HeaderCommon) : List UInt8 :=
  let h := putAll h (headerFields my alt entriesLba c)
  put h 16 (leBytes 4 (crc32 (slice h 0 92)).toNat)

/- A GUID: sixteen bytes. -/
abbrev Guid : Type := { bytes : List UInt8 // bytes.length = 16 }

/- The unique GUIDs of the disk and of its partitions. -/
structure Guids where
  disk : Guid
  esp : Guid
  swap : Guid
  volume : Guid

inductive Side where
  | head
  | tail
  deriving DecidableEq

/- Overwrites entry `n` of the array. -/
def putEntry (entries : List UInt8) (n : Nat) (ty : List UInt8)
    (unique : Guid) (base count : Nat) (name : String) : List UInt8 :=
  put entries (n * entrySize) (entryBytes (slice entries (n * entrySize) entrySize) ty
      unique.1 base count name)

def entryArray (l : GptLayout) (guids : Guids) (entries : List UInt8) : List UInt8 :=
  let entries := putEntry entries 0 espType guids.esp l.espBase l.espCount "EFI system"
  if l.swapCount > 0 then
    let entries := putEntry entries 1 horusSwapType guids.swap l.swapBase l.swapCount "Horus swap"
    putEntry entries 2 horusVolumeType guids.volume l.volumeBase l.volumeCount "Horus volume"
  else putEntry entries 1 horusVolumeType guids.volume l.volumeBase l.volumeCount "Horus volume"

/- The numbers of one end of the disk. -/
structure SidePlace where
  entriesOffset : Nat
  headerOffset : Nat
  entriesLba : Nat
  my : Nat
  alt : Nat
  deriving DecidableEq

def tableSectors : Nat := arrayBytes / sector

def lastSector (deviceBlocks : Nat) : Nat := sub64 (mul64 deviceBlocks sectorsPerBlock) 1

def sidePlace (deviceBlocks : Nat) : Side → SidePlace
  | .head =>
    { entriesOffset := 1024
      headerOffset := 512
      entriesLba := 2
      my := 1
      alt := lastSector deviceBlocks }
  | .tail =>
    let last := lastSector deviceBlocks
    let tailFirst := sub64 (mul64 deviceBlocks sectorsPerBlock) (tableBytes / sector)
    let backupLba := sub64 last tableSectors
    { entriesOffset := mul64 (sub64 backupLba tailFirst) sector
      headerOffset := mul64 (sub64 last tailFirst) sector
      entriesLba := backupLba
      my := last
      alt := 1 }

/- One protective partition over the whole disk. -/
def mbrFields (last : Nat) : List (Nat × List UInt8) :=
  [(446, [0, 0, 2, 0, 0xEE, 0xFF, 0xFF, 0xFF]), (454, leBytes 4 1),
    (458, leBytes 4 (min last 0xFFFFFFFF)),
    (510, [0x55, 0xAA])]

/- The entries are written in place. -/
def withEntries (l : GptLayout) (guids : Guids) (p : SidePlace) (buf : List UInt8) : List UInt8 :=
  put buf p.entriesOffset (entryArray l guids (slice buf p.entriesOffset arrayBytes))

/- The checksum of the entries is taken from the buffer. -/
def sideCommon (deviceBlocks : Nat) (guids : Guids) (p : SidePlace)
    (buf : List UInt8) : HeaderCommon :=
  { firstUsable := 2 + tableSectors
    lastUsable := sub64 (sub64 (lastSector deviceBlocks) 1) tableSectors
    disk := guids.disk.1
    entriesCrc := crc32 (slice buf p.entriesOffset arrayBytes) }

def withHeader (deviceBlocks : Nat) (guids : Guids) (p : SidePlace)
    (buf : List UInt8) : List UInt8 :=
  put buf p.headerOffset (headerBytes (slice buf p.headerOffset 512) p.my p.alt
      p.entriesLba (sideCommon deviceBlocks guids p buf))

/- Only the front of the disk has a protective MBR. -/
def withMbr (deviceBlocks : Nat) (buf : List UInt8) : Side → List UInt8
  | .head => putAll buf (mbrFields (lastSector deviceBlocks))
  | .tail => buf

def buildSide (l : GptLayout) (deviceBlocks : Nat) (guids : Guids) (side : Side) : List UInt8 :=
  let p := sidePlace deviceBlocks side
  let buf := withEntries l guids p (List.replicate tableBytes 0)
  let buf := withHeader deviceBlocks guids p buf
  withMbr deviceBlocks buf side

end Horus.Storage
