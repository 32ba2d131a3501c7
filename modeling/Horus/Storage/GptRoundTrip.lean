import Horus.Storage.Gpt

/-
  What the installer partitions, the kernel finds.

  The table written at the front of the disk is read back
  field by field: the header passes its checks, the entry
  array has the checksum the header names, and the entry of a
  partition gives back the range of the layout. The table at
  the end of the disk carries the same array, with the two
  header positions exchanged.

  Main declarations:
    * `gptHeader_headerOf`, `holds_entryArray`
    * `findPart_buildSide`
    * `gpt_round_trip`
    * `gpt_large_device_refused`
-/

namespace Horus.Storage

open Horus.Lib

variable {n off v b c a k deviceBlocks : Nat} {bytes : List UInt8} {p : SidePlace} {l : GptLayout}
    {guids : Guids}

----
-- Entries
----

theorem wrap64_lt (n : Nat) : wrap64 n < 256 ^ 8 := Nat.mod_lt n (by decide)

theorem rdLe_of_slice {b : List UInt8}
    (hFits : off + n ≤ b.length) (hSlice : slice b off n = leBytes n v)
    (hValue : v < 256 ^ n) : rdLe n b off = some v := by
  rw [rdLe, if_pos hFits, hSlice, ofLe_leBytes_of_lt hValue]

/- A name stays behind the fields the reader uses. -/
theorem nameFields_within (name : String) : ∀ f ∈ nameFields name,
      56 ≤ f.1 ∧ f.1 + f.2.length ≤ entrySize := by
  intro f hMem
  obtain ⟨i, hIndex, rfl⟩ := List.mem_mapIdx.mp hMem
  have hUnits : (nameUnits name).length ≤ 36 := by
    simp only [nameUnits, List.length_take]
    omega
  simp only [length_leBytes, entrySize]
  omega

/- An unused entry. -/
def blankRow : List UInt8 := List.replicate entrySize 0

/- The entry of a partition. -/
def partRow (ty : List UInt8) (unique : Guid) (base count : Nat) (name : String) : List UInt8 :=
  entryBytes blankRow ty unique.1 base count name

section Entry

variable {ty : List UInt8} {unique : Guid} {base count : Nat} {name : String}
    (hType : ty.length = 16)

include hType

theorem rangeFields_fit : ∀ f ∈ rangeFields ty unique.1 base count, f.1 + f.2.length ≤ 48 := by
  simp [rangeFields, hType, unique.2]

theorem rangeFields_apart : (rangeFields ty unique.1 base count).Pairwise Apart := by
  simp [rangeFields, Apart, hType, unique.2]

theorem entryFields_fit : ∀ f ∈ rangeFields ty unique.1 base count ++ nameFields name,
    f.1 + f.2.length ≤ blankRow.length := by
  intro f hMem
  rw [blankRow, List.length_replicate]
  rcases List.mem_append.mp hMem with hRange | hName
  · exact (rangeFields_fit hType f hRange).trans (by decide)
  · exact (nameFields_within name f hName).2

theorem length_partRow : (partRow ty unique base count name).length = entrySize :=
  (length_putAll (entryFields_fit hType)).trans List.length_replicate

/- A field in front of the name is read back. -/
theorem slice_partRow (hField : (rangeFields ty unique.1 base count)[k]? = some (off, bytes))
    (hBytes : n = bytes.length) : slice (partRow ty unique base count name) off n = bytes := by
  have hMem := List.mem_of_getElem? hField
  have hFits : ∀ f ∈ rangeFields ty unique.1 base count ++ nameFields name,
      f.1 + f.2.length ≤ blankRow.length := entryFields_fit hType
  have hRange : ∀ f ∈ rangeFields ty unique.1 base count, f.1 + f.2.length ≤ blankRow.length :=
    fun f hMem => hFits f (List.mem_append_left _ hMem)
  have hEnd := rangeFields_fit hType _ hMem
  rw [partRow, entryBytes, putAll_append, slice_putAll_apart]
  · exact slice_putAll_of_mem hRange (rangeFields_apart hType) hMem hBytes
  · intro f' hName
    rw [length_putAll hRange]
    exact hFits f' (List.mem_append_right _ hName)
  · intro f' hName
    have := (nameFields_within name f' hName).1
    dsimp only at hEnd
    omega

theorem rdU64_partRow
    (hField : (rangeFields ty unique.1 base count)[k]? = some (off, leBytes 8 (wrap64 v))) :
    rdU64 (partRow ty unique base count name) off = some (wrap64 v) := by
  refine rdLe_of_slice ?_ (slice_partRow hType hField (length_leBytes ..).symm) (wrap64_lt v)
  have hEnd := rangeFields_fit hType _ (List.mem_of_getElem? hField)
  rw [length_leBytes] at hEnd
  rw [length_partRow hType]
  exact hEnd.trans (by decide)

end Entry

----
-- The Entry Array
----

def espRow (l : GptLayout) (guids : Guids) : List UInt8 :=
  partRow espType guids.esp l.espBase l.espCount "EFI system"

def swapRow (l : GptLayout) (guids : Guids) : List UInt8 :=
  partRow horusSwapType guids.swap l.swapBase l.swapCount "Horus swap"

def volumeRow (l : GptLayout) (guids : Guids) : List UInt8 :=
  partRow horusVolumeType guids.volume l.volumeBase l.volumeCount "Horus volume"

/- The entries of a layout that are in use. -/
def usedRows (l : GptLayout) (guids : Guids) : List (List UInt8) :=
  if l.swapCount > 0 then [espRow l guids, swapRow l guids, volumeRow l guids]
  else [espRow l guids, volumeRow l guids]

/- An array with these entries in use and the others blank. -/
structure Holds (entries : List UInt8) (rows : List (List UInt8)) : Prop where
  length : entries.length = arrayBytes
  row : ∀ j < tableEntries, slice entries (j * entrySize) entrySize = rows[j]?.getD blankRow

theorem holds_blank : Holds (List.replicate arrayBytes 0) [] where
  length := List.length_replicate
  row := by
    intro j hIndex
    apply slice_replicate
    simp only [arrayBytes, tableEntries, entrySize] at hIndex ⊢
    omega

variable {rows : List (List UInt8)} {entries : List UInt8}

/- One entry more. -/
theorem Holds.putEntry {ty : List UInt8} (hHolds : Holds entries rows)
    (hRoom : rows.length < tableEntries) (hType : ty.length = 16)
    (unique : Guid) (base count : Nat) (name : String) : Holds
      (putEntry entries rows.length ty unique base count name)
      (rows ++ [partRow ty unique base count name]) := by
  have hBlank : slice entries (rows.length * entrySize) entrySize =
        blankRow := by
    rw [hHolds.row _ hRoom]
    simp
  rw [Storage.putEntry, hBlank, ← partRow]
  generalize hPart : partRow ty unique base count name = part
  have hRow : part.length = entrySize := hPart ▸ length_partRow hType
  have hFits : rows.length * entrySize + part.length ≤ entries.length := by
    rw [hRow, hHolds.length]
    simp only [arrayBytes, tableEntries, entrySize] at hRoom ⊢
    omega
  refine ⟨(length_put hFits).trans hHolds.length, fun j hIndex => ?_⟩
  by_cases hSame : j = rows.length
  · rw [hSame, slice_put_self hFits hRow.symm]
    simp
  rw [slice_put_apart hFits, hHolds.row j hIndex, List.getElem?_append]
  · split
    · rfl
    · rw [List.getElem?_eq_none_iff.mpr (by omega), List.getElem?_eq_none_iff.mpr
          (by simp only [List.length_singleton]; omega)]
  · rw [hRow, entrySize]
    omega

theorem holds_entryArray (l : GptLayout) (guids : Guids) :
    Holds (entryArray l guids (List.replicate arrayBytes 0)) (usedRows l guids) := by
  have hEsp := holds_blank.putEntry (by decide) (rfl : espType.length = 16)
      guids.esp l.espBase l.espCount "EFI system"
  unfold entryArray usedRows
  split
  · have hSwap := hEsp.putEntry (by simp [tableEntries]) (rfl : horusSwapType.length = 16)
        guids.swap l.swapBase l.swapCount "Horus swap"
    exact hSwap.putEntry (by simp [tableEntries]) rfl guids.volume _ _ "Horus volume"
  · exact hEsp.putEntry (by simp [tableEntries]) rfl guids.volume _ _ "Horus volume"

/- The rows of the array, the blank ones at the end. -/
theorem Holds.entryRows (hHolds : Holds entries rows) (hRoom : rows.length ≤ tableEntries) :
    entryRows entries tableEntries =
      rows ++ List.replicate (tableEntries - rows.length) blankRow := by
  apply List.ext_getElem?
  intro j
  rw [Storage.entryRows, List.getElem?_map]
  by_cases hIndex : j < tableEntries
  · rw [List.getElem?_range hIndex, Option.map_some, hHolds.row j hIndex, List.getElem?_append]
    split
    · rename_i hRow
      rw [List.getElem?_eq_getElem hRow]
      rfl
    · rw [List.getElem?_eq_none_iff.mpr (by omega), List.getElem?_replicate, if_pos (by omega)]
      rfl
  · rw [List.getElem?_eq_none_iff.mpr (by simp only [List.length_range]; omega),
      List.getElem?_eq_none_iff.mpr
        (by simp only [List.length_append, List.length_replicate]; omega)]
    rfl

section Search

variable {h : GptHeader} {tableEnd deviceBlocks : Nat} {ty : List UInt8} {two : GptError}

theorem findRows_none (found : Option (Nat × Nat)) (hOther : ∀ e ∈ rows, slice e 0 16 ≠ ty) :
    findRows h tableEnd deviceBlocks ty two found rows = .ok found := by
  induction rows with
  | nil => rfl
  | cons e _ ih =>
    rw [findRows, if_pos (hOther e List.mem_cons_self)]
    exact ih fun e' hMem => hOther e' (List.mem_cons_of_mem e hMem)

/- The range the reader computes from an entry. -/
def rowRange (h : GptHeader) (tableEnd deviceBlocks base count : Nat) : Option (Nat × Nat) :=
  volumeBlocks (mul64 base sectorsPerBlock) (sub64 (mul64 (add64 base count) sectorsPerBlock) 1)
    h.firstUsable h.lastUsable tableEnd deviceBlocks

/- The only entry of its type. -/
theorem findRows_partRow (hType : ty.length = 16)
    (unique : Guid) (base count : Nat) (name : String) (hOther : ∀ e ∈ rows, slice e 0 16 ≠ ty) :
    findRows h tableEnd deviceBlocks ty two none (partRow ty unique base count name :: rows) =
      (orError .badRange (rowRange h tableEnd deviceBlocks base count)).map some := by
  have hOwn : slice (partRow ty unique base count name) 0 16 = ty :=
    slice_partRow hType (k := 0) rfl hType.symm
  have hFirst : rdU64 (partRow ty unique base count name) 32 = some (mul64 base sectorsPerBlock) :=
    rdU64_partRow hType (k := 2) rfl
  have hLast : rdU64 (partRow ty unique base count name) 40 = some
      (sub64 (mul64 (add64 base count) sectorsPerBlock) 1) :=
    rdU64_partRow hType (k := 3) rfl
  unfold findRows rowRange
  rw [hOwn, hFirst, hLast, if_neg (not_not.mpr rfl),
    if_neg (by decide), orError_some, orError_some, ok_bind, ok_bind]
  generalize volumeBlocks (mul64 base sectorsPerBlock)
    (sub64 (mul64 (add64 base count) sectorsPerBlock) 1)
    h.firstUsable h.lastUsable tableEnd deviceBlocks = range
  cases range with
  | none => rfl
  | some range => exact findRows_none (some range) hOther

end Search

----
-- The Header
----

theorem crc32Update_append (crc : UInt32) (a b : List UInt8) :
    crc32Update crc (a ++ b) = crc32Update (crc32Update crc a) b :=
  List.foldl_append

/- The entry array of a layout. -/
def arrayOf (l : GptLayout) (guids : Guids) : List UInt8 :=
  entryArray l guids (List.replicate arrayBytes 0)

/- What the headers of a layout share. -/
def commonOf (l : GptLayout) (deviceBlocks : Nat) (guids : Guids) : HeaderCommon :=
  { firstUsable := 2 + tableSectors
    lastUsable := sub64 (sub64 (lastSector deviceBlocks) 1) tableSectors
    disk := guids.disk.1
    entriesCrc := crc32 (arrayOf l guids) }

def headerOf (l : GptLayout) (deviceBlocks : Nat) (guids : Guids) (p : SidePlace) : List UInt8 :=
  headerBytes (List.replicate 512 0) p.my p.alt p.entriesLba (commonOf l deviceBlocks guids)

def fieldsOf (l : GptLayout) (deviceBlocks : Nat) (guids : Guids) (p : SidePlace) :
    List (Nat × List UInt8) :=
  headerFields p.my p.alt p.entriesLba (commonOf l deviceBlocks guids)

/- The header before its checksum is put in. -/
def bodyOf (l : GptLayout) (deviceBlocks : Nat) (guids : Guids) (p : SidePlace) : List UInt8 :=
  putAll (List.replicate 512 0) (fieldsOf l deviceBlocks guids p)

theorem fieldsOf_fit : ∀ f ∈ fieldsOf l deviceBlocks guids p, f.1 + f.2.length ≤ 92 := by
  simp [fieldsOf, headerFields, efiPart, commonOf, guids.disk.2]

theorem fieldsOf_apart : (fieldsOf l deviceBlocks guids p).Pairwise Apart := by
  simp [fieldsOf, headerFields, efiPart, commonOf, Apart, guids.disk.2]

theorem fieldsOf_spare :
    ∀ f ∈ fieldsOf l deviceBlocks guids p, 16 + 4 ≤ f.1 ∨ f.1 + f.2.length ≤ 16 := by
  simp [fieldsOf, headerFields, efiPart, commonOf, guids.disk.2]

theorem bodyOf_fit : ∀ f ∈ fieldsOf l deviceBlocks guids p,
    f.1 + f.2.length ≤ (List.replicate 512 (0 : UInt8)).length := by
  intro f hMem
  rw [List.length_replicate]
  exact (fieldsOf_fit f hMem).trans (by decide)

theorem length_bodyOf : (bodyOf l deviceBlocks guids p).length = 512 :=
  (length_putAll bodyOf_fit).trans List.length_replicate

theorem checksum_fits (v : Nat) :
    16 + (leBytes 4 v).length ≤ (bodyOf l deviceBlocks guids p).length := by
  rw [length_bodyOf, length_leBytes]
  decide

theorem length_headerOf : (headerOf l deviceBlocks guids p).length = 512 :=
  (length_put (checksum_fits _)).trans length_bodyOf

/- Every field but the checksum is read back. -/
theorem slice_headerOf (hField : (fieldsOf l deviceBlocks guids p)[k]? = some (off, bytes))
    (hBytes : n = bytes.length) : slice (headerOf l deviceBlocks guids p) off n = bytes := by
  have hMem := List.mem_of_getElem? hField
  have hSpare := fieldsOf_spare _ hMem
  refine (slice_put_apart (checksum_fits _) ?_).trans
    (slice_putAll_of_mem bodyOf_fit fieldsOf_apart hMem hBytes)
  rw [length_leBytes]
  dsimp only at hSpare
  omega

theorem rdLe_headerOf (hField : (fieldsOf l deviceBlocks guids p)[k]? = some (off, leBytes n v))
    (hValue : v < 256 ^ n) : rdLe n (headerOf l deviceBlocks guids p) off = some v := by
  refine rdLe_of_slice ?_ (slice_headerOf hField (length_leBytes n v).symm) hValue
  have hEnd := fieldsOf_fit _ (List.mem_of_getElem? hField)
  rw [length_leBytes] at hEnd
  rw [length_headerOf]
  exact hEnd.trans (by decide)

/- The checksum that is stored is the one the reader computes. -/
theorem headerCrc_headerOf : headerCrc (headerOf l deviceBlocks guids p) 92 =
    crc32 (slice (bodyOf l deviceBlocks guids p) 0 92) := by
  have hZero : slice (bodyOf l deviceBlocks guids p) 16 4 = List.replicate 4 0 :=
    (slice_putAll_apart bodyOf_fit fieldsOf_spare).trans (slice_replicate (by decide))
  change headerCrc (put (bodyOf l deviceBlocks guids p) 16 _) 92 = _
  rw [headerCrc, slice_put_apart (checksum_fits _) (.inl (by decide)),
    slice_put_apart (checksum_fits _) (.inr (by rw [length_leBytes])),
    ← hZero, ← crc32Update_append, ← crc32Update_append,
    ← List.append_assoc, slice_append_slice _ 0 16 4, slice_append_slice _ 0 20 72, crc32]

theorem rdU32_crc_headerOf : rdU32 (headerOf l deviceBlocks guids p) 16 =
    some (headerCrc (headerOf l deviceBlocks guids p) 92).toNat := by
  refine rdLe_of_slice ?_ ?_ (UInt32.toNat_lt _)
  · rw [length_headerOf]
    decide
  · rw [headerCrc_headerOf]
    exact slice_put_self (checksum_fits _) (length_leBytes ..).symm

/- The header of the primary table as the reader sees it. -/
def readHeader (l : GptLayout) (deviceBlocks : Nat) (guids : Guids) : GptHeader :=
  { firstUsable := 2 + tableSectors
    lastUsable := sub64 (sub64 (lastSector deviceBlocks) 1) tableSectors
    entriesLba := 2
    num := tableEntries
    size := entrySize
    entriesCrc := (crc32 (arrayOf l guids)).toNat }

/- It passes the reader's checks. -/
theorem gptHeader_headerOf :
    gptHeader (headerOf l deviceBlocks guids (sidePlace deviceBlocks .head)) =
      .ok (readHeader l deviceBlocks guids) := by
  generalize hHeader : headerOf l deviceBlocks guids (sidePlace deviceBlocks .head) = hdr
  have hText : slice hdr 0 8 = efiPart := hHeader ▸ slice_headerOf (k := 0) rfl rfl
  have hSize : rdU32 hdr 12 = some 92 := hHeader ▸ rdLe_headerOf (k := 2) rfl (by decide)
  have hMy : rdU64 hdr 24 = some 1 := hHeader ▸ rdLe_headerOf (k := 3) rfl (by decide)
  have hFirst : rdU64 hdr 40 = some (2 + tableSectors) :=
    hHeader ▸ rdLe_headerOf (k := 5) rfl (by decide)
  have hLast : rdU64 hdr 48 = some (readHeader l deviceBlocks guids).lastUsable :=
    hHeader ▸ rdLe_headerOf (k := 6) rfl (wrap64_lt _)
  have hLba : rdU64 hdr 72 = some 2 := hHeader ▸ rdLe_headerOf (k := 8) rfl (by decide)
  have hNum : rdU32 hdr 80 = some tableEntries := hHeader ▸ rdLe_headerOf (k := 9) rfl (by decide)
  have hEntry : rdU32 hdr 84 = some entrySize := hHeader ▸ rdLe_headerOf (k := 10) rfl (by decide)
  have hCrc : rdU32 hdr 88 = some (crc32 (arrayOf l guids)).toNat :=
    hHeader ▸ rdLe_headerOf (k := 11) rfl (UInt32.toNat_lt _)
  have hOwn : rdU32 hdr 16 = some (headerCrc hdr 92).toNat := hHeader ▸ rdU32_crc_headerOf
  rw [gptHeader, hText, hSize, hOwn, hMy, hFirst, hLast, hLba, hNum, hEntry, hCrc]
  simp only [orError_some, ok_bind]
  rw [if_neg (by simp), if_neg (by decide), if_neg (by simp), if_neg (by simp)]
  rfl

----
-- The Two Ends of the Disk
----

/- Header and array are behind the first sector and apart. -/
structure PlaceOk (p : SidePlace) : Prop where
  header : 512 ≤ p.headerOffset
  headerEnd : p.headerOffset + 512 ≤ tableBytes
  entries : 512 ≤ p.entriesOffset
  entriesEnd : p.entriesOffset + arrayBytes ≤ tableBytes
  apart : p.headerOffset + 512 ≤ p.entriesOffset ∨ p.entriesOffset + arrayBytes ≤ p.headerOffset

/- A table whose header and array are where `p` says. -/
structure TableAt (l : GptLayout) (deviceBlocks : Nat) (guids : Guids) (p : SidePlace)
    (buf : List UInt8) : Prop where
  length : buf.length = tableBytes
  entries : slice buf p.entriesOffset arrayBytes = arrayOf l guids
  header : slice buf p.headerOffset 512 = headerOf l deviceBlocks guids p

theorem length_arrayOf : (arrayOf l guids).length = arrayBytes := (holds_entryArray l guids).length

/- The array first, then the header, in a blank buffer. -/
theorem tableAt_put (hPlace : PlaceOk p) : TableAt l deviceBlocks guids p
    (withHeader deviceBlocks guids p (withEntries l guids p (List.replicate tableBytes 0))) := by
  have hFits : p.entriesOffset + (arrayOf l guids).length ≤
      (List.replicate tableBytes (0 : UInt8)).length := by
    rw [length_arrayOf, List.length_replicate]
    exact hPlace.entriesEnd
  rw [withEntries, slice_replicate hPlace.entriesEnd, ← arrayOf]
  have hEntries := slice_put_self hFits length_arrayOf.symm
  have hSpare := slice_put_apart hFits (by rw [length_arrayOf]; exact hPlace.apart)
  rw [slice_replicate hPlace.headerEnd] at hSpare
  have hLength := length_put hFits
  rw [List.length_replicate] at hLength
  generalize put (List.replicate tableBytes 0) p.entriesOffset (arrayOf l guids) = buf
    at hEntries hSpare hLength ⊢
  have hCommon : sideCommon deviceBlocks guids p buf = commonOf l deviceBlocks guids := by
    rw [sideCommon, hEntries, commonOf]
  rw [withHeader, hCommon, hSpare, ← headerOf]
  have hFits' : p.headerOffset + (headerOf l deviceBlocks guids p).length ≤ buf.length := by
    rw [hLength, length_headerOf]
    exact hPlace.headerEnd
  refine ⟨(length_put hFits').trans hLength, ?_, slice_put_self hFits' length_headerOf.symm⟩
  rw [slice_put_apart hFits', hEntries]
  rw [length_headerOf]
  exact hPlace.apart.symm

theorem TableAt.mbr {buf : List UInt8} (hPlace : PlaceOk p)
    (hTable : TableAt l deviceBlocks guids p buf) (last : Nat) :
    TableAt l deviceBlocks guids p (putAll buf (mbrFields last)) := by
  have hWithin : ∀ f ∈ mbrFields last, f.1 + f.2.length ≤ 512 := by
    simp [mbrFields]
  have hFits : ∀ f ∈ mbrFields last, f.1 + f.2.length ≤ buf.length := by
    intro f hMem
    rw [hTable.length]
    exact (hWithin f hMem).trans (by decide)
  have hBehind : ∀ {i n}, 512 ≤ i → slice (putAll buf (mbrFields last)) i n = slice buf i n :=
    fun hFrom => slice_putAll_apart hFits fun f hMem => .inr ((hWithin f hMem).trans hFrom)
  exact ⟨(length_putAll hFits).trans hTable.length, (hBehind hPlace.entries).trans hTable.entries,
    (hBehind hPlace.header).trans hTable.header⟩

theorem tableAt_buildSide {side : Side} (hPlace : PlaceOk (sidePlace deviceBlocks side)) :
    TableAt l deviceBlocks guids (sidePlace deviceBlocks side)
      (buildSide l deviceBlocks guids side) := by
  have hTable : TableAt l deviceBlocks guids _ _ := tableAt_put hPlace
  cases side with
  | head => exact hTable.mbr hPlace (lastSector deviceBlocks)
  | tail => exact hTable

/- The table at the front, with its numbers. -/
theorem tableAt_head (l : GptLayout) (deviceBlocks : Nat) (guids : Guids) :
    TableAt l deviceBlocks guids (sidePlace deviceBlocks .head)
      (buildSide l deviceBlocks guids .head) := by
  refine tableAt_buildSide ⟨?_, ?_, ?_, ?_, .inl ?_⟩ <;>
    simp only [sidePlace, tableBytes, arrayBytes, tableEntries, entrySize] <;> decide

theorem gptEntries_buildSide :
    gptEntries (buildSide l deviceBlocks guids .head) (readHeader l deviceBlocks guids) =
      .ok (arrayOf l guids, 1024 + arrayBytes) := by
  have hTable := tableAt_head l deviceBlocks guids
  have hEntries : slice _ 1024 arrayBytes = arrayOf l guids := hTable.entries
  have hStart : checkedMul (readHeader l deviceBlocks guids).entriesLba sector = some 1024 := by
    simp [checkedMul, readHeader, sector]
  have hSpan : checkedMul (readHeader l deviceBlocks guids).num
        (readHeader l deviceBlocks guids).size = some arrayBytes := by
    change checkedMul tableEntries entrySize = some arrayBytes
    decide
  have hCrc : (crc32 (arrayOf l guids)).toNat = (readHeader l deviceBlocks guids).entriesCrc := rfl
  have hStop : checkedAdd 1024 arrayBytes = some (1024 + arrayBytes) := by
    simp [checkedAdd, arrayBytes, tableEntries, entrySize]
  unfold gptEntries
  rw [if_neg (by simp [readHeader, tableEntries]), hStart,
    orError_some, ok_bind, hSpan, orError_some, ok_bind, hStop,
    orError_some, ok_bind, if_neg (by rw [hTable.length]; decide),
    hEntries, if_neg (not_not.mpr hCrc)]

/- The search runs over the entries of the layout. -/
theorem findPart_buildSide (reader : Nat) (ty : List UInt8) (two : GptError) :
    findPart (buildSide l deviceBlocks guids .head) reader ty two =
      findRows (readHeader l deviceBlocks guids) 34 reader ty two none
        (usedRows l guids ++ List.replicate
            (tableEntries - (usedRows l guids).length) blankRow) := by
  have hTable := tableAt_head l deviceBlocks guids
  have hHeader : slice _ sector sector = headerOf l deviceBlocks guids _ := hTable.header
  have hRoom : (usedRows l guids).length ≤ tableEntries := by
    unfold usedRows
    split <;> simp [tableEntries]
  unfold findPart
  rw [if_neg (by rw [hTable.length]; decide), hHeader,
    gptHeader_headerOf, ok_bind, gptEntries_buildSide, ok_bind]
  simp only
  have hEnd : divCeil (1024 + arrayBytes) sector = 34 := by decide
  have hNum : (readHeader l deviceBlocks guids).num = tableEntries := rfl
  rw [hEnd, hNum, arrayOf, (holds_entryArray l guids).entryRows hRoom]

theorem slice_type_blank {ty : List UInt8} (hUsed : List.replicate 16 0 ≠ ty) (n : Nat) :
    ∀ e ∈ List.replicate n blankRow, slice e 0 16 ≠ ty := by
  intro e hMem
  rw [List.eq_of_mem_replicate hMem, blankRow, slice_replicate (by decide)]
  exact hUsed

theorem slice_type_part {ty ty' : List UInt8} {unique : Guid} {base count : Nat} {name : String}
    (hType : ty.length = 16) (hOther : ty ≠ ty') :
    slice (partRow ty unique base count name) 0 16 ≠ ty' := by
  rw [slice_partRow hType (k := 0) rfl hType.symm]
  exact hOther

/- The search for the volume ends at its entry. -/
theorem findPart_volume (reader : Nat) :
    findPart (buildSide l deviceBlocks guids .head) reader horusVolumeType .twoVolumes =
      (orError .badRange (rowRange (readHeader l deviceBlocks guids) 34 reader
          l.volumeBase l.volumeCount)).map some := by
  have hEsp : slice (espRow l guids) 0 16 ≠ horusVolumeType := slice_type_part rfl (by decide)
  have hSwap : slice (swapRow l guids) 0 16 ≠ horusVolumeType := slice_type_part rfl (by decide)
  rw [findPart_buildSide]
  unfold usedRows
  split
  · simp only [List.cons_append, List.nil_append]
    rw [findRows, if_pos hEsp, findRows, if_pos hSwap, volumeRow]
    exact findRows_partRow rfl guids.volume _ _ _ (slice_type_blank (by decide) _)
  · simp only [List.cons_append, List.nil_append]
    rw [findRows, if_pos hEsp, volumeRow]
    exact findRows_partRow rfl guids.volume _ _ _ (slice_type_blank (by decide) _)

/- So does the search for swap, if there is an entry for it. -/
theorem findPart_swap (reader : Nat) :
    findPart (buildSide l deviceBlocks guids .head) reader horusSwapType .twoSwaps =
      if l.swapCount > 0 then
        (orError .badRange (rowRange (readHeader l deviceBlocks guids) 34 reader
            l.swapBase l.swapCount)).map some
      else
        .ok none := by
  have hEsp : slice (espRow l guids) 0 16 ≠ horusSwapType := slice_type_part rfl (by decide)
  have hVolume : ∀ n, ∀ e ∈ volumeRow l guids :: List.replicate n blankRow,
      slice e 0 16 ≠ horusSwapType := fun n => List.forall_mem_cons.mpr
    ⟨slice_type_part rfl (by decide), slice_type_blank (by decide) n⟩
  rw [findPart_buildSide]
  unfold usedRows
  split
  · simp only [List.cons_append, List.nil_append]
    rw [findRows, if_pos hEsp, swapRow]
    exact findRows_partRow rfl guids.swap _ _ _ (hVolume _)
  · simp only [List.cons_append, List.nil_append]
    rw [findRows, if_pos hEsp]
    exact findRows_none _ (hVolume _)

theorem checkedAdd_eq_some (hSum : checkedAdd a b = some c) : c = a + b := by
  unfold checkedAdd at hSum
  split at hSum
  · exact (Option.some.inj hSum).symm
  · cases hSum

theorem checkedSub_eq_some (hRest : checkedSub a b = some c) : b ≤ a ∧ c = a - b := by
  unfold checkedSub at hRest
  split at hRest
  · rename_i hLess
    exact ⟨hLess, (Option.some.inj hRest).symm⟩
  · cases hRest

/- What a plan promises. -/
theorem plan_bounds {swap volume minVolume : Nat}
    (hPlan : plan deviceBlocks swap volume minVolume = some l) :
    l.swapBase = 16640 ∧ l.swapCount = swap ∧ l.volumeBase = 16640 + swap ∧ 0 < l.volumeCount ∧
      l.volumeBase + l.volumeCount + 256 ≤ deviceBlocks := by
  unfold plan at hPlan
  simp only [Option.bind_eq_bind, Option.bind_eq_some_iff] at hPlan
  obtain ⟨swapBase, hSwap, volumeBase, hVolume, limit, hLimit, room, hRoom, hRest⟩ := hPlan
  have hSwapBase := checkedAdd_eq_some hSwap
  have hVolumeBase := checkedAdd_eq_some hVolume
  have hLimit' := checkedSub_eq_some hLimit
  have hRoom' := checkedSub_eq_some hRoom
  simp only [leadBlocks, espBlocks] at hSwapBase
  simp only [tailBlocks] at hLimit'
  generalize (if volume = 0 then room else volume) = volumeCount at hRest
  split at hRest
  · cases hRest
  · cases hRest
    dsimp only
    omega

/- Within a device of this size no number wraps. -/
theorem rowRange_eq {base count : Nat} (hDevice : deviceBlocks < 2 ^ 61)
    (hBase : 256 ≤ base) (hCount : 0 < count) (hEnd : base + count + 256 ≤ deviceBlocks) :
    rowRange (readHeader l deviceBlocks guids) 34 deviceBlocks base count = some (base, count) := by
  have hFirst : mul64 base sectorsPerBlock = base * 8 := by
    simp only [mul64, wrap64, sectorsPerBlock]
    omega
  have hLast : sub64 (mul64 (add64 base count) sectorsPerBlock) 1 = (base + count) * 8 - 1 := by
    simp only [sub64, mul64, add64, wrap64, sectorsPerBlock]
    omega
  have hUsable : (readHeader l deviceBlocks guids).lastUsable = deviceBlocks * 8 - 34 := by
    simp only [readHeader, lastSector, sub64, mul64, wrap64,
      sectorsPerBlock, tableSectors, arrayBytes, tableEntries,
      entrySize, sector]
    omega
  have hFront : (readHeader l deviceBlocks guids).firstUsable = 34 := by
    simp [readHeader, tableSectors, arrayBytes, tableEntries, entrySize, sector]
  have hStop : checkedAdd ((base + count) * 8 - 1) 1 = some ((base + count) * 8) := by
    have hSum : (base + count) * 8 - 1 + 1 = (base + count) * 8 := by
      omega
    rw [checkedAdd, hSum, if_pos (by omega)]
  have hReach : checkedAdd base count = some (base + count) := by
    unfold checkedAdd
    rw [if_pos (by omega)]
  have hBlocks : base * 8 / 8 = base := by omega
  have hSize : ((base + count) * 8 - base * 8) / 8 = count := by
    omega
  rw [rowRange, hFirst, hLast, hUsable, hFront]
  simp only [volumeBlocks, sectorsPerBlock, hStop,
    Option.bind_eq_bind, Option.bind_some, hBlocks, hSize, hReach]
  rw [if_neg (by omega), if_neg (by omega), if_neg (by omega), if_neg (by omega)]

----
-- The Round Trip
----

/-
  The header fields that do not depend on the end of the disk:
  text, revision, size, usable range, disk, number and size of
  the entries, checksum of the entries.
-/
def sharedFields : List (Nat × Nat) :=
  [(0, 8), (8, 4), (12, 4), (40, 8), (48, 8), (56, 16), (80, 4), (84, 4), (88, 4)]

/-
  The two ends of a disk carry the same entry array and agree
  in the header but for the positions: each names its own
  sector, the other's, and where its array is. The array of
  the backup is seven sectors into the last forty.
-/
structure Mirrored (deviceBlocks : Nat) (head tail : List UInt8) : Prop where
  entries : slice tail 3584 arrayBytes = slice head 1024 arrayBytes
  shared : ∀ f ∈ sharedFields, slice (slice tail 19968 512) f.1 f.2 =
        slice (slice head 512 512) f.1 f.2
  my : slice (slice tail 19968 512) 24 8 = slice (slice head 512 512) 32 8
  alt : slice (slice tail 19968 512) 32 8 = slice (slice head 512 512) 24 8
  last : rdU64 (slice tail 19968 512) 24 = some (deviceBlocks * 8 - 1)
  lba : rdU64 (slice tail 19968 512) 72 = some (deviceBlocks * 8 - 40 + 7)
  crc : rdU32 (slice tail 19968 512) 16 = some (headerCrc (slice tail 19968 512) 92).toNat

theorem sidePlace_tail (hLeast : 5 ≤ deviceBlocks)
    (hDevice : deviceBlocks < 2 ^ 61) : sidePlace deviceBlocks .tail =
      { entriesOffset := 3584
        headerOffset := 19968
        entriesLba := deviceBlocks * 8 - 33
        my := deviceBlocks * 8 - 1
        alt := 1 } := by
  have hSectors : mul64 deviceBlocks sectorsPerBlock = deviceBlocks * 8 := by
    simp only [mul64, wrap64, sectorsPerBlock]
    omega
  have hLast : lastSector deviceBlocks = deviceBlocks * 8 - 1 := by
    rw [lastSector, hSectors, sub64, wrap64]
    omega
  have hFirst : sub64 (deviceBlocks * 8) (tableBytes / sector) = deviceBlocks * 8 - 40 := by
    simp only [sub64, wrap64, tableBytes, sector]
    omega
  have hBackup : sub64 (deviceBlocks * 8 - 1) tableSectors = deviceBlocks * 8 - 33 := by
    simp only [sub64, wrap64, tableSectors, arrayBytes, tableEntries, entrySize, sector]
    omega
  have hEntries : sub64 (deviceBlocks * 8 - 33) (deviceBlocks * 8 - 40) = 7 := by
    simp only [sub64, wrap64]
    omega
  have hHeader : sub64 (deviceBlocks * 8 - 1) (deviceBlocks * 8 - 40) = 39 := by
    simp only [sub64, wrap64]
    omega
  simp only [sidePlace, hLast, hSectors, hFirst, hBackup, hEntries, hHeader, SidePlace.mk.injEq]
  decide

theorem shared_headerOf (p p' : SidePlace) : ∀ f ∈ sharedFields,
    slice (headerOf l deviceBlocks guids p) f.1 f.2 =
      slice (headerOf l deviceBlocks guids p') f.1 f.2 := by
  have hField : ∀ {k off n : Nat} {bytes : List UInt8}, (fieldsOf l deviceBlocks guids p)[k]? = some (off, bytes) →
      (fieldsOf l deviceBlocks guids p')[k]? = some (off, bytes) → n = bytes.length →
      slice (headerOf l deviceBlocks guids p) off n = slice (headerOf l deviceBlocks guids p') off n :=
    fun hHere hThere hBytes =>
      (slice_headerOf hHere hBytes).trans (slice_headerOf hThere hBytes).symm
  intro f hMem
  simp only [sharedFields, List.mem_cons, List.not_mem_nil, or_false] at hMem
  rcases hMem with rfl | rfl | rfl | rfl | rfl | rfl | rfl | rfl | rfl
  · exact hField (k := 0) rfl rfl rfl
  · exact hField (k := 1) rfl rfl rfl
  · exact hField (k := 2) rfl rfl rfl
  · exact hField (k := 5) rfl rfl rfl
  · exact hField (k := 6) rfl rfl rfl
  · exact hField (k := 7) rfl rfl guids.disk.2.symm
  · exact hField (k := 9) rfl rfl rfl
  · exact hField (k := 10) rfl rfl rfl
  · exact hField (k := 11) rfl rfl rfl

theorem slice_my : slice (headerOf l deviceBlocks guids p) 24 8 = leBytes 8 p.my :=
  slice_headerOf (k := 3) rfl rfl

theorem slice_alt : slice (headerOf l deviceBlocks guids p) 32 8 = leBytes 8 p.alt :=
  slice_headerOf (k := 4) rfl rfl

theorem mirrored_buildSide (l : GptLayout) (guids : Guids)
    (hLeast : 5 ≤ deviceBlocks) (hDevice : deviceBlocks < 2 ^ 61) :
    Mirrored deviceBlocks (buildSide l deviceBlocks guids .head)
      (buildSide l deviceBlocks guids .tail) := by
  have hPlace := sidePlace_tail hLeast hDevice
  have hTail : TableAt l deviceBlocks guids (sidePlace deviceBlocks .tail)
      (buildSide l deviceBlocks guids .tail) := by
    apply tableAt_buildSide
    rw [hPlace]
    refine ⟨?_, ?_, ?_, ?_, .inr ?_⟩ <;>
      simp only [tableBytes, arrayBytes, tableEntries, entrySize] <;> decide
  have hHead := tableAt_head l deviceBlocks guids
  have hHeadHeader : slice _ 512 512 = headerOf l deviceBlocks guids _ := hHead.header
  have hHeadEntries : slice _ 1024 arrayBytes = arrayOf l guids := hHead.entries
  rw [hPlace] at hTail
  have hTailHeader : slice _ 19968 512 = headerOf l deviceBlocks guids _ := hTail.header
  have hTailEntries : slice _ 3584 arrayBytes = arrayOf l guids := hTail.entries
  have hAlt : lastSector deviceBlocks = deviceBlocks * 8 - 1 := by
    simp only [lastSector, sub64, mul64, wrap64, sectorsPerBlock]
    omega
  have hSum : deviceBlocks * 8 - 40 + 7 = deviceBlocks * 8 - 33 := by
    omega
  constructor
  · rw [hTailEntries, hHeadEntries]
  · rw [hTailHeader, hHeadHeader]
    exact shared_headerOf _ _
  · rw [hTailHeader, hHeadHeader, slice_my, slice_alt]
    exact congrArg (leBytes 8) hAlt.symm
  · rw [hTailHeader, hHeadHeader, slice_my, slice_alt]
    rfl
  · rw [hTailHeader]
    exact rdLe_headerOf (k := 3) rfl (by omega)
  · rw [hTailHeader, hSum]
    exact rdLe_headerOf (k := 8) rfl (by omega)
  · rw [hTailHeader]
    exact rdU32_crc_headerOf

/-
  What the installer partitions, the kernel finds. For every
  layout of a device whose sectors have 64-bit numbers, the
  table read from the front gives the volume and the swap
  range of the layout, or no swap if none was asked for, and
  the table at the end mirrors it.
-/
theorem gpt_round_trip (deviceBlocks swap volume minVolume : Nat) {l : GptLayout}
    (hPlan : plan deviceBlocks swap volume minVolume = some l)
    (hDevice : deviceBlocks < 2 ^ 61) (guids : Guids) :
    findVolume (buildSide l deviceBlocks guids .head) deviceBlocks =
        .ok (l.volumeBase, l.volumeCount) ∧
      findSwap (buildSide l deviceBlocks guids .head) deviceBlocks = (if swap = 0 then
          .error .noSwap
        else .ok (l.swapBase, l.swapCount)) ∧
      Mirrored deviceBlocks (buildSide l deviceBlocks guids .head)
        (buildSide l deviceBlocks guids .tail) := by
  obtain ⟨hSwapBase, hSwapCount, hVolumeBase, hVolumeCount, hEnd⟩ := plan_bounds hPlan
  have hVolume : findVolume (buildSide l deviceBlocks guids .head) deviceBlocks =
        .ok (l.volumeBase, l.volumeCount) := by
    rw [findVolume, findPart_volume, rowRange_eq hDevice (by omega) hVolumeCount hEnd]
    rfl
  refine ⟨hVolume, ?_, mirrored_buildSide l guids (by omega) hDevice⟩
  rw [findSwap, hVolume, ok_bind, findPart_swap, hSwapCount]
  by_cases hNone : swap = 0
  · rw [if_pos hNone, if_neg (by omega)]
    rfl
  have hSwap : rowRange (readHeader l deviceBlocks guids) 34 deviceBlocks l.swapBase swap =
        some (l.swapBase, swap) :=
    rowRange_eq hDevice (by omega) (by omega) (by omega)
  have hApart : rangesDisjoint l.volumeBase l.volumeCount l.swapBase swap = true := by
    unfold rangesDisjoint checkedAdd
    rw [if_pos (by omega), if_pos (by omega)]
    simp only [Bool.or_eq_true, decide_eq_true_eq]
    omega
  rw [if_neg hNone, if_pos (by omega), hSwap]
  simp only [orError_some, Except.map, ok_bind, hApart, if_true]

/- A gigabyte volume beside swap. -/
def zeroGuids : Guids :=
  { disk := ⟨List.replicate 16 0, rfl⟩
    esp := ⟨List.replicate 16 0, rfl⟩
    swap := ⟨List.replicate 16 0, rfl⟩
    volume := ⟨List.replicate 16 0, rfl⟩ }

def gigabyteLayout : GptLayout :=
  { espBase := 256
    espCount := 16384
    swapBase := 16640
    swapCount := 1000
    volumeBase := 17640
    volumeCount := 262144 }

theorem gpt_round_trip_gigabyte :
    findVolume (buildSide gigabyteLayout 300000 zeroGuids .head) 300000 = .ok (17640, 262144) ∧
      findSwap (buildSide gigabyteLayout 300000 zeroGuids .head) 300000 = .ok (16640, 1000) ∧
      Mirrored 300000 (buildSide gigabyteLayout 300000 zeroGuids .head)
        (buildSide gigabyteLayout 300000 zeroGuids .tail) :=
  gpt_round_trip 300000 1000 262144 512 (by decide) (by decide) zeroGuids

/- A device of more than 2^61 blocks. -/
def hugeLayout : GptLayout :=
  { espBase := 256
    espCount := 16384
    swapBase := 16640
    swapCount := 0
    volumeBase := 16640
    volumeCount := 1000 }

/- The last usable sector wraps, and the volume is refused. -/
theorem gpt_large_device_refused :
    plan (2 ^ 61 + 300) 0 1000 512 = some hugeLayout ∧ findVolume
          (buildSide hugeLayout (2 ^ 61 + 300) zeroGuids .head)
          (2 ^ 61 + 300) =
        .error .badRange := by
  refine ⟨by decide, ?_⟩
  have hRange : rowRange (readHeader hugeLayout (2 ^ 61 + 300) zeroGuids) 34
          (2 ^ 61 + 300) hugeLayout.volumeBase
          hugeLayout.volumeCount =
        none := by
    have hUsable : (readHeader hugeLayout (2 ^ 61 + 300) zeroGuids).lastUsable = 2366 := by
      decide
    unfold rowRange volumeBlocks
    rw [hUsable, if_pos (by decide)]
  rw [findVolume, findPart_volume, hRange]
  rfl

end Horus.Storage
