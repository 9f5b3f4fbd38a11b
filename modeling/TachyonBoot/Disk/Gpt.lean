/-
This file models how `disk/part_efi.c` writes a GUID partition table to a block device
and how it reads one back.

A disk is a memory of bytes, read and written in blocks. The header and the entries of
the table are records with their bytes on the disk, which is how the checksums see
them. `gpt_restore()` lays out the partitions and writes the protective MBR, the table
at the front of the disk and its backup at the end; `is_gpt_valid()` checks the table
behind a header, and `part_get_info_efi()` reports a partition of the first valid one.
-/

import TachyonBoot.Library.Records
import TachyonBoot.Efi.VarStore

namespace TachyonBoot.Gpt

open Library

/-! ### Records -/

/-- `efi_guid_t`. -/
abbrev Guid := Vector UInt8 16

def Guid.at (bytes : List UInt8) (offset : Nat) : Guid :=
  Vector.ofFn fun index => bytes.getD (offset + index) 0

/-- The type of an unused entry. -/
def unusedGuid : Guid := Vector.replicate 16 0

structure GptHeader where
  signature : UInt64
  revision : UInt32
  headerSize : UInt32
  headerCrc32 : UInt32
  reserved1 : UInt32
  myLba : UInt64
  alternateLba : UInt64
  firstUsableLba : UInt64
  lastUsableLba : UInt64
  diskGuid : Guid
  partitionEntryLba : UInt64
  numPartitionEntries : UInt32
  sizeofPartitionEntry : UInt32
  partitionEntryArrayCrc32 : UInt32
deriving DecidableEq

/-- The header in bytes, as it is packed. -/
def GptHeader.toBytes (header : GptHeader) : List UInt8 :=
  littleEndian 8 header.signature.toNat ++ littleEndian 4 header.revision.toNat ++
    littleEndian 4 header.headerSize.toNat ++ littleEndian 4 header.headerCrc32.toNat ++
    littleEndian 4 header.reserved1.toNat ++ littleEndian 8 header.myLba.toNat ++
    littleEndian 8 header.alternateLba.toNat ++ littleEndian 8 header.firstUsableLba.toNat ++
    littleEndian 8 header.lastUsableLba.toNat ++ header.diskGuid.toList ++
    littleEndian 8 header.partitionEntryLba.toNat ++
    littleEndian 4 header.numPartitionEntries.toNat ++
    littleEndian 4 header.sizeofPartitionEntry.toNat ++
    littleEndian 4 header.partitionEntryArrayCrc32.toNat

def GptHeader.ofBytes (bytes : List UInt8) : GptHeader where
  signature := uint64At bytes 0
  revision := uint32At bytes 8
  headerSize := uint32At bytes 12
  headerCrc32 := uint32At bytes 16
  reserved1 := uint32At bytes 20
  myLba := uint64At bytes 24
  alternateLba := uint64At bytes 32
  firstUsableLba := uint64At bytes 40
  lastUsableLba := uint64At bytes 48
  diskGuid := Guid.at bytes 56
  partitionEntryLba := uint64At bytes 72
  numPartitionEntries := uint32At bytes 80
  sizeofPartitionEntry := uint32At bytes 84
  partitionEntryArrayCrc32 := uint32At bytes 88

def gptHeaderSize : Nat := 92

/-- The number of characters in `partition_name`, `PARTNAME_SZ`. -/
def partnameSz : Nat := 36

structure GptEntry where
  partitionTypeGuid : Guid
  uniquePartitionGuid : Guid
  startingLba : UInt64
  endingLba : UInt64
  attributes : UInt64
  partitionName : Vector UInt16 partnameSz
deriving DecidableEq

def GptEntry.toBytes (entry : GptEntry) : List UInt8 :=
  entry.partitionTypeGuid.toList ++ entry.uniquePartitionGuid.toList ++
    littleEndian 8 entry.startingLba.toNat ++ littleEndian 8 entry.endingLba.toNat ++
    littleEndian 8 entry.attributes.toNat ++
    entry.partitionName.toList.flatMap fun character => littleEndian 2 character.toNat

def GptEntry.ofBytes (bytes : List UInt8) : GptEntry where
  partitionTypeGuid := Guid.at bytes 0
  uniquePartitionGuid := Guid.at bytes 16
  startingLba := uint64At bytes 32
  endingLba := uint64At bytes 40
  attributes := uint64At bytes 48
  partitionName := Vector.ofFn fun index => uint16At bytes (56 + 2 * index)

def gptEntrySize : Nat := 128

def clearedEntry : GptEntry := ⟨unusedGuid, unusedGuid, 0, 0, 0, Vector.replicate partnameSz 0⟩

/-! ### The block device -/

/-- `struct blk_desc`, with the writes that succeed. -/
structure BlkDesc where
  blksz : Nat
  lba : UInt64
  writable : Nat → Nat → Bool

def eio : Int := 5

def einval : Int := 22

def enospc : Int := 28

def e2big : Int := 7

def eperm : Int := 1

/-- `PAD_COUNT()`, for a size that is not zero. -/
def blockCnt (desc : BlkDesc) (size : Nat) : Nat := (size - 1) / desc.blksz + 1

/-- Bytes in a buffer of whole blocks that was cleared before. -/
def padToBlocksize (desc : BlkDesc) (bytes : List UInt8) : List UInt8 :=
  bytes ++ List.replicate (blockCnt desc bytes.length * desc.blksz - bytes.length) 0

/-- `blk_dread()`: the buffer, if all the blocks are read. -/
def blkDread (desc : BlkDesc) (disk : Memory) (start count : Nat) : Option (List UInt8) :=
  if start + count ≤ desc.lba.toNat then
    some (disk.read (start * desc.blksz) (count * desc.blksz))
  else none

/-- `blk_dwrite()` of a buffer: the disk after it, if all the blocks are written. -/
def blkDwrite (desc : BlkDesc) (disk : Memory) (start count : Nat) (buffer : List UInt8) :
    Except Int Memory :=
  if start + count ≤ desc.lba.toNat ∧ desc.writable start count then
    .ok (disk.write (start * desc.blksz) buffer)
  else .error (-eio)

/-! ### Writing -/

/-- `GPT_HEADER_SIGNATURE_UBOOT`. -/
def gptHeaderSignature : UInt64 := 0x5452415020494645

def gptHeaderChromeosIgnore : UInt64 := 0x454d45524f4e4749

/-- The configuration: the number of entries, where they may begin, whether types and identifiers of
partitions are enabled, and the types that have names. -/
structure GptConfig where
  entryNumbers : Nat
  someEntries : 1 ≤ entryNumbers
  standardEntries : entryNumbers ≤ 128
  entriesOff : Nat
  entriesOffset : Option Nat
  partitionTypeGuid : Bool
  partitionUuids : Bool
  guidGetBin : List Char → Option Guid

/-- `struct disk_partition`, as far as it describes a partition to be written. -/
structure DiskPartition where
  start : UInt64
  size : UInt64
  name : Vector UInt8 32
  bootable : Bool
  uuid : List Char
  typeGuid : List Char

def hexDigit (character : Char) : Option Nat :=
  if '0' ≤ character ∧ character ≤ '9' then some (character.toNat - '0'.toNat)
  else if 'a' ≤ character ∧ character ≤ 'f' then some (character.toNat - 'a'.toNat + 10)
  else if 'A' ≤ character ∧ character ≤ 'F' then some (character.toNat - 'A'.toNat + 10)
  else none

def uuidStrValid (string : List Char) : Bool :=
  string.length = 36 ∧ ∀ index < 36,
    if index ∈ [8, 13, 18, 23] then string[index]? = some '-'
    else ((string[index]?).bind hexDigit).isSome

/-- The byte that two digits stand for. -/
def hexByte (string : List Char) (index : Nat) : UInt8 :=
  let digit (place : Nat) : Nat := ((string[place]?).bind hexDigit).getD 0
  (digit index * 16 + digit (index + 1)).toUInt8

/-- `uuid_str_to_bin()` for `UUID_STR_FORMAT_GUID`: the first three groups are little-endian. -/
def uuidStrToBin (config : GptConfig) (string : List Char) : Option Guid :=
  if uuidStrValid string then
    some (#v[6, 4, 2, 0, 11, 9, 16, 14, 19, 21, 24, 26, 28, 30, 32, 34].map (hexByte string))
  else if config.partitionTypeGuid then config.guidGetBin string
  else none

def partitionBasicDataGuid : Guid :=
  #v[0xa2, 0xa0, 0xd0, 0xeb, 0xe5, 0xb9, 0x33, 0x44, 0x87, 0xc0, 0x68, 0xb6, 0xb7, 0x26, 0x99, 0xc7]

/-- The type that `gpt_fill_pte()` gives a partition. -/
def DiskPartition.type (config : GptConfig) (part : DiskPartition) : Option Guid :=
  if config.partitionTypeGuid ∧ part.typeGuid ≠ [] then uuidStrToBin config part.typeGuid
  else some partitionBasicDataGuid

/-- The identifier that `gpt_fill_pte()` gives a partition; without support for it, it stays
clear. -/
def DiskPartition.identifier (config : GptConfig) (part : DiskPartition) : Option Guid :=
  if config.partitionUuids then uuidStrToBin config part.uuid else some unusedGuid

/-- One round of the loop of `gpt_fill_pte()`, where the partitions before end at `offset`: the
entry and where this partition ends. -/
def gptFillEntry (config : GptConfig) (desc : BlkDesc) (header : GptHeader) (isLast : Bool)
    (offset : UInt64) (part : DiskPartition) : Except Int (GptEntry × UInt64) :=
  let start := if part.start ≠ 0 then part.start else offset
  let offset := start + part.size
  let hdrStart := header.myLba
  let pteStart := header.partitionEntryLba
  let pteEnd := pteStart + (header.numPartitionEntries * header.sizeofPartitionEntry).toUInt64 /
    UInt64.ofNat desc.blksz
  if start < hdrStart + 1 ∧ hdrStart < start + part.size ∨
      start < pteEnd ∧ pteStart < start + part.size then .error (-enospc)
  else if offset > header.lastUsableLba + 1 then .error (-e2big)
  else
    match part.type config, part.identifier config with
    | some type, some identifier =>
      .ok ({
        partitionTypeGuid := type
        uniquePartitionGuid := identifier
        startingLba := start
        endingLba := if isLast ∧ part.size = 0 then header.lastUsableLba else offset - 1
        attributes := if part.bootable then 4 else 0
        partitionName := Vector.ofFn fun index => (part.name.toList.getD index 0).toUInt16 },
        offset)
    | _, _ => .error (-einval)

/-- `gpt_fill_pte()`: the entries of the partitions. -/
def gptFillPte (config : GptConfig) (desc : BlkDesc) (header : GptHeader) :
    UInt64 → List DiskPartition → Except Int (List GptEntry)
  | _, [] => .ok []
  | offset, part :: rest => do
    let filled ← gptFillEntry config desc header rest.isEmpty offset part
    let later ← gptFillPte config desc header filled.2 rest
    pure (filled.1 :: later)

/-- `PAD_TO_BLOCKSIZE()` in `partition_entries_offset()`; zero stays zero, since the sum wraps. -/
def paddedOffset (desc : BlkDesc) (bytes : Nat) : Nat :=
  if bytes = 0 then 0 else blockCnt desc bytes * desc.blksz % 2 ^ 32

def partitionEntriesOffset (config : GptConfig) (desc : BlkDesc) : Nat :=
  let offsetBytes := paddedOffset desc (config.entriesOffset.getD config.entriesOff)
  max (offsetBytes / desc.blksz) 2

def gptFillHeader (config : GptConfig) (desc : BlkDesc) (strGuid : List Char) :
    Except Int GptHeader :=
  match uuidStrToBin config strGuid with
  | none => .error (-1)
  | some diskGuid =>
    .ok {
      signature := gptHeaderSignature
      revision := 0x00010000
      headerSize := gptHeaderSize.toUInt32
      headerCrc32 := 0
      reserved1 := 0
      myLba := 1
      alternateLba := desc.lba - 1
      firstUsableLba := UInt64.ofNat (partitionEntriesOffset config desc) + 32
      lastUsableLba := desc.lba - 34
      diskGuid
      partitionEntryLba := UInt64.ofNat (partitionEntriesOffset config desc)
      numPartitionEntries := config.entryNumbers.toUInt32
      sizeofPartitionEntry := gptEntrySize.toUInt32
      partitionEntryArrayCrc32 := 0 }

/-- The block with the protective MBR: the boot code is kept, the rest of the record replaced. -/
def protectiveMbr (desc : BlkDesc) (block : List UInt8) : List UInt8 :=
  block.take 440 ++ List.replicate 6 0 ++
    ([0, 0, 0, 0, 0xee, 0, 0, 0] ++ littleEndian 4 1 ++
      littleEndian 4 (desc.lba.toUInt32 - 1).toNat) ++
    List.replicate 48 0 ++ [0x55, 0xaa] ++ block.drop 512

def setProtectiveMbr (desc : BlkDesc) (disk : Memory) : Except Int Memory :=
  match blkDread desc disk 0 1 with
  | none => .error (-eio)
  | some block => blkDwrite desc disk 0 1 (protectiveMbr desc block)

/-- The header with its checksum, computed over the buffer as it is. -/
def GptHeader.withCrc (desc : BlkDesc) (header : GptHeader) : GptHeader :=
  { header with
    headerCrc32 := Efi.crc32 0 ((padToBlocksize desc header.toBytes).take header.headerSize.toNat) }

def prepareBackupGptHeader (desc : BlkDesc) (header : GptHeader) : GptHeader :=
  { header with
    myLba := header.alternateLba
    alternateLba := header.myLba
    partitionEntryLba := header.lastUsableLba + 1
    headerCrc32 := 0 : GptHeader }.withCrc desc

/-- The checksum of the array of entries, whose length the header tells. -/
def GptHeader.arrayCrc (header : GptHeader) (entries : List UInt8) : UInt32 :=
  Efi.crc32 0 (entries.take (header.numPartitionEntries * header.sizeofPartitionEntry).toNat)

/-- `write_gpt_table()`, with the buffer of the entries. -/
def writeGptTable (desc : BlkDesc) (disk : Memory) (header : GptHeader) (entries : List UInt8) :
    Except Int Memory := do
  let pteBlkCnt := blockCnt desc (header.numPartitionEntries.toNat * gptEntrySize)
  let disk ← setProtectiveMbr desc disk
  let header := { header with
    partitionEntryArrayCrc32 := header.arrayCrc entries : GptHeader }.withCrc desc
  let disk ← blkDwrite desc disk 1 1 (padToBlocksize desc header.toBytes)
  let disk ← blkDwrite desc disk header.partitionEntryLba.toNat pteBlkCnt entries
  let backup := prepareBackupGptHeader desc header
  let disk ← blkDwrite desc disk (backup.lastUsableLba + 1).toNat pteBlkCnt entries
  blkDwrite desc disk backup.myLba.toNat 1 (padToBlocksize desc backup.toBytes)

/-- The buffer of the entries: those of the partitions and cleared ones. -/
def entryArray (config : GptConfig) (desc : BlkDesc) (entries : List GptEntry) : List UInt8 :=
  padToBlocksize desc
    ((entries ++ List.replicate (config.entryNumbers - entries.length) clearedEntry).flatMap
      GptEntry.toBytes)

/-- `gpt_restore()`: the disk after it, or what it returns. -/
def gptRestore (config : GptConfig) (desc : BlkDesc) (disk : Memory) (strDiskGuid : List Char)
    (partitions : List DiskPartition) : Except Int Memory := do
  let header ← gptFillHeader config desc strDiskGuid
  let entries ← gptFillPte config desc header header.firstUsableLba partitions
  writeGptTable desc disk header (entryArray config desc entries)

/-! ### Reading -/

/-- `validate_gpt_header()` on a block, where the checksum is taken with its own field cleared. -/
def validateGptHeader (block : List UInt8) (lba lastlba : UInt64) : Int :=
  let header := GptHeader.ofBytes block
  let cleared := block.take 16 ++ List.replicate 4 0 ++ block.drop 20
  if header.signature ≠ gptHeaderSignature then -1
  else if Efi.crc32 0 (cleared.take header.headerSize.toNat) ≠ header.headerCrc32 then -1
  else if header.myLba ≠ lba then -1
  else if header.firstUsableLba > lastlba then -1
  else if header.lastUsableLba > lastlba then -1
  else 0

def allocReadGptEntries (desc : BlkDesc) (disk : Memory) (header : GptHeader) :
    Option (List UInt8) :=
  let count := (header.numPartitionEntries * header.sizeofPartitionEntry).toNat
  if count = 0 then none
  else blkDread desc disk header.partitionEntryLba.toNat (blockCnt desc count)

/-- What `is_gpt_valid()` finds: a header and its entries, a header to be ignored, or an error. -/
inductive GptCheck where
  | valid (header : GptHeader) (entries : List UInt8)
  | ignored
  | invalid

/-- What `is_gpt_valid()` returns. -/
def GptCheck.ret : GptCheck → Nat
  | .valid _ _ => 1
  | .ignored => 2
  | .invalid => 0

def isGptValid (desc : BlkDesc) (disk : Memory) (lba : UInt64) : GptCheck :=
  match blkDread desc disk 0 1, blkDread desc disk lba.toNat 1 with
  | some _, some block =>
    let header := GptHeader.ofBytes block
    if header.signature = gptHeaderChromeosIgnore then .ignored
    else if validateGptHeader block lba desc.lba ≠ 0 then .invalid
    else
      match allocReadGptEntries desc disk header with
      | none => .invalid
      | some entries =>
        if header.arrayCrc entries ≠ header.partitionEntryArrayCrc32 then .invalid
        else .valid header entries
  | _, _ => .invalid

def gptPrimaryPartitionTableLba : UInt64 := 1

def findValidGpt (desc : BlkDesc) (disk : Memory) : Option (GptHeader × List UInt8) :=
  match isGptValid desc disk gptPrimaryPartitionTableLba with
  | .valid header entries => some (header, entries)
  | _ =>
    match isGptValid desc disk (desc.lba - 1) with
    | .valid header entries => some (header, entries)
    | _ => none

def gptVerifyHeaders (desc : BlkDesc) (disk : Memory) : Int :=
  match isGptValid desc disk gptPrimaryPartitionTableLba with
  | .valid header _ =>
    if header.alternateLba ≠ desc.lba - 1 then -1
    else if (isGptValid desc disk (desc.lba - 1)).ret ≠ 1 then -1
    else 0
  | _ => -1

def isPteValid (entry : GptEntry) : Bool := entry.partitionTypeGuid ≠ unusedGuid

def isprint (character : UInt8) : Bool :=
  0x20 ≤ character ∧ character ≤ 0x7e ∨ 0xa0 ≤ character

/-- The bytes that `print_efiname()` takes from the name of an entry. -/
def printEfiname (entry : GptEntry) : List UInt8 :=
  entry.partitionName.toList.map fun character =>
    let low := character.toUInt8
    if low ≠ 0 ∧ ¬ isprint low then '.'.toUInt8 else low

/-- `PARTITION_SYSTEM_GUID`. -/
def systemGuid : Guid :=
  #v[0x28, 0x73, 0x2a, 0xc1, 0x1f, 0xf8, 0xd2, 0x11, 0xba, 0x4b, 0x00, 0xa0, 0xc9, 0x3e, 0xc9, 0x3b]

def getBootable (entry : GptEntry) : Nat :=
  (if entry.partitionTypeGuid = systemGuid then 2 else 0) +
    (if entry.attributes >>> 2 &&& 1 = 1 then 1 else 0)

/-- `struct disk_partition`, as far as `part_get_info_efi()` fills it in; identifiers and types are
reported as strings of the same bytes. -/
structure PartInfo where
  start : UInt64
  size : UInt64
  blksz : Nat
  name : List UInt8
  bootable : Nat
  typeFlags : UInt16
  uuid : Guid
  typeGuid : Guid

def gptPte (entries : List UInt8) (index : Nat) : GptEntry :=
  GptEntry.ofBytes (bytesAt entries (gptEntrySize * index) gptEntrySize)

/-- What `part_get_info_efi()` takes from an entry. -/
def GptEntry.info (desc : BlkDesc) (entry : GptEntry) : PartInfo where
  start := entry.startingLba
  size := entry.endingLba + 1 - entry.startingLba
  blksz := desc.blksz
  name := ((printEfiname entry).takeWhile (· ≠ 0)).take 31
  bootable := getBootable entry
  typeFlags := (entry.attributes >>> 48).toUInt16
  uuid := entry.uniquePartitionGuid
  typeGuid := entry.partitionTypeGuid

def partGetInfoEfi (desc : BlkDesc) (disk : Memory) (part : Int) : Except Int PartInfo :=
  if part < 1 then .error (-einval)
  else
    match findValidGpt desc disk with
    | none => .error (-einval)
    | some (header, entries) =>
      let entry := gptPte entries (part - 1).toNat
      if part > header.numPartitionEntries.toNat ∨ ¬ isPteValid entry then .error (-eperm)
      else .ok (entry.info desc)

end TachyonBoot.Gpt
