/-
This file models `gpt_repair_headers()` of `disk/part_efi.c` and tells when it restores the copy
of a partition table that was lost.

The valid copy is read; in its header the two places are exchanged, the place of the entries and the
checksum are computed anew, and header and entries are written. Nothing is asked of the places that
the header names, and the blocks to be written are counted with the size of `gpt_entry`, while the
entries were read by the size that the header names. Where the places are apart and the numbers
agree, the old copy is as it was and the new one is valid with the same entries. A header that is to
be ignored counts as valid here: beside a valid copy it keeps the repair from being done, and beside
an invalid one it is taken for the copy to be restored. Where the device refuses one of the writes,
an error is returned and nothing is asked of the places.
-/

import TachyonBoot.Disk.GptRoundTrip
import TachyonBoot.Disk.GptBounds

namespace TachyonBoot.Gpt

open Library

/-! ### The functions -/

/-- The block with another header in it. -/
def withHeader (block : List UInt8) (header : GptHeader) : List UInt8 :=
  header.toBytes ++ block.drop gptHeaderSize

/-- The block with another header and its checksum. -/
def sealBlock (block : List UInt8) (header : GptHeader) : List UInt8 :=
  let cleared := withHeader block { header with headerCrc32 := 0 }
  withHeader block
    { header with headerCrc32 := Efi.crc32 0 (cleared.take header.headerSize.toNat) }

/-- A header whose two places are exchanged, with its entries at a place. -/
def GptHeader.swapped (header : GptHeader) (array : UInt64) : GptHeader :=
  { header with
    myLba := header.alternateLba, alternateLba := header.myLba, partitionEntryLba := array }

/-- `prepare_backup_gpt_header()` on a block that was read. -/
def prepareBackupBlock (block : List UInt8) : List UInt8 :=
  let header := GptHeader.ofBytes block
  sealBlock block (header.swapped (header.lastUsableLba + 1))

/-- `restore_primary_gpt_header()`. -/
def restorePrimaryBlock (config : GptConfig) (desc : BlkDesc) (block : List UInt8) : List UInt8 :=
  let header := GptHeader.ofBytes block
  sealBlock block (header.swapped (UInt64.ofNat (partitionEntriesOffset config desc)))

/-- `pte_blk_cnt`. Without entries the number wraps and is cut to nothing. -/
def pteBlkCnt (desc : BlkDesc) (header : GptHeader) : Nat :=
  if header.numPartitionEntries = 0 then 0
  else blockCnt desc (header.numPartitionEntries.toNat * gptEntrySize)

/-- `write_one_gpt_table()`. The memory stands for what lies behind the buffer of the entries. -/
def writeOneGptTable (desc : BlkDesc) (beyond disk : Memory) (block entries : List UInt8) :
    Int × Memory :=
  let header := GptHeader.ofBytes block
  let count := pteBlkCnt desc header
  let buffer := (entries ++ beyond.read 0 (count * desc.blksz)).take (count * desc.blksz)
  match blkDwrite desc disk header.myLba.toNat 1 block with
  | .error _ => (-1, disk)
  | .ok disk =>
    match blkDwrite desc disk header.partitionEntryLba.toNat count buffer with
    | .error _ => (-1, disk)
    | .ok disk => (0, disk)

/-- The entries that `is_gpt_valid()` has left, of which there are none without a valid table. -/
def GptCheck.entries : GptCheck → List UInt8
  | .valid _ entries => entries
  | _ => []

/-- `gpt_repair_headers()`: what it returns and the disk. -/
def gptRepairHeaders (config : GptConfig) (desc : BlkDesc) (beyond disk : Memory) : Int × Memory :=
  let first := isGptValid desc disk gptPrimaryPartitionTableLba
  let second := isGptValid desc disk (desc.lba - 1)
  let blockAt (lba : UInt64) : List UInt8 := (blkDread desc disk lba.toNat 1).getD []
  if first.ret ≠ 0 ∧ second.ret ≠ 0 then (0, disk)
  else if first.ret ≠ 0 then
    writeOneGptTable desc beyond disk
      (prepareBackupBlock (blockAt gptPrimaryPartitionTableLba)) first.entries
  else if second.ret ≠ 0 then
    writeOneGptTable desc beyond disk
      (restorePrimaryBlock config desc (blockAt (desc.lba - 1))) second.entries
  else (-1, disk)

/-! ### Tables on a disk -/

/-- What `validate_gpt_header()` asks of a block. -/
structure HeaderValid (block : List UInt8) (lba lastlba : UInt64) : Prop where
  signature : (GptHeader.ofBytes block).signature = gptHeaderSignature
  crc : Efi.crc32 0 ((block.take 16 ++ List.replicate 4 0 ++ block.drop 20).take
    (GptHeader.ofBytes block).headerSize.toNat) = (GptHeader.ofBytes block).headerCrc32
  myLba : (GptHeader.ofBytes block).myLba = lba
  firstUsableLba : (GptHeader.ofBytes block).firstUsableLba ≤ lastlba
  lastUsableLba : (GptHeader.ofBytes block).lastUsableLba ≤ lastlba

theorem validateGptHeader_eq_zero_iff {block : List UInt8} {lba lastlba : UInt64} :
    validateGptHeader block lba lastlba = 0 ↔ HeaderValid block lba lastlba := by
  unfold validateGptHeader
  dsimp only
  constructor
  · intro valid
    split at valid
    · cases valid
    split at valid
    · cases valid
    split at valid
    · cases valid
    split at valid
    · cases valid
    split at valid
    · cases valid
    next signature crc myLba first last =>
      exact ⟨not_not.mp signature, not_not.mp crc, not_not.mp myLba, UInt64.not_lt.mp first,
        UInt64.not_lt.mp last⟩
  · rintro ⟨signature, crc, myLba, first, last⟩
    rw [if_neg (not_not.mpr signature), if_neg (not_not.mpr crc), if_neg (not_not.mpr myLba),
      if_neg (UInt64.not_lt.mpr first), if_neg (UInt64.not_lt.mpr last)]

/-- The number of bytes of the array. -/
def GptHeader.arrayBytes (header : GptHeader) : Nat :=
  (header.numPartitionEntries * header.sizeofPartitionEntry).toNat

/-- A valid table: the block of its header and its entries. -/
structure TableAt (desc : BlkDesc) (disk : Memory) (lba : UInt64) (block entries : List UInt8) :
    Prop where
  read : blkDread desc disk lba.toNat 1 = some block
  header : HeaderValid block lba desc.lba
  someEntries : (GptHeader.ofBytes block).arrayBytes ≠ 0
  array : blkDread desc disk (GptHeader.ofBytes block).partitionEntryLba.toNat
    (blockCnt desc (GptHeader.ofBytes block).arrayBytes) = some entries
  crc : (GptHeader.ofBytes block).arrayCrc entries =
    (GptHeader.ofBytes block).partitionEntryArrayCrc32

section Tables

variable {desc : BlkDesc} {disk after : Memory} {lba : UInt64} {block entries : List UInt8}

theorem TableAt.isGptValid (table : TableAt desc disk lba block entries) :
    isGptValid desc disk lba = .valid (GptHeader.ofBytes block) entries := by
  have notIgnored : (GptHeader.ofBytes block).signature ≠ gptHeaderChromeosIgnore := by
    rw [table.header.signature]
    decide
  have allRead : allocReadGptEntries desc disk (GptHeader.ofBytes block) = some entries :=
    (if_neg table.someEntries).trans table.array
  rw [Gpt.isGptValid, blkDread_zero table.read, table.read]
  dsimp only
  rw [if_neg notIgnored, if_neg (not_not.mpr (validateGptHeader_eq_zero_iff.mpr table.header)),
    allRead]
  exact if_neg (not_not.mpr table.crc)

theorem exists_tableAt {header : GptHeader}
    (valid : Gpt.isGptValid desc disk lba = .valid header entries) :
    ∃ block, header = GptHeader.ofBytes block ∧ TableAt desc disk lba block entries := by
  unfold Gpt.isGptValid at valid
  split at valid
  next mbr block first second =>
    dsimp only at valid
    split at valid
    · cases valid
    split at valid
    · cases valid
    next validated =>
      split at valid
      · cases valid
      next read alloc =>
        split at valid
        · cases valid
        next crc =>
          obtain ⟨rfl, rfl⟩ := GptCheck.valid.inj valid
          unfold allocReadGptEntries at alloc
          dsimp only at alloc
          split at alloc
          · cases alloc
          next someEntries =>
            exact ⟨block, rfl, second, validateGptHeader_eq_zero_iff.mp (not_not.mp validated),
              someEntries, alloc, not_not.mp crc⟩
  next => cases valid

theorem exists_blkDread_of_ignored (ignored : Gpt.isGptValid desc disk lba = .ignored) :
    ∃ block, blkDread desc disk lba.toNat 1 = some block := by
  unfold Gpt.isGptValid at ignored
  split at ignored
  next mbr block _ read => exact ⟨block, read⟩
  next => cases ignored

theorem TableAt.frame (table : TableAt desc disk lba block entries)
    (read : blkDread desc after lba.toNat 1 = blkDread desc disk lba.toNat 1)
    (array : blkDread desc after (GptHeader.ofBytes block).partitionEntryLba.toNat
        (blockCnt desc (GptHeader.ofBytes block).arrayBytes) =
      blkDread desc disk (GptHeader.ofBytes block).partitionEntryLba.toNat
        (blockCnt desc (GptHeader.ofBytes block).arrayBytes)) :
    TableAt desc after lba block entries :=
  ⟨read.trans table.read, table.header, table.someEntries, array.trans table.array, table.crc⟩

end Tables

/-! ### A copy -/

section Copies

variable {block : List UInt8} {header : GptHeader}

theorem ofBytes_sealBlock :
    GptHeader.ofBytes (sealBlock block header) = { header with
      headerCrc32 := Efi.crc32 0 ((withHeader block { header with headerCrc32 := 0 }).take
        header.headerSize.toNat) } :=
  GptHeader.ofBytes_toBytes _ _

theorem length_sealBlock (fits : gptHeaderSize ≤ block.length) :
    (sealBlock block header).length = block.length := by
  rw [sealBlock, withHeader, List.length_append, GptHeader.length_toBytes, List.length_drop]
  omega

theorem clear_sealBlock :
    (sealBlock block header).take 16 ++ List.replicate 4 0 ++ (sealBlock block header).drop 20 =
      withHeader block { header with headerCrc32 := 0 } := by
  obtain ⟨front, back, length, split⟩ := header.toBytes_split
  have behind : front.drop 20 = [] := List.drop_of_length_le (by omega)
  have zero : littleEndian 4 (0 : UInt32).toNat = List.replicate 4 0 := by decide
  rw [sealBlock, withHeader, split, withHeader, split, zero]
  simp [List.drop_append, length, behind]

theorem headerValid_sealBlock {lastlba : UInt64} (signature : header.signature = gptHeaderSignature)
    (first : header.firstUsableLba ≤ lastlba) (last : header.lastUsableLba ≤ lastlba) :
    HeaderValid (sealBlock block header) header.myLba lastlba := by
  refine ⟨?_, ?_, ?_, ?_, ?_⟩ <;> rw [ofBytes_sealBlock]
  · exact signature
  · rw [clear_sealBlock]
  · exact first
  · exact last

end Copies

/-- The blocks of two tables, with the places of their headers and arrays, are apart. -/
structure Apart (count header array otherHeader otherArray : Nat) : Prop where
  headers : header ≠ otherHeader
  headerArray : header + 1 ≤ otherArray ∨ otherArray + count ≤ header
  arrayHeader : otherHeader + 1 ≤ array ∨ array + count ≤ otherHeader
  arrays : array + count ≤ otherArray ∨ otherArray + count ≤ array
  other : otherHeader + 1 ≤ otherArray ∨ otherArray + count ≤ otherHeader

/-- What a table and the places of its copy must be for a repair: the header fits its block and
names the place of the copy, the entries are counted alike when they are read and written, and
nothing overlaps. -/
structure Copyable (desc : BlkDesc) (header : GptHeader) (lba other array : UInt64) : Prop where
  inBlock : header.headerSize.toNat ≤ desc.blksz
  alternateLba : header.alternateLba = other
  counts : blockCnt desc (header.numPartitionEntries.toNat * gptEntrySize) =
    blockCnt desc header.arrayBytes
  apart : Apart (blockCnt desc header.arrayBytes) lba.toNat header.partitionEntryLba.toNat
    other.toNat array.toNat

section Repair

variable {device : SectorDevice} {beyond disk after : Memory} {lba other array : UInt64}
  {block entries : List UInt8}

theorem arrayBytes_of_none {header : GptHeader} (isZero : header.numPartitionEntries = 0) :
    header.arrayBytes = 0 := by
  rw [GptHeader.arrayBytes, isZero, UInt32.zero_mul]
  rfl

theorem writeOneGptTable_ok {desc : BlkDesc} {header : GptHeader}
    (isHeader : GptHeader.ofBytes block = header)
    (written : writeOneGptTable desc beyond disk block entries = (0, after)) :
    desc.Takes header.myLba.toNat 1 ∧
      desc.Takes header.partitionEntryLba.toNat (pteBlkCnt desc header) ∧
      after = (disk.write (header.myLba.toNat * desc.blksz) block).write
        (header.partitionEntryLba.toNat * desc.blksz)
        ((entries ++ beyond.read 0 (pteBlkCnt desc header * desc.blksz)).take
          (pteBlkCnt desc header * desc.blksz)) := by
  unfold writeOneGptTable at written
  dsimp only at written
  rw [isHeader] at written
  split at written
  · cases written
  next between first =>
    split at written
    · cases written
    next last second =>
      obtain ⟨firstTaken, rfl⟩ := blkDwrite_ok first
      obtain ⟨secondTaken, rfl⟩ := blkDwrite_ok second
      exact ⟨firstTaken, secondTaken, (congrArg Prod.snd written).symm⟩

/-- The old table is as it was, and the new one is valid with the same entries. -/
theorem writeOneGptTable_copies (table : TableAt device.toBlkDesc disk lba block entries)
    (copyable : Copyable device.toBlkDesc (GptHeader.ofBytes block) lba other array)
    (written : writeOneGptTable device.toBlkDesc beyond disk
      (sealBlock block ((GptHeader.ofBytes block).swapped array)) entries = (0, after)) :
    TableAt device.toBlkDesc after lba block entries ∧
      TableAt device.toBlkDesc after other
        (sealBlock block ((GptHeader.ofBytes block).swapped array)) entries := by
  obtain ⟨-, alternateLba, counts, apart⟩ := copyable
  obtain ⟨read, valid, someEntries, arrayRead, crc⟩ := table
  have blockLength : block.length = 1 * device.blksz := length_of_blkDread read
  have entriesLength := length_of_blkDread arrayRead
  have sealedLength : (sealBlock block ((GptHeader.ofBytes block).swapped array)).length =
      1 * device.blksz := by
    have large := device.large
    rw [length_sealBlock (by rw [blockLength, Nat.one_mul]; exact le_trans (by decide) large),
      blockLength]
  have copyValid := @headerValid_sealBlock block ((GptHeader.ofBytes block).swapped array)
    device.lba valid.signature valid.firstUsableLba valid.lastUsableLba
  have copyHeader := @ofBytes_sealBlock block ((GptHeader.ofBytes block).swapped array)
  generalize sealBlock block ((GptHeader.ofBytes block).swapped array) = copy at *
  -- The header of the copy, as far as it is used.
  have copyLba : (GptHeader.ofBytes copy).myLba = other := by
    rw [copyHeader]
    exact alternateLba
  have copyArray : (GptHeader.ofBytes copy).partitionEntryLba = array := by
    rw [copyHeader]
    rfl
  have count : pteBlkCnt device.toBlkDesc (GptHeader.ofBytes copy) =
      blockCnt device.toBlkDesc (GptHeader.ofBytes block).arrayBytes := by
    rw [copyHeader]
    exact (if_neg fun isZero => someEntries (arrayBytes_of_none isZero)).trans counts
  obtain ⟨⟨headerFits, -⟩, ⟨arrayFits, -⟩, isAfter⟩ := writeOneGptTable_ok rfl written
  rw [copyLba] at headerFits isAfter
  rw [copyArray, count] at arrayFits isAfter
  rw [← entriesLength, List.take_left] at isAfter
  subst isAfter
  constructor
  · refine TableAt.frame ⟨read, valid, someEntries, arrayRead, crc⟩ ?_ ?_
    · rw [blkDread_write_apart apart.headerArray entriesLength,
        blkDread_write_apart (Nat.lt_or_gt_of_ne apart.headers) sealedLength]
    · rw [blkDread_write_apart apart.arrays entriesLength,
        blkDread_write_apart apart.arrayHeader.symm sealedLength]
  · refine ⟨?_, ?_, ?_, ?_, ?_⟩
    · rw [blkDread_write_apart apart.other entriesLength, blkDread_write headerFits sealedLength]
    · rwa [show ((GptHeader.ofBytes block).swapped array).myLba = other from alternateLba]
        at copyValid
    · rw [copyHeader]
      exact someEntries
    · rw [copyArray, copyHeader]
      exact blkDread_write arrayFits entriesLength
    · rw [copyHeader]
      exact crc

end Repair

/-! ### The repair -/

/-- Both tables are valid and have these entries. -/
def BothHold (desc : BlkDesc) (disk : Memory) (entries : List UInt8) : Prop :=
  ∃ primary backup, isGptValid desc disk gptPrimaryPartitionTableLba = .valid primary entries ∧
    isGptValid desc disk (desc.lba - 1) = .valid backup entries

/-- One of the tables is valid and has these entries. -/
def OneHolds (desc : BlkDesc) (disk : Memory) (entries : List UInt8) : Prop :=
  (∃ header, isGptValid desc disk gptPrimaryPartitionTableLba = .valid header entries ∧
      (isGptValid desc disk (desc.lba - 1)).ret ≠ 1) ∨
    ∃ header, isGptValid desc disk (desc.lba - 1) = .valid header entries ∧
      (isGptValid desc disk gptPrimaryPartitionTableLba).ret ≠ 1

/-- What is asked of a repair: with one valid table a success leaves both with its entries, and with
none nothing is written. -/
structure Restores (desc : BlkDesc) (disk : Memory) (result : Int × Memory) : Prop where
  repaired : ∀ entries, OneHolds desc disk entries → result.1 = 0 →
    BothHold desc result.2 entries
  kept : (isGptValid desc disk gptPrimaryPartitionTableLba).ret ≠ 1 →
    (isGptValid desc disk (desc.lba - 1)).ret ≠ 1 → result.2 = disk

/-- What is expected of the table at a place, when the other one is to be restored from it. If it is
valid beside an invalid one and both writes are carried out, there is a place for its copy. If it is
to be ignored, so is the other one, or its header cannot be written. -/
structure Mendable (desc : BlkDesc) (disk : Memory) (lba other : UInt64)
    (arrayOf : GptHeader → UInt64) : Prop where
  copyable : ∀ header entries, isGptValid desc disk lba = .valid header entries →
    isGptValid desc disk other = .invalid → desc.Takes header.alternateLba.toNat 1 →
    desc.Takes (arrayOf header).toNat (pteBlkCnt desc header) →
    Copyable desc header lba other (arrayOf header)
  ignored : isGptValid desc disk lba = .ignored → isGptValid desc disk other ≠ .ignored →
    isGptValid desc disk other = .invalid ∧ ∀ block, blkDread desc disk lba.toNat 1 = some block →
      ¬desc.Takes (GptHeader.ofBytes block).alternateLba.toNat 1

/-- Both tables are what is expected of them. -/
structure Repairable (config : GptConfig) (desc : BlkDesc) (disk : Memory) : Prop where
  primary : Mendable desc disk gptPrimaryPartitionTableLba (desc.lba - 1) (·.lastUsableLba + 1)
  backup : Mendable desc disk (desc.lba - 1) gptPrimaryPartitionTableLba
    fun _ => UInt64.ofNat (partitionEntriesOffset config desc)

section Mendable

variable {device : SectorDevice} {beyond disk : Memory} {lba other : UInt64}
  {arrayOf : GptHeader → UInt64} {block entries : List UInt8}

/-- The block that is written for the table in a block. -/
def copyBlock (arrayOf : GptHeader → UInt64) (block : List UInt8) : List UInt8 :=
  sealBlock block ((GptHeader.ofBytes block).swapped (arrayOf (GptHeader.ofBytes block)))

theorem Mendable.copies (mendable : Mendable device.toBlkDesc disk lba other arrayOf)
    (table : TableAt device.toBlkDesc disk lba block entries)
    (otherInvalid : isGptValid device.toBlkDesc disk other = .invalid)
    (success : (writeOneGptTable device.toBlkDesc beyond disk (copyBlock arrayOf block)
      entries).1 = 0) :
    ∃ header copy, isGptValid device.toBlkDesc (writeOneGptTable device.toBlkDesc beyond disk
        (copyBlock arrayOf block) entries).2 lba = .valid header entries ∧
      isGptValid device.toBlkDesc (writeOneGptTable device.toBlkDesc beyond disk
        (copyBlock arrayOf block) entries).2 other = .valid copy entries := by
  obtain ⟨headerTaken, arrayTaken, -⟩ := writeOneGptTable_ok ofBytes_sealBlock
    (show writeOneGptTable _ beyond disk (copyBlock arrayOf block) entries = _ from
      Prod.ext success rfl)
  have copyable := mendable.copyable _ _ table.isGptValid otherInvalid headerTaken arrayTaken
  obtain ⟨old, new⟩ := writeOneGptTable_copies table copyable (Prod.ext success rfl)
  exact ⟨_, _, old.isGptValid, new.isGptValid⟩

/-- A valid table beside an invalid one is not to be ignored. -/
theorem Mendable.invalid_of_ne (mendable : Mendable device.toBlkDesc disk other lba arrayOf)
    {header : GptHeader} (valid : isGptValid device.toBlkDesc disk lba = .valid header entries)
    (notValid : (isGptValid device.toBlkDesc disk other).ret ≠ 1) :
    isGptValid device.toBlkDesc disk other = .invalid := by
  cases check : isGptValid device.toBlkDesc disk other with
  | valid => exact absurd (by rw [check]; rfl) notValid
  | invalid => rfl
  | ignored =>
    have beside := (mendable.ignored check (by rw [valid]; simp)).1
    cases valid.symm.trans beside

theorem Mendable.keeps (mendable : Mendable device.toBlkDesc disk lba other arrayOf)
    (ignored : isGptValid device.toBlkDesc disk lba = .ignored)
    (otherInvalid : isGptValid device.toBlkDesc disk other = .invalid)
    (read : blkDread device.toBlkDesc disk lba.toNat 1 = some block) :
    (writeOneGptTable device.toBlkDesc beyond disk (copyBlock arrayOf block) entries).2 = disk := by
  have refused := (mendable.ignored ignored (by rw [otherInvalid]; simp)).2 block read
  have place : (GptHeader.ofBytes (copyBlock arrayOf block)).myLba =
      (GptHeader.ofBytes block).alternateLba := by
    rw [copyBlock, ofBytes_sealBlock]
    rfl
  rw [BlkDesc.Takes] at refused
  rw [writeOneGptTable, blkDwrite, place, if_neg refused]

end Mendable

section Branches

variable {config : GptConfig} {desc : BlkDesc} {beyond disk : Memory} {block : List UInt8}

theorem gptRepairHeaders_fromPrimary
    (first : (isGptValid desc disk gptPrimaryPartitionTableLba).ret ≠ 0)
    (second : isGptValid desc disk (desc.lba - 1) = .invalid)
    (read : blkDread desc disk gptPrimaryPartitionTableLba.toNat 1 = some block) :
    gptRepairHeaders config desc beyond disk =
      writeOneGptTable desc beyond disk (copyBlock (·.lastUsableLba + 1) block)
        (isGptValid desc disk gptPrimaryPartitionTableLba).entries := by
  have invalid : GptCheck.invalid.ret = 0 := rfl
  simp [gptRepairHeaders, first, second, read, invalid, prepareBackupBlock, copyBlock]

theorem gptRepairHeaders_fromBackup
    (first : isGptValid desc disk gptPrimaryPartitionTableLba = .invalid)
    (second : (isGptValid desc disk (desc.lba - 1)).ret ≠ 0)
    (read : blkDread desc disk (desc.lba - 1).toNat 1 = some block) :
    gptRepairHeaders config desc beyond disk =
      writeOneGptTable desc beyond disk
        (copyBlock (fun _ => UInt64.ofNat (partitionEntriesOffset config desc)) block)
        (isGptValid desc disk (desc.lba - 1)).entries := by
  have invalid : GptCheck.invalid.ret = 0 := rfl
  simp [gptRepairHeaders, first, second, read, invalid, restorePrimaryBlock, copyBlock]

end Branches

/-- `gpt_repair_headers()` restores the table that was lost, and writes nothing if both were. -/
theorem gptRepairHeaders_restores (config : GptConfig) (device : SectorDevice)
    (beyond disk : Memory) (repairable : Repairable config device.toBlkDesc disk) :
    Restores device.toBlkDesc disk (gptRepairHeaders config device.toBlkDesc beyond disk) := by
  obtain ⟨fromPrimary, fromBackup⟩ := repairable
  refine ⟨fun entries one success => ?_, fun first second => ?_⟩
  · rcases one with ⟨header, first, second⟩ | ⟨header, second, first⟩
    · replace second := fromBackup.invalid_of_ne first second
      obtain ⟨block, rfl, table⟩ := exists_tableAt first
      rw [gptRepairHeaders_fromPrimary (by simp [first, GptCheck.ret]) second table.read, first]
        at success ⊢
      exact fromPrimary.copies table second success
    · replace first := fromPrimary.invalid_of_ne second first
      obtain ⟨block, rfl, table⟩ := exists_tableAt second
      rw [gptRepairHeaders_fromBackup first (by simp [second, GptCheck.ret]) table.read, second]
        at success ⊢
      obtain ⟨backup, primary, isBackup, isPrimary⟩ := fromBackup.copies table first success
      exact ⟨primary, backup, isPrimary, isBackup⟩
  · cases isFirst : isGptValid device.toBlkDesc disk gptPrimaryPartitionTableLba with
    | valid => exact absurd (by rw [isFirst]; rfl) first
    | ignored =>
      cases isSecond : isGptValid device.toBlkDesc disk (device.lba - 1) with
      | valid => exact absurd (by rw [isSecond]; rfl) second
      | ignored => simp [gptRepairHeaders, isFirst, isSecond, GptCheck.ret]
      | invalid =>
        obtain ⟨block, read⟩ := exists_blkDread_of_ignored isFirst
        rw [gptRepairHeaders_fromPrimary (by simp [isFirst, GptCheck.ret]) isSecond read]
        exact fromPrimary.keeps isFirst isSecond read
    | invalid =>
      cases isSecond : isGptValid device.toBlkDesc disk (device.lba - 1) with
      | valid => exact absurd (by rw [isSecond]; rfl) second
      | ignored =>
        obtain ⟨block, read⟩ := exists_blkDread_of_ignored isSecond
        rw [gptRepairHeaders_fromBackup isFirst (by simp [isSecond, GptCheck.ret]) read]
        exact fromBackup.keeps isSecond isFirst read
      | invalid => simp [gptRepairHeaders, isFirst, isSecond, GptCheck.ret]

/-- The header of a table with one entry on a disk of a hundred blocks. -/
def singleHeader : GptHeader where
  signature := gptHeaderSignature
  revision := 0x00010000
  headerSize := 92
  headerCrc32 := 0
  reserved1 := 0
  myLba := 1
  alternateLba := 99
  firstUsableLba := 34
  lastUsableLba := 66
  diskGuid := unusedGuid
  partitionEntryLba := 2
  numPartitionEntries := 1
  sizeofPartitionEntry := 128
  partitionEntryArrayCrc32 := Efi.crc32 0 (List.replicate 128 0)

def emptyDisk : Memory := fun _ => 0

/-- A disk with that header, sealed, and nothing else. -/
def singleDisk : Memory :=
  emptyDisk.write (1 * hostileDevice.blksz)
    (padToBlocksize hostileDevice.toBlkDesc (singleHeader.withCrc hostileDevice.toBlkDesc).toBytes)

theorem singleHeader_unsealed :
    Unsealed hostileDevice.toBlkDesc 1 singleHeader (List.replicate 512 0) where
  signature := rfl
  headerSize := rfl
  headerCrc32 := rfl
  myLba := rfl
  firstUsableLba := by decide
  lastUsableLba := by decide
  someEntries := by decide
  arrayCrc := by
    have bytes : (singleHeader.numPartitionEntries * singleHeader.sizeofPartitionEntry).toNat =
      128 := by decide
    rw [GptHeader.arrayCrc, bytes, List.take_replicate]
    rfl

theorem read_emptyDisk (address count : Nat) :
    emptyDisk.read address count = List.replicate count 0 := by
  induction count generalizing address with
  | zero => rfl
  | succ count ih =>
    rw [Memory.read, ih, List.replicate_succ]
    rfl

theorem blkDread_singleDisk {start count : Nat} (apart : start + count ≤ 1 ∨ 1 + 1 ≤ start)
    (fits : start + count ≤ hostileDevice.lba.toNat) :
    blkDread hostileDevice.toBlkDesc singleDisk start count =
      some (List.replicate (count * hostileDevice.blksz) 0) := by
  have blank : blkDread hostileDevice.toBlkDesc emptyDisk start count =
      some (List.replicate (count * hostileDevice.blksz) 0) := by
    rw [blkDread, if_pos fits, read_emptyDisk]
  exact (blkDread_write_apart apart (length_headerBlock hostileDevice.large _)).trans blank

theorem isGptValid_singleDisk :
    isGptValid hostileDevice.toBlkDesc singleDisk gptPrimaryPartitionTableLba =
      .valid (singleHeader.withCrc hostileDevice.toBlkDesc) (List.replicate 512 0) := by
  refine isGptValid_withCrc singleHeader_unsealed ?_ ?_ ?_
  · rw [@blkDread_singleDisk 0 1 (by decide) (by decide)]
    rfl
  · exact blkDread_write (show 1 + 1 ≤ hostileDevice.lba.toNat by decide)
      (length_headerBlock hostileDevice.large _)
  · exact @blkDread_singleDisk 2 1 (by decide) (by decide)

theorem isGptValid_singleDisk_last :
    isGptValid hostileDevice.toBlkDesc singleDisk (hostileDevice.lba - 1) = .invalid := by
  have last : (hostileDevice.lba - 1).toNat = 99 := by decide
  have signature : (GptHeader.ofBytes
      (List.replicate (1 * hostileDevice.blksz) 0)).signature = 0 := by decide
  rw [isGptValid, last, @blkDread_singleDisk 0 1 (by decide) (by decide),
    @blkDread_singleDisk 99 1 (by decide) (by decide)]
  dsimp only
  rw [if_neg (by rw [signature]; decide), if_pos]
  rw [validateGptHeader, if_pos (by rw [signature]; decide)]
  decide

theorem gptRepairHeaders_restores_single :
    Restores hostileDevice.toBlkDesc singleDisk
      (gptRepairHeaders smallConfig hostileDevice.toBlkDesc emptyDisk singleDisk) := by
  refine gptRepairHeaders_restores smallConfig hostileDevice emptyDisk singleDisk
    ⟨⟨?_, fun ignored => ?_⟩, ⟨fun header entries valid => ?_, fun ignored => ?_⟩⟩
  · rintro header entries valid - - -
    rw [isGptValid_singleDisk] at valid
    obtain ⟨rfl, rfl⟩ := GptCheck.valid.inj valid
    exact ⟨by decide, by decide, by decide, by decide, by decide, by decide, by decide, by decide⟩
  · cases isGptValid_singleDisk.symm.trans ignored
  · cases isGptValid_singleDisk_last.symm.trans valid
  · cases isGptValid_singleDisk_last.symm.trans ignored

/-- A disk whose second block has a header to be ignored, with 50 for the other place. -/
def ignoredDisk : Memory :=
  Memory.write (fun _ => 0) 512
    (littleEndian 8 gptHeaderChromeosIgnore.toNat ++ List.replicate 24 0 ++ littleEndian 8 50)

/-- Neither table is valid, and yet a header is written to the block 50. -/
theorem ignoredHeader_written :
    (isGptValid hostileDevice.toBlkDesc ignoredDisk gptPrimaryPartitionTableLba).ret = 2 ∧
      (isGptValid hostileDevice.toBlkDesc ignoredDisk (hostileDevice.lba - 1)).ret = 0 ∧
      ignoredDisk (50 * 512) = 0 ∧
      (gptRepairHeaders smallConfig hostileDevice.toBlkDesc (fun _ => 0) ignoredDisk).2 (50 * 512) =
        0x49 := by
  decide +kernel

end TachyonBoot.Gpt
