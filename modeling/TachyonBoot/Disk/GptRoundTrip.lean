/-
This file proves that a partition table that `gpt_restore()` has written is read back:
both headers are valid and have the same entries, and each partition is reported where
it was laid out.

The layout is stated on its own: a partition starts at its own start or behind the one
before, and the last one may take the rest of the disk. What is read back are the bytes
that were written, since the blocks of both tables are apart, so it remains that the
records survive their encoding and that both sides compute the checksums over the same
bytes.
-/

import TachyonBoot.Disk.Gpt
import TachyonBoot.Library.Runs

namespace TachyonBoot.Gpt

open Library List

/-! ### The layout -/

/-- A range of blocks. -/
structure Extent where
  start : UInt64
  size : UInt64
deriving DecidableEq

/-- Where the partitions lie, from an offset on. -/
def layout (lastUsableLba : UInt64) : UInt64 → List DiskPartition → List Extent
  | _, [] => []
  | offset, part :: rest =>
    let start := if part.start ≠ 0 then part.start else offset
    let size := if rest.isEmpty ∧ part.size = 0 then lastUsableLba + 1 - start else part.size
    ⟨start, size⟩ :: layout lastUsableLba (start + part.size) rest

/-- The blocks that an entry stands for; its ending block belongs to it. -/
def GptEntry.extent (entry : GptEntry) : Extent :=
  ⟨entry.startingLba, entry.endingLba + 1 - entry.startingLba⟩

variable {part : DiskPartition} {entries : List GptEntry} {partitions : List DiskPartition}

section Layout

variable {config : GptConfig} {desc : BlkDesc} {header : GptHeader} {offset : UInt64}

theorem gptFillEntry_ok {isLast : Bool} {filled : GptEntry × UInt64}
    (ok : gptFillEntry config desc header isLast offset part = .ok filled) :
    part.type config = some filled.1.partitionTypeGuid ∧
      filled.1.startingLba = (if part.start ≠ 0 then part.start else offset) ∧
      filled.2 = filled.1.startingLba + part.size ∧
      filled.1.endingLba =
        if isLast ∧ part.size = 0 then header.lastUsableLba else filled.2 - 1 := by
  unfold gptFillEntry at ok
  obtain ⟨start, startEq⟩ : ∃ start, (if part.start ≠ 0 then part.start else offset) = start :=
    ⟨_, rfl⟩
  rw [startEq] at ok ⊢
  dsimp only at ok
  split at ok
  · cases ok
  split at ok
  · cases ok
  split at ok
  next type identifier typeEq identifierEq =>
    obtain rfl := Except.ok.inj ok
    exact ⟨typeEq, rfl, rfl, rfl⟩
  next => cases ok

/-- A call that fills all entries fills the first one and, from where it ends, the others. -/
theorem gptFillPte_cons_ok {rest : List DiskPartition}
    (ok : gptFillPte config desc header offset (part :: rest) = .ok entries) :
    ∃ filled later, gptFillEntry config desc header rest.isEmpty offset part = .ok filled ∧
      gptFillPte config desc header filled.2 rest = .ok later ∧ entries = filled.1 :: later := by
  obtain ⟨filled, filledOk, laterOk⟩ := bind_eq_ok_iff.mp ok
  obtain ⟨later, restOk, whole⟩ := bind_eq_ok_iff.mp laterOk
  exact ⟨filled, later, filledOk, restOk, (Except.ok.inj whole).symm⟩

theorem gptFillPte_ok (ok : gptFillPte config desc header offset partitions = .ok entries) :
    entries.map GptEntry.extent = layout header.lastUsableLba offset partitions ∧
      entries.map (fun entry => some entry.partitionTypeGuid) =
        partitions.map (DiskPartition.type config) := by
  induction partitions generalizing offset entries with
  | nil =>
    obtain rfl := Except.ok.inj ok
    exact ⟨rfl, rfl⟩
  | cons part rest ih =>
    obtain ⟨filled, later, filledOk, restOk, rfl⟩ := gptFillPte_cons_ok ok
    obtain ⟨typeEq, startEq, nextEq, endEq⟩ := gptFillEntry_ok filledOk
    obtain ⟨extents, types⟩ := ih restOk
    refine ⟨?_, ?_⟩
    · rw [map_cons, layout, extents, ← startEq, nextEq]
      congr 1
      unfold GptEntry.extent
      rw [endEq, nextEq]
      split_ifs
      · rfl
      · rw [UInt64.sub_add_cancel, UInt64.add_comm, UInt64.add_sub_cancel]
    · rw [map_cons, map_cons, typeEq, types]

end Layout

/-! ### The records survive their encoding -/

theorem Guid.at_skip {front rest : List UInt8} {offset : Nat} (skipped : front.length ≤ offset) :
    Guid.at (front ++ rest) offset = Guid.at rest (offset - front.length) := by
  unfold Guid.at
  congr 1
  funext index
  have later : front.length ≤ offset + index := by omega
  rw [getD_eq_getElem?_getD, getD_eq_getElem?_getD, getElem?_append_right later,
    Nat.sub_add_comm skipped]

theorem Guid.at_here (guid : Guid) (rest : List UInt8) :
    Guid.at (guid.toList ++ rest) 0 = guid := by
  ext index bound
  simp [Guid.at, getElem?_append_left]

@[simp] theorem GptHeader.length_toBytes (header : GptHeader) :
    header.toBytes.length = gptHeaderSize := by
  simp [GptHeader.toBytes, gptHeaderSize]

theorem GptHeader.ofBytes_toBytes (header : GptHeader) (rest : List UInt8) :
    GptHeader.ofBytes (header.toBytes ++ rest) = header := by
  simp [GptHeader.ofBytes, GptHeader.toBytes, append_assoc, uint64At_skip, uint32At_skip,
    uint64At_here, uint32At_here, Guid.at_skip, Guid.at_here]

@[simp] theorem GptEntry.length_toBytes (entry : GptEntry) :
    entry.toBytes.length = gptEntrySize := by
  have name : entry.partitionName.toList.length = 36 := Vector.length_toList ..
  simp [GptEntry.toBytes, gptEntrySize, name]

theorem GptEntry.name_toBytes (entry : GptEntry) (index : Fin partnameSz) :
    uint16At entry.toBytes (56 + 2 * index) = entry.partitionName[index] := by
  have bytes := bytesAt_flatMap (fun character _ => length_littleEndian 2 character.toNat)
    (show entry.partitionName.toList[index.val]? = some entry.partitionName[index] by simp) []
  have here := uint16At_here entry.partitionName[index] []
  rw [uint16At, bytesAt_here (length_littleEndian ..)] at here
  have front : 56 + 2 * index.val - 56 = 2 * index := Nat.add_sub_cancel_left ..
  rw [GptEntry.toBytes, uint16At_skip (by simp)]
  simp only [length_append, Vector.length_toList, length_littleEndian, front]
  rw [uint16At, ← append_nil (List.flatMap ..), bytes, here]

theorem GptEntry.ofBytes_toBytes (entry : GptEntry) : GptEntry.ofBytes entry.toBytes = entry := by
  unfold GptEntry.ofBytes
  simp only [GptEntry.name_toBytes]
  simp [GptEntry.toBytes, append_assoc, uint64At_skip, uint64At_here, Guid.at_skip,
    Guid.at_here]

/-! ### What is written is read -/

section Blocks

variable {desc : BlkDesc} {disk after : Memory} {start count : Nat} {buffer : List UInt8}

/-- The device carries out a write of these blocks. -/
def BlkDesc.Takes (desc : BlkDesc) (start count : Nat) : Prop :=
  start + count ≤ desc.lba.toNat ∧ desc.writable start count

theorem blkDwrite_ok (written : blkDwrite desc disk start count buffer = .ok after) :
    desc.Takes start count ∧ after = disk.write (start * desc.blksz) buffer := by
  unfold blkDwrite at written
  split_ifs at written with taken
  exact ⟨taken, (Except.ok.inj written).symm⟩

theorem blkDread_write (fits : start + count ≤ desc.lba.toNat)
    (length : buffer.length = count * desc.blksz) :
    blkDread desc (disk.write (start * desc.blksz) buffer) start count = some buffer := by
  rw [blkDread, if_pos fits, ← length, Memory.read_write_self]

theorem blkDread_write_apart {other otherCount : Nat}
    (apart : start + count ≤ other ∨ other + otherCount ≤ start)
    (length : buffer.length = otherCount * desc.blksz) :
    blkDread desc (disk.write (other * desc.blksz) buffer) start count =
      blkDread desc disk start count := by
  unfold blkDread
  rw [Memory.read_write_outside]
  rw [length, ← Nat.add_mul, ← Nat.add_mul]
  exact apart.imp (fun before => Nat.mul_le_mul_right _ before)
    (fun behind => Nat.mul_le_mul_right _ behind)

theorem length_padToBlocksize (positive : 0 < desc.blksz) (bytes : List UInt8) :
    (padToBlocksize desc bytes).length = blockCnt desc bytes.length * desc.blksz := by
  have room : bytes.length ≤ blockCnt desc bytes.length * desc.blksz := by
    unfold blockCnt
    have below := Nat.lt_div_mul_add (a := bytes.length - 1) positive
    rw [Nat.succ_mul]
    omega
  rw [padToBlocksize, length_append, length_replicate]
  omega

theorem length_headerBlock (large : 512 ≤ desc.blksz) (header : GptHeader) :
    (padToBlocksize desc header.toBytes).length = 1 * desc.blksz := by
  rw [length_padToBlocksize (by omega), GptHeader.length_toBytes, blockCnt,
    Nat.div_eq_of_lt (Nat.lt_of_lt_of_le (by decide) large)]

end Blocks

/-! ### A sealed header is valid -/

/-- A header of the given block before its checksum is filled in. -/
structure Unsealed (desc : BlkDesc) (lba : UInt64) (header : GptHeader) (entries : List UInt8) :
    Prop where
  signature : header.signature = gptHeaderSignature
  headerSize : header.headerSize.toNat = gptHeaderSize
  headerCrc32 : header.headerCrc32 = 0
  myLba : header.myLba = lba
  firstUsableLba : header.firstUsableLba ≤ desc.lba
  lastUsableLba : header.lastUsableLba ≤ desc.lba
  someEntries : (header.numPartitionEntries * header.sizeofPartitionEntry).toNat ≠ 0
  arrayCrc : header.arrayCrc entries = header.partitionEntryArrayCrc32

section Sealed

variable {desc : BlkDesc} {disk : Memory} {lba : UInt64} {header : GptHeader} {entries : List UInt8}

theorem GptHeader.toBytes_split (header : GptHeader) :
    ∃ front back : List UInt8, front.length = 16 ∧ ∀ crc : UInt32,
      { header with headerCrc32 := crc : GptHeader }.toBytes =
        front ++ littleEndian 4 crc.toNat ++ back := by
  refine ⟨header.toBytes.take 16, header.toBytes.drop 20, by simp [gptHeaderSize],
    fun crc => ?_⟩
  simp [GptHeader.toBytes, take_append, drop_append, take_of_length_le, drop_of_length_le]

theorem clear_withCrc (headerCrc32 : header.headerCrc32 = 0) {block : List UInt8}
    (isBlock : block = padToBlocksize desc (header.withCrc desc).toBytes) :
    block.take 16 ++ List.replicate 4 0 ++ block.drop 20 = padToBlocksize desc header.toBytes := by
  obtain ⟨front, back, length, split⟩ := header.toBytes_split
  have unsealed : header.toBytes = front ++ List.replicate 4 0 ++ back := by
    have same : { header with headerCrc32 := 0 : GptHeader } = header := by rw [← headerCrc32]
    have zero := split 0
    rw [same] at zero
    exact zero
  have sizes : (header.withCrc desc).toBytes.length = header.toBytes.length := by
    rw [GptHeader.length_toBytes, GptHeader.length_toBytes]
  rw [isBlock, padToBlocksize, padToBlocksize, sizes, unsealed]
  have sealed : (header.withCrc desc).toBytes =
      front ++ littleEndian 4 (header.withCrc desc).headerCrc32.toNat ++ back := split _
  rw [sealed]
  simp [drop_append, length]

theorem validateGptHeader_withCrc (unsealed : Unsealed desc lba header entries) :
    validateGptHeader (padToBlocksize desc (header.withCrc desc).toBytes) lba desc.lba = 0 := by
  have readBack : GptHeader.ofBytes (padToBlocksize desc (header.withCrc desc).toBytes) =
      header.withCrc desc := GptHeader.ofBytes_toBytes _ _
  unfold validateGptHeader
  rw [readBack, clear_withCrc unsealed.headerCrc32 rfl]
  dsimp only [GptHeader.withCrc]
  rw [if_neg (not_not.mpr unsealed.signature), if_neg (not_not.mpr rfl),
    if_neg (not_not.mpr unsealed.myLba), if_neg (UInt64.not_lt.mpr unsealed.firstUsableLba),
    if_neg (UInt64.not_lt.mpr unsealed.lastUsableLba)]

theorem isGptValid_withCrc (unsealed : Unsealed desc lba header entries)
    (mbr : (blkDread desc disk 0 1).isSome)
    (block : blkDread desc disk lba.toNat 1 =
      some (padToBlocksize desc (header.withCrc desc).toBytes))
    (array : blkDread desc disk header.partitionEntryLba.toNat
      (blockCnt desc (header.numPartitionEntries * header.sizeofPartitionEntry).toNat) =
        some entries) :
    isGptValid desc disk lba = .valid (header.withCrc desc) entries := by
  have readBack : GptHeader.ofBytes (padToBlocksize desc (header.withCrc desc).toBytes) =
      header.withCrc desc := GptHeader.ofBytes_toBytes _ _
  have notIgnored : (header.withCrc desc).signature ≠ gptHeaderChromeosIgnore := by
    rw [show (header.withCrc desc).signature = gptHeaderSignature from unsealed.signature]
    decide
  have allRead : allocReadGptEntries desc disk (header.withCrc desc) = some entries := by
    rw [allocReadGptEntries]
    exact (if_neg unsealed.someEntries).trans array
  obtain ⟨mbrBlock, mbrEq⟩ := Option.isSome_iff_exists.mp mbr
  unfold isGptValid
  rw [mbrEq, block]
  dsimp only
  rw [readBack, if_neg notIgnored,
    if_neg (not_not.mpr (validateGptHeader_withCrc unsealed)), allRead]
  exact if_neg (not_not.mpr unsealed.arrayCrc)

end Sealed

/-! ### The whole table -/

section Table

variable {desc : BlkDesc} {disk after : Memory} {header : GptHeader} {entries : List UInt8}

theorem setProtectiveMbr_ok (large : 512 ≤ desc.blksz)
    (written : setProtectiveMbr desc disk = .ok after) :
    ∃ block : List UInt8, block.length = 1 * desc.blksz ∧ 0 + 1 ≤ desc.lba.toNat ∧
      after = disk.write (0 * desc.blksz) block := by
  unfold setProtectiveMbr at written
  cases block : blkDread desc disk 0 1 with
  | none =>
    rw [block] at written
    cases written
  | some bytes =>
    rw [block] at written
    obtain ⟨⟨fits, -⟩, isAfter⟩ := blkDwrite_ok written
    refine ⟨_, ?_, fits, isAfter⟩
    have length : bytes.length = 1 * desc.blksz := by
      rw [blkDread, if_pos fits] at block
      rw [← Option.some.inj block, Memory.length_read]
    simp [protectiveMbr, length]
    omega

/-- Both tables and the protective MBR are read as they were written, since their blocks are
apart. -/
theorem blkDread_table {mbr primary backup : List UInt8} {count entriesLba backupLba lastLba : Nat}
    (mbrLength : mbr.length = 1 * desc.blksz) (primaryLength : primary.length = 1 * desc.blksz)
    (length : entries.length = count * desc.blksz)
    (backupLength : backup.length = 1 * desc.blksz)
    (front : 2 ≤ entriesLba) (apart : entriesLba + count ≤ backupLba)
    (back : backupLba + count ≤ lastLba) (fits : lastLba + 1 ≤ desc.lba.toNat)
    (isAfter : after = ((((disk.write (0 * desc.blksz) mbr).write (1 * desc.blksz) primary).write
      (entriesLba * desc.blksz) entries).write (backupLba * desc.blksz) entries).write
      (lastLba * desc.blksz) backup) :
    blkDread desc after 0 1 = some mbr ∧ blkDread desc after 1 1 = some primary ∧
      blkDread desc after entriesLba count = some entries ∧
      blkDread desc after backupLba count = some entries ∧
      blkDread desc after lastLba 1 = some backup := by
  subst isAfter
  refine ⟨?_, ?_, ?_, ?_, blkDread_write fits backupLength⟩
  · rw [blkDread_write_apart (.inl (by omega)) backupLength,
      blkDread_write_apart (.inl (by omega)) length, blkDread_write_apart (.inl (by omega)) length,
      blkDread_write_apart (.inl (by omega)) primaryLength, blkDread_write (by omega) mbrLength]
  · rw [blkDread_write_apart (.inl (by omega)) backupLength,
      blkDread_write_apart (.inl (by omega)) length, blkDread_write_apart (.inl (by omega)) length,
      blkDread_write (by omega) primaryLength]
  · rw [blkDread_write_apart (.inl (by omega)) backupLength,
      blkDread_write_apart (.inl (by omega)) length, blkDread_write (by omega) length]
  · rw [blkDread_write_apart (.inl (by omega)) backupLength, blkDread_write (by omega) length]

/-- The header as it is written to the front. -/
def primaryHeader (header : GptHeader) (entries : List UInt8) : GptHeader :=
  { header with partitionEntryArrayCrc32 := header.arrayCrc entries }

/-- The header as it is written to the end, without its checksum. -/
def backupHeader (header : GptHeader) (entries : List UInt8) : GptHeader :=
  { header with
    partitionEntryArrayCrc32 := header.arrayCrc entries
    myLba := header.alternateLba
    alternateLba := header.myLba
    partitionEntryLba := header.lastUsableLba + 1
    headerCrc32 := 0 }

theorem writeGptTable_ok (large : 512 ≤ desc.blksz) {count : Nat}
    (countEq : blockCnt desc (header.numPartitionEntries.toNat * gptEntrySize) = count)
    (length : entries.length = count * desc.blksz)
    (front : 2 ≤ header.partitionEntryLba.toNat)
    (apart : header.partitionEntryLba.toNat + count ≤ (header.lastUsableLba + 1).toNat)
    (back : (header.lastUsableLba + 1).toNat + count ≤ header.alternateLba.toNat)
    (written : writeGptTable desc disk header entries = .ok after) :
    (blkDread desc after 0 1).isSome ∧
      blkDread desc after 1 1 =
        some (padToBlocksize desc ((primaryHeader header entries).withCrc desc).toBytes) ∧
      blkDread desc after header.partitionEntryLba.toNat count = some entries ∧
      blkDread desc after (header.lastUsableLba + 1).toNat count = some entries ∧
      blkDread desc after header.alternateLba.toNat 1 =
        some (padToBlocksize desc ((backupHeader header entries).withCrc desc).toBytes) := by
  obtain ⟨withMbr, mbrOk, written⟩ := bind_eq_ok_iff.mp written
  obtain ⟨withPrimary, primaryOk, written⟩ := bind_eq_ok_iff.mp written
  obtain ⟨withEntries, entriesOk, written⟩ := bind_eq_ok_iff.mp written
  obtain ⟨withBackup, backupOk, written⟩ := bind_eq_ok_iff.mp written
  obtain ⟨mbr, mbrLength, mbrFits, rfl⟩ := setProtectiveMbr_ok large mbrOk
  rw [countEq] at entriesOk backupOk
  obtain ⟨⟨primaryFits, -⟩, rfl⟩ := blkDwrite_ok primaryOk
  obtain ⟨⟨entriesFit, -⟩, rfl⟩ := blkDwrite_ok entriesOk
  obtain ⟨⟨backupFits, -⟩, rfl⟩ := blkDwrite_ok backupOk
  obtain ⟨⟨lastFits, -⟩, isAfter⟩ := blkDwrite_ok written
  obtain ⟨mbrRead, reads⟩ := blkDread_table mbrLength (length_headerBlock large _) length
    (length_headerBlock large _) front apart back lastFits isAfter
  exact ⟨by rw [mbrRead]; rfl, reads⟩

end Table

/-! ### The round trip -/

section RoundTrip

variable {config : GptConfig} {desc : BlkDesc} {header : GptHeader}

/-- The header that `gpt_fill_header()` leaves, in numbers. -/
structure Filled (config : GptConfig) (desc : BlkDesc) (header : GptHeader) : Prop where
  signature : header.signature = gptHeaderSignature
  headerSize : header.headerSize.toNat = gptHeaderSize
  headerCrc32 : header.headerCrc32 = 0
  myLba : header.myLba = 1
  alternateLba : header.alternateLba = desc.lba - 1
  firstUsableLba : header.firstUsableLba = UInt64.ofNat (partitionEntriesOffset config desc) + 32
  lastUsableLba : header.lastUsableLba = desc.lba - 34
  partitionEntryLba : header.partitionEntryLba = UInt64.ofNat (partitionEntriesOffset config desc)
  entries : header.numPartitionEntries.toNat = config.entryNumbers
  array : (header.numPartitionEntries * header.sizeofPartitionEntry).toNat =
    config.entryNumbers * gptEntrySize

theorem gptFillHeader_ok {strGuid : List Char}
    (ok : gptFillHeader config desc strGuid = .ok header) : Filled config desc header := by
  have few := config.standardEntries
  have number : config.entryNumbers.toUInt32.toNat = config.entryNumbers :=
    UInt32.toNat_ofNat_of_lt' (Nat.lt_of_le_of_lt few (by decide))
  unfold gptFillHeader at ok
  split at ok
  · cases ok
  · obtain rfl := Except.ok.inj ok
    refine ⟨rfl, rfl, rfl, rfl, rfl, rfl, rfl, rfl, number, ?_⟩
    have size : gptEntrySize = 128 := rfl
    rw [UInt32.toNat_mul, number, show gptEntrySize.toUInt32.toNat = gptEntrySize from rfl, size]
    exact Nat.mod_eq_of_lt (by omega)

/-- Where the two tables lie. -/
structure Placement (config : GptConfig) (desc : BlkDesc) (header : GptHeader) (count : Nat) :
    Prop where
  front : 2 ≤ header.partitionEntryLba.toNat
  apart : header.partitionEntryLba.toNat + count ≤ (header.lastUsableLba + 1).toNat
  back : (header.lastUsableLba + 1).toNat + count ≤ header.alternateLba.toNat
  firstUsableLba : header.firstUsableLba ≤ desc.lba
  lastUsableLba : header.lastUsableLba ≤ desc.lba

theorem blockCnt_entries_le (large : 512 ≤ desc.blksz) :
    blockCnt desc (config.entryNumbers * gptEntrySize) ≤ 32 := by
  have few := config.standardEntries
  have size : gptEntrySize = 128 := rfl
  have blocks : (config.entryNumbers * gptEntrySize - 1) / desc.blksz ≤ 16383 / 512 :=
    Nat.div_le_div (by rw [size]; omega) large (by omega)
  unfold blockCnt
  omega

theorem Filled.placement (filled : Filled config desc header)
    (large : 512 ≤ desc.blksz)
    (room : partitionEntriesOffset config desc + 32 + 34 ≤ desc.lba.toNat) :
    Placement config desc header (blockCnt desc (config.entryNumbers * gptEntrySize)) := by
  have few := @blockCnt_entries_le config desc large
  have bound : desc.lba.toNat < UInt64.size := desc.lba.toNat_lt
  have size : UInt64.size = 2 ^ 64 := rfl
  have offset : (UInt64.ofNat (partitionEntriesOffset config desc)).toNat =
      partitionEntriesOffset config desc := UInt64.toNat_ofNat_of_lt' (by omega)
  have least : 2 ≤ partitionEntriesOffset config desc := Nat.le_max_right ..
  have one : (1 : UInt64).toNat = 1 := rfl
  have tail : (34 : UInt64).toNat = 34 := rfl
  have gap : (32 : UInt64).toNat = 32 := rfl
  have last : (desc.lba - 34).toNat = desc.lba.toNat - 34 :=
    UInt64.toNat_sub_of_le _ _ (UInt64.le_iff_toNat_le.mpr (by omega))
  have alternate : (desc.lba - 1).toNat = desc.lba.toNat - 1 :=
    UInt64.toNat_sub_of_le _ _ (UInt64.le_iff_toNat_le.mpr (by omega))
  have behind : (header.lastUsableLba + 1).toNat = desc.lba.toNat - 33 := by
    rw [filled.lastUsableLba, UInt64.toNat_add, last, one]
    omega
  refine ⟨?_, ?_, ?_, ?_, ?_⟩
  · rw [filled.partitionEntryLba, offset]
    exact least
  · rw [filled.partitionEntryLba, offset, behind]
    omega
  · rw [filled.alternateLba, alternate, behind]
    omega
  · rw [filled.firstUsableLba, UInt64.le_iff_toNat_le, UInt64.toNat_add, offset, gap]
    omega
  · rw [filled.lastUsableLba, UInt64.le_iff_toNat_le, last]
    omega

variable {index : Nat} {disk : Memory}

theorem gptPte_entryArray {entry : GptEntry} (found : entries[index]? = some entry) :
    gptPte (entryArray config desc entries) index = entry := by
  have bound : index < entries.length := (List.getElem?_eq_some_iff.mp found).1
  rw [gptPte, entryArray, padToBlocksize,
    bytesAt_flatMap (fun entry _ => GptEntry.length_toBytes entry)
      (by rw [getElem?_append_left bound, found]), GptEntry.ofBytes_toBytes]

theorem length_entryArray (large : 512 ≤ desc.blksz) (few : entries.length ≤ config.entryNumbers) :
    (entryArray config desc entries).length =
      blockCnt desc (config.entryNumbers * gptEntrySize) * desc.blksz := by
  rw [entryArray, length_padToBlocksize (by omega),
    flatMap_length_of_records (fun entry _ => GptEntry.length_toBytes entry), length_append,
    length_replicate, Nat.add_sub_cancel' few]

/-- What is reported of a partition when the table at the front is valid. -/
theorem partGetInfoEfi_of_valid {entries : List UInt8}
    (valid : isGptValid desc disk 1 = .valid header entries)
    (bound : index < header.numPartitionEntries.toNat) :
    partGetInfoEfi desc disk (index + 1) =
      if (gptPte entries index).partitionTypeGuid = unusedGuid then .error (-eperm)
      else .ok ((gptPte entries index).info desc) := by
  have found : findValidGpt desc disk = some (header, entries) := by
    rw [findValidGpt, gptPrimaryPartitionTableLba, valid]
  have place : ((index : Int) + 1 - 1).toNat = index := by omega
  unfold partGetInfoEfi
  rw [if_neg (by omega), found]
  dsimp only
  rw [place]
  by_cases unused : (gptPte entries index).partitionTypeGuid = unusedGuid
  · rw [if_pos (.inr (by simp [isPteValid, unused])), if_pos unused]
  · rw [if_neg (by simp [isPteValid, unused]; omega), if_neg unused]

section Restored

variable {after : Memory} {strDiskGuid : List Char} (large : 512 ≤ desc.blksz)
  (room : partitionEntriesOffset config desc + 32 + 34 ≤ desc.lba.toNat)
  (few : partitions.length ≤ config.entryNumbers)
  (restored : gptRestore config desc disk strDiskGuid partitions = .ok after)

include large room few restored

theorem gptRestore_tables :
    ∃ (header : GptHeader) (entries : List GptEntry),
      Filled config desc header ∧
      gptFillPte config desc header header.firstUsableLba partitions = .ok entries ∧
      isGptValid desc after 1 =
        .valid ((primaryHeader header (entryArray config desc entries)).withCrc desc)
          (entryArray config desc entries) ∧
      isGptValid desc after (desc.lba - 1) =
        .valid ((backupHeader header (entryArray config desc entries)).withCrc desc)
          (entryArray config desc entries) := by
  obtain ⟨header, headerOk, restored⟩ := bind_eq_ok_iff.mp restored
  obtain ⟨entries, entriesOk, written⟩ := bind_eq_ok_iff.mp restored
  have filled := gptFillHeader_ok headerOk
  have placement := filled.placement large room
  have sameLength : entries.length = partitions.length := by
    have types := congrArg List.length (gptFillPte_ok entriesOk).2
    rwa [length_map, length_map] at types
  have length := length_entryArray large (sameLength.trans_le few)
  have countEq : blockCnt desc (header.numPartitionEntries.toNat * gptEntrySize) =
      blockCnt desc (config.entryNumbers * gptEntrySize) := by rw [filled.entries]
  have someEntries : (header.numPartitionEntries * header.sizeofPartitionEntry).toNat ≠ 0 := by
    rw [filled.array]
    exact Nat.mul_ne_zero (Nat.one_le_iff_ne_zero.mp config.someEntries) (by decide)
  obtain ⟨mbr, primary, array, backupArray, backup⟩ :=
    writeGptTable_ok large countEq length placement.front placement.apart placement.back written
  refine ⟨header, entries, filled, entriesOk, ?_, ?_⟩
  · refine isGptValid_withCrc ⟨filled.signature, filled.headerSize, filled.headerCrc32,
      filled.myLba, placement.firstUsableLba, placement.lastUsableLba, someEntries, rfl⟩ mbr
      primary ?_
    exact filled.array ▸ array
  · refine isGptValid_withCrc ⟨filled.signature, filled.headerSize, rfl, filled.alternateLba,
      placement.firstUsableLba, placement.lastUsableLba, someEntries, rfl⟩ mbr
      (filled.alternateLba ▸ backup) ?_
    exact filled.array ▸ backupArray

/-- A partition is reported where it was laid out, or refused if its type is the unused one. -/
theorem gptRestore_info (found : partitions[index]? = some part) :
    ∃ entry : GptEntry, part.type config = some entry.partitionTypeGuid ∧
      (layout (desc.lba - 34) (UInt64.ofNat (partitionEntriesOffset config desc) + 32)
        partitions)[index]? = some entry.extent ∧
      partGetInfoEfi desc after (index + 1) =
        if entry.partitionTypeGuid = unusedGuid then .error (-eperm)
        else .ok (entry.info desc) := by
  obtain ⟨header, entries, filled, entriesOk, primary, backup⟩ :=
    gptRestore_tables large room few restored
  obtain ⟨extents, types⟩ := gptFillPte_ok entriesOk
  have typeAt := congrArg (·[index]?) types
  simp only [getElem?_map, found, Option.map_some] at typeAt
  obtain ⟨entry, entryAt, typeEq⟩ := Option.map_eq_some_iff.mp typeAt
  have bound : index < partitions.length := (List.getElem?_eq_some_iff.mp found).1
  refine ⟨entry, typeEq.symm, ?_, ?_⟩
  · rw [← filled.lastUsableLba, ← filled.firstUsableLba, ← extents, getElem?_map, entryAt,
      Option.map_some]
  · rw [partGetInfoEfi_of_valid primary ?_, gptPte_entryArray entryAt]
    exact Nat.lt_of_lt_of_le bound (few.trans_eq filled.entries.symm)

end Restored

/-- After a restore, both headers are valid and have the same entries, and every partition is
reported where it was laid out, unless its type is that of an unused entry. -/
theorem gptRestore_readBack (config : GptConfig) (desc : BlkDesc) (disk : Memory)
    (strDiskGuid : List Char) (partitions : List DiskPartition) {after : Memory}
    (blksz : desc.blksz = 512 ∨ desc.blksz = 4096)
    (room : partitionEntriesOffset config desc + 32 + 34 ≤ desc.lba.toNat)
    (few : partitions.length ≤ config.entryNumbers)
    (restored : gptRestore config desc disk strDiskGuid partitions = .ok after) :
    (∃ primary backup entries, isGptValid desc after 1 = .valid primary entries ∧
        isGptValid desc after (desc.lba - 1) = .valid backup entries) ∧
      gptVerifyHeaders desc after = 0 ∧
      ∀ (index : Nat) (part : DiskPartition), partitions[index]? = some part →
        ∃ extent : Extent, (layout (desc.lba - 34)
            (UInt64.ofNat (partitionEntriesOffset config desc) + 32) partitions)[index]? =
              some extent ∧
          if part.type config = some unusedGuid then
            partGetInfoEfi desc after (index + 1) = .error (-eperm)
          else
            ∃ info, partGetInfoEfi desc after (index + 1) = .ok info ∧
              info.start = extent.start ∧ info.size = extent.size := by
  have large : 512 ≤ desc.blksz := by omega
  obtain ⟨header, entries, filled, -, primary, backup⟩ :=
    gptRestore_tables large room few restored
  refine ⟨⟨_, _, _, primary, backup⟩, ?_, fun index part found => ?_⟩
  · have alternate : ((primaryHeader header (entryArray config desc entries)).withCrc
        desc).alternateLba = desc.lba - 1 := filled.alternateLba
    rw [gptVerifyHeaders, gptPrimaryPartitionTableLba, primary, backup]
    exact (if_neg (not_not.mpr alternate)).trans (if_neg (not_not.mpr rfl))
  · obtain ⟨entry, typeEq, extentAt, reported⟩ := gptRestore_info large room few restored found
    refine ⟨entry.extent, extentAt, ?_⟩
    rw [typeEq]
    split_ifs with unused
    · rw [reported, if_pos (Option.some.inj unused)]
    · exact ⟨_, reported.trans (if_neg fun same => unused (congrArg some same)), rfl, rfl⟩

end RoundTrip

/-- Four entries behind the header, and types of partitions. -/
def smallConfig : GptConfig where
  entryNumbers := 4
  someEntries := by decide
  standardEntries := by decide
  entriesOff := 0
  entriesOffset := none
  partitionTypeGuid := true
  partitionUuids := false
  guidGetBin := fun _ => none

def smallDisk : BlkDesc := ⟨512, 100, fun _ _ => true⟩

/-- The string of a GUID whose digits are all the same. -/
def repeatedGuid (digit : Char) : List Char :=
  List.replicate 8 digit ++ ['-'] ++ List.replicate 4 digit ++ ['-'] ++ List.replicate 4 digit ++
    ['-'] ++ List.replicate 4 digit ++ ['-'] ++ List.replicate 12 digit

def untyped (start size : UInt64) : DiskPartition :=
  ⟨start, size, Vector.replicate 32 0, false, [], []⟩

theorem gptRestore_readBack_twoPartitions :
    ∃ after, gptRestore smallConfig smallDisk (fun _ => 0) (repeatedGuid '1')
        [untyped 40 10, untyped 0 0] = .ok after ∧
      gptVerifyHeaders smallDisk after = 0 ∧
      ∃ info, partGetInfoEfi smallDisk after 2 = .ok info ∧ info.start = 50 ∧ info.size = 17 := by
  obtain ⟨after, restored⟩ : ∃ after, gptRestore smallConfig smallDisk (fun _ => 0)
      (repeatedGuid '1') [untyped 40 10, untyped 0 0] = .ok after := ⟨_, rfl⟩
  obtain ⟨-, verified, reported⟩ := gptRestore_readBack smallConfig smallDisk (fun _ => 0)
    (repeatedGuid '1') [untyped 40 10, untyped 0 0] (.inl rfl) (by decide) (by decide) restored
  obtain ⟨extent, extentAt, second⟩ := reported 1 _ rfl
  have extentEq : extent = ⟨50, 17⟩ :=
    Option.some.inj (extentAt.symm.trans (by decide : _ = some (⟨50, 17⟩ : Extent)))
  rw [if_neg (by decide), extentEq] at second
  exact ⟨after, restored, verified, second⟩

/-- A partition with the type of an unused entry. -/
def unusedPartition : DiskPartition := { untyped 40 10 with typeGuid := repeatedGuid '0' }

/-- It is written and then refused. -/
theorem unusedPartition_refused :
    ∃ after, gptRestore smallConfig smallDisk (fun _ => 0) (repeatedGuid '1') [unusedPartition] =
        .ok after ∧
      partGetInfoEfi smallDisk after 1 = .error (-eperm) := by
  obtain ⟨after, restored⟩ : ∃ after, gptRestore smallConfig smallDisk (fun _ => 0)
      (repeatedGuid '1') [unusedPartition] = .ok after := ⟨_, rfl⟩
  obtain ⟨entry, typeEq, -, reported⟩ := gptRestore_info (by decide) (by decide) (by decide)
    restored (show [unusedPartition][0]? = some unusedPartition from rfl)
  have unused : unusedPartition.type smallConfig = some unusedGuid := by decide +kernel
  exact ⟨after, restored, reported.trans (if_pos (Option.some.inj (typeEq.symm.trans unused)))⟩

end TachyonBoot.Gpt
