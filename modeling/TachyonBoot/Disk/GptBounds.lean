/-
This file tells when `part_get_info_efi()` of `disk/part_efi.c` stays in its buffers, whatever the
disk holds: the buffer of one block for the header and the one that `alloc_read_gpt_entries()`
allocates for the entries.

The functions that read a table are given a second time, with every read checked: a read beyond the
buffer has no result. Where all reads are inside, the result is that of the functions they stand
for. The length of the checksum of the entries is the size of the buffer before it was padded. But
the length of the checksum of the header is the header's own, and the entries are indexed by the
size of `gpt_entry` in a buffer that was sized by the header's size of an entry.
-/

import TachyonBoot.Disk.Gpt

namespace TachyonBoot.Gpt

open Library

/-! ### Checked reads -/

/-- A read of a buffer before what follows. -/
def reading {Value : Type} (buffer : List UInt8) (offset count : Nat)
    (continuation : Option Value) : Option Value :=
  if offset + count ≤ buffer.length then continuation else none

variable {Value : Type} {buffer block entries : List UInt8} {offset count : Nat}
  {lba lastlba : UInt64} {header : GptHeader}

theorem isSome_reading {continuation : Option Value} :
    (reading buffer offset count continuation).isSome ↔
      offset + count ≤ buffer.length ∧ continuation.isSome := by
  unfold reading
  split <;> simp [*]

theorem reading_eq_some {continuation : Option Value} {value : Value}
    (result : reading buffer offset count continuation = some value) :
    continuation = some value := by
  unfold reading at result
  split at result
  · exact result
  · cases result

/-- `validate_gpt_header()`: the fields, and with the right signature the bytes of the checksum. -/
def validateGptHeaderChecked (block : List UInt8) (lba lastlba : UInt64) : Option Int :=
  let header := GptHeader.ofBytes block
  reading block 0 gptHeaderSize <|
    if header.signature ≠ gptHeaderSignature then some (-1)
    else reading block 0 header.headerSize.toNat (some (validateGptHeader block lba lastlba))

/-- `alloc_read_gpt_entries()`, where `memalign()` may fail. -/
def allocReadGptEntriesIn (memalign : Nat → Bool) (desc : BlkDesc) (disk : Memory)
    (header : GptHeader) : Option (List UInt8) :=
  let count := (header.numPartitionEntries * header.sizeofPartitionEntry).toNat
  if memalign (blockCnt desc count * desc.blksz) then allocReadGptEntries desc disk header else none

/-- `validate_gpt_entries()`. -/
def validateGptEntriesChecked (header : GptHeader) (entries : List UInt8) : Option Int :=
  reading entries 0 (header.numPartitionEntries * header.sizeofPartitionEntry).toNat <|
    some (if header.arrayCrc entries ≠ header.partitionEntryArrayCrc32 then -1 else 0)

/-- `is_gpt_valid()`. -/
def isGptValidChecked (memalign : Nat → Bool) (desc : BlkDesc) (disk : Memory) (lba : UInt64) :
    Option GptCheck :=
  match blkDread desc disk 0 1, blkDread desc disk lba.toNat 1 with
  | some _, some block =>
    let header := GptHeader.ofBytes block
    reading block 0 gptHeaderSize <|
      if header.signature = gptHeaderChromeosIgnore then some .ignored
      else (validateGptHeaderChecked block lba desc.lba).bind fun ret =>
        if ret ≠ 0 then some .invalid
        else
          match allocReadGptEntriesIn memalign desc disk header with
          | none => some .invalid
          | some entries => (validateGptEntriesChecked header entries).bind fun ret =>
              some (if ret ≠ 0 then .invalid else .valid header entries)
  | _, _ => some .invalid

/-- `find_valid_gpt()`. -/
def findValidGptChecked (memalign : Nat → Bool) (desc : BlkDesc) (disk : Memory) :
    Option (Option (GptHeader × List UInt8)) :=
  (isGptValidChecked memalign desc disk gptPrimaryPartitionTableLba).bind fun
    | .valid header entries => some (some (header, entries))
    | _ => (isGptValidChecked memalign desc disk (desc.lba - 1)).bind fun
      | .valid header entries => some (some (header, entries))
      | _ => some none

/-- `part_get_info_efi()`: the type of the entry, and of one in use the rest. -/
def partGetInfoEfiChecked (memalign : Nat → Bool) (desc : BlkDesc) (disk : Memory) (part : Int) :
    Option (Except Int PartInfo) :=
  if part < 1 then some (.error (-einval))
  else (findValidGptChecked memalign desc disk).bind fun
    | none => some (.error (-einval))
    | some (header, entries) =>
      let index := (part - 1).toNat
      if part > header.numPartitionEntries.toNat then some (.error (-eperm))
      else reading entries (gptEntrySize * index) 16 <|
        if ¬isPteValid (gptPte entries index) then some (.error (-eperm))
        else reading entries (gptEntrySize * index) gptEntrySize <|
          some (.ok ((gptPte entries index).info desc))

section Agreement

variable {desc : BlkDesc} {disk : Memory} {ret : Int}

theorem validateGptHeaderChecked_eq
    (result : validateGptHeaderChecked block lba lastlba = some ret) :
    ret = validateGptHeader block lba lastlba := by
  have result := reading_eq_some result
  split at result
  next wrong => rw [validateGptHeader, if_pos wrong, Option.some.inj result]
  next => exact (Option.some.inj (reading_eq_some result)).symm

theorem validateGptEntriesChecked_eq
    (result : validateGptEntriesChecked header entries = some ret) :
    ret ≠ 0 ↔ header.arrayCrc entries ≠ header.partitionEntryArrayCrc32 := by
  rw [← Option.some.inj (reading_eq_some result)]
  split <;> simp [*]

/-- With memory enough, the checked function finds what the function finds. -/
theorem isGptValidChecked_eq {check : GptCheck}
    (result : isGptValidChecked (fun _ => true) desc disk lba = some check) :
    isGptValid desc disk lba = check := by
  unfold isGptValidChecked at result
  unfold isGptValid
  cases first : blkDread desc disk 0 1 with
  | none => simpa [first] using result
  | some mbr =>
    cases second : blkDread desc disk lba.toNat 1 with
    | none => simpa [first, second] using result
    | some block =>
      simp only [first, second] at result ⊢
      have result := reading_eq_some result
      split at result
      next ignored => rw [if_pos ignored, Option.some.inj result]
      next other =>
        rw [if_neg other]
        obtain ⟨ret, validated, result⟩ := Option.bind_eq_some_iff.mp result
        rw [← validateGptHeaderChecked_eq validated]
        split at result
        next wrong => rw [if_pos wrong, Option.some.inj result]
        next right =>
          rw [if_neg right]
          simp only [allocReadGptEntriesIn, if_true] at result
          cases alloc : allocReadGptEntries desc disk (GptHeader.ofBytes block) with
          | none => simpa [alloc] using result
          | some entries =>
            simp only [alloc] at result ⊢
            obtain ⟨ret, checked, result⟩ := Option.bind_eq_some_iff.mp result
            simpa [validateGptEntriesChecked_eq checked] using result

theorem findValidGptChecked_eq {found : Option (GptHeader × List UInt8)}
    (result : findValidGptChecked (fun _ => true) desc disk = some found) :
    findValidGpt desc disk = found := by
  obtain ⟨primary, checked, result⟩ := Option.bind_eq_some_iff.mp result
  rw [findValidGpt, isGptValidChecked_eq checked]
  cases primary with
  | valid header entries => exact Option.some.inj result
  | ignored | invalid =>
    obtain ⟨backup, checked, result⟩ := Option.bind_eq_some_iff.mp result
    rw [isGptValidChecked_eq checked]
    cases backup with
    | valid header entries => exact Option.some.inj result
    | ignored | invalid => exact Option.some.inj result

/-- With memory enough and all reads inside the buffers, the result is that of
`part_get_info_efi()`. -/
theorem partGetInfoEfiChecked_eq {part : Int} {info : Except Int PartInfo}
    (result : partGetInfoEfiChecked (fun _ => true) desc disk part = some info) :
    partGetInfoEfi desc disk part = info := by
  unfold partGetInfoEfiChecked at result
  unfold partGetInfoEfi
  split at result
  next low => rw [if_pos low, Option.some.inj result]
  next high =>
    obtain ⟨found, checked, result⟩ := Option.bind_eq_some_iff.mp result
    rw [if_neg high, findValidGptChecked_eq checked]
    cases found with
    | none => exact Option.some.inj result
    | some table =>
      simp only at result ⊢
      split at result
      next more => rw [if_pos (.inl more), Option.some.inj result]
      next within =>
        have result := reading_eq_some result
        split at result
        next unused => rw [if_pos (.inr unused), Option.some.inj result]
        next used =>
          rw [if_neg (not_or.mpr ⟨within, used⟩)]
          exact Option.some.inj (reading_eq_some result)

end Agreement

/-! ### In the buffers -/

/-- A block device with blocks of the usual sizes. -/
structure SectorDevice extends BlkDesc where
  large : 512 ≤ blksz

/-- The header at a block, if there is one, is not longer than the block. -/
def HeaderFits (desc : BlkDesc) (disk : Memory) (lba : UInt64) : Prop :=
  ∀ block, blkDread desc disk lba.toNat 1 = some block →
    (GptHeader.ofBytes block).signature = gptHeaderSignature →
    (GptHeader.ofBytes block).headerSize.toNat ≤ desc.blksz

/-- In the buffer there is the type of the entry at an index, and if the entry is in use, all of
it. -/
def EntryFits (entries : List UInt8) (index : Nat) : Prop :=
  gptEntrySize * index + 16 ≤ entries.length ∧
    (isPteValid (gptPte entries index) → gptEntrySize * index + gptEntrySize ≤ entries.length)

section Bounds

variable {memalign : Nat → Bool} {device : SectorDevice} {disk : Memory} {desc : BlkDesc}
  {start : Nat}

theorem length_of_blkDread (read : blkDread desc disk start count = some buffer) :
    buffer.length = count * desc.blksz := by
  unfold blkDread at read
  split at read
  · rw [← Option.some.inj read, Memory.length_read]
  · cases read

theorem blkDread_zero (read : blkDread desc disk start 1 = some buffer) :
    blkDread desc disk 0 1 = some (disk.read 0 desc.blksz) := by
  unfold blkDread at *
  split at read
  next inside => rw [if_pos (by omega), Nat.zero_mul, Nat.one_mul]
  next => cases read

theorem validateGptHeaderChecked_isSome (length : block.length = device.blksz) :
    (validateGptHeaderChecked block lba lastlba).isSome ↔
      ((GptHeader.ofBytes block).signature = gptHeaderSignature →
        (GptHeader.ofBytes block).headerSize.toNat ≤ device.blksz) := by
  have fields : 0 + gptHeaderSize ≤ device.blksz := le_trans (by decide) device.large
  rw [validateGptHeaderChecked, isSome_reading, length, and_iff_right fields]
  split
  next wrong => exact iff_of_true rfl fun right => absurd right wrong
  next right =>
    rw [isSome_reading, length, Nat.zero_add]
    exact ⟨fun inside _ => inside.1, fun inside => ⟨inside (not_not.mp right), rfl⟩⟩

theorem validateGptEntriesChecked_isSome
    (read : allocReadGptEntriesIn memalign device.toBlkDesc disk header = some entries) :
    (validateGptEntriesChecked header entries).isSome := by
  unfold allocReadGptEntriesIn at read
  dsimp only at read
  split at read
  · unfold allocReadGptEntries at read
    dsimp only at read
    split at read
    · cases read
    · have positive : 0 < device.blksz := lt_of_lt_of_le (by decide) device.large
      refine isSome_reading.mpr ⟨?_, rfl⟩
      rw [length_of_blkDread read, Nat.zero_add, blockCnt]
      have rounded := Nat.lt_mul_div_succ
        ((header.numPartitionEntries * header.sizeofPartitionEntry).toNat - 1) positive
      rw [Nat.mul_comm] at rounded
      omega
  · cases read

theorem isGptValidChecked_isSome (lba : UInt64) :
    (isGptValidChecked memalign device.toBlkDesc disk lba).isSome ↔
      HeaderFits device.toBlkDesc disk lba := by
  unfold isGptValidChecked HeaderFits
  cases second : blkDread device.toBlkDesc disk lba.toNat 1 with
  | none =>
    refine iff_of_true ?_ fun block read => nomatch read
    cases blkDread device.toBlkDesc disk 0 1 <;> rfl
  | some block =>
    have length := length_of_blkDread second
    rw [Nat.one_mul] at length
    have fields : 0 + gptHeaderSize ≤ device.blksz := le_trans (by decide) device.large
    simp only [blkDread_zero second, isSome_reading, length, fields, true_and, Option.some.injEq,
      forall_eq', ← @validateGptHeaderChecked_isSome block lba device.lba device length]
    split
    next ignored =>
      refine iff_of_true rfl ((validateGptHeaderChecked_isSome length).mpr fun right => ?_)
      exact absurd (ignored.symm.trans right) (by decide)
    next other =>
      cases validateGptHeaderChecked block lba device.lba with
      | none => rfl
      | some ret =>
        refine iff_of_true ?_ rfl
        rw [Option.bind_some]
        split
        · rfl
        · cases read : allocReadGptEntriesIn memalign device.toBlkDesc disk
              (GptHeader.ofBytes block) with
          | none => rfl
          | some entries =>
            obtain ⟨ret, checked⟩ := Option.isSome_iff_exists.mp
              (validateGptEntriesChecked_isSome read)
            simp [checked]

theorem findValidGptChecked_isSome :
    (findValidGptChecked memalign device.toBlkDesc disk).isSome ↔
      HeaderFits device.toBlkDesc disk gptPrimaryPartitionTableLba ∧
      ∀ check, isGptValidChecked memalign device.toBlkDesc disk gptPrimaryPartitionTableLba =
          some check →
        check.ret ≠ 1 → HeaderFits device.toBlkDesc disk (device.lba - 1) := by
  simp only [← @isGptValidChecked_isSome memalign]
  rw [findValidGptChecked]
  cases primary : isGptValidChecked memalign device.toBlkDesc disk gptPrimaryPartitionTableLba with
  | none => simp
  | some check =>
    simp only [Option.bind_some, Option.isSome_some, true_and, Option.some.injEq, forall_eq']
    cases check with
    | valid header entries => simp [GptCheck.ret]
    | ignored | invalid =>
      cases isGptValidChecked memalign device.toBlkDesc disk (device.lba - 1) with
      | none => simp [GptCheck.ret]
      | some backup => cases backup <;> simp [GptCheck.ret]

end Bounds

/-- For the partition with a number, `part_get_info_efi()` reads nothing outside of its buffers if
and only if the headers that it looks at fit into their block and the entry is in the buffer of the
table that it finds. -/
theorem partGetInfoEfi_inBounds_iff (device : SectorDevice) (disk : Memory)
    (memalign : Nat → Bool) (index : Nat) :
    (partGetInfoEfiChecked memalign device.toBlkDesc disk (index + 1)).isSome ↔
      HeaderFits device.toBlkDesc disk gptPrimaryPartitionTableLba ∧
      (∀ check, isGptValidChecked memalign device.toBlkDesc disk gptPrimaryPartitionTableLba =
          some check →
        check.ret ≠ 1 → HeaderFits device.toBlkDesc disk (device.lba - 1)) ∧
      ∀ header entries,
        findValidGptChecked memalign device.toBlkDesc disk = some (some (header, entries)) →
        index < header.numPartitionEntries.toNat → EntryFits entries index := by
  rw [← and_assoc, ← @findValidGptChecked_isSome memalign, partGetInfoEfiChecked,
    if_neg (by omega)]
  have place : ((index : Int) + 1 - 1).toNat = index := by omega
  cases findValidGptChecked memalign device.toBlkDesc disk with
  | none => simp
  | some found =>
    cases found with
    | none => simp
    | some table =>
      obtain ⟨header, entries⟩ := table
      rw [Option.bind_some, and_iff_right Option.isSome_some]
      dsimp only
      rw [place]
      split
      next more =>
        refine iff_of_true rfl fun _ _ same inside => ?_
        cases same
        omega
      next within =>
        have inside : index < header.numPartitionEntries.toNat := by omega
        have one : (∀ other others,
            some (some (header, entries)) = some (some (other, others)) →
              index < other.numPartitionEntries.toNat → EntryFits others index) ↔
            EntryFits entries index := by
          refine ⟨fun fits => fits _ _ rfl inside, fun fits _ _ same _ => ?_⟩
          cases same
          exact fits
        rw [one, EntryFits, isSome_reading]
        refine and_congr_right fun _ => ?_
        split
        next unused => exact iff_of_true rfl fun used => absurd used unused
        next used =>
          rw [isSome_reading]
          exact ⟨fun whole _ => whole.1, fun whole => ⟨whole (not_not.mp used), rfl⟩⟩

def hostileDevice : SectorDevice where
  blksz := 512
  lba := 100
  writable := fun _ _ => true
  large := le_rfl

/-- The signature at the second block, and a header of one byte more than the block. -/
def hostileDisk : Memory :=
  Memory.write (fun _ => 0) 512
    (littleEndian 8 gptHeaderSignature.toNat ++ littleEndian 4 0x00010000 ++ littleEndian 4 513)

theorem hostileDisk_readBeyond :
    partGetInfoEfiChecked (fun _ => true) hostileDevice.toBlkDesc hostileDisk 1 = none := by
  decide +kernel

end TachyonBoot.Gpt
