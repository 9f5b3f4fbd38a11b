/-
This file tells when `gpt_fill_pte()` of `disk/part_efi.c` lays out sane partitions: such as begin
before they end, end among the usable blocks and keep off the header and the array of entries.

The function tests each partition by the size it was asked for, with sums that wrap, and counts of
the array the blocks that it fills. A size of zero makes every test of overlap hold, so that nothing
but the start is known of a partition that takes the rest of the disk. A start and a size whose sum
wraps are taken for a partition that ends early. One round of the loop is settled in numbers, and
the list follows by induction with the offset that is carried along.
-/

import TachyonBoot.Disk.GptRoundTrip

namespace TachyonBoot.Gpt

/-! ### Sane entries -/

/-- A block device whose block size is a number of the machine. -/
structure BlockDevice extends BlkDesc where
  someBytes : 0 < blksz
  inWord : blksz < 2 ^ 64

/-- The blocks on which a part of the array lies. -/
def arrayBlocks (desc : BlkDesc) (header : GptHeader) : Nat :=
  blockCnt desc (header.numPartitionEntries * header.sizeofPartitionEntry).toNat

/-- The blocks that the array fills. `gpt_fill_pte()` counts these. -/
def filledBlocks (desc : BlkDesc) (header : GptHeader) : Nat :=
  (header.numPartitionEntries * header.sizeofPartitionEntry).toNat / desc.blksz

/-- The entry is a range of usable blocks, apart from the header and from the array. -/
structure Sane (desc : BlkDesc) (header : GptHeader) (entry : GptEntry) : Prop where
  ordered : entry.startingLba.toNat ≤ entry.endingLba.toNat
  usable : entry.endingLba.toNat ≤ header.lastUsableLba.toNat
  offHeader : entry.endingLba.toNat < header.myLba.toNat ∨
    header.myLba.toNat < entry.startingLba.toNat
  offArray : entry.endingLba.toNat < header.partitionEntryLba.toNat ∨
    header.partitionEntryLba.toNat + arrayBlocks desc header ≤ entry.startingLba.toNat

/-! ### What is asked for -/

/-- A partition with the start that it has by itself or by the one before it. -/
structure Request where
  start : UInt64
  size : UInt64
  isLast : Bool

/-- The partitions from an offset on. -/
def requests : UInt64 → List DiskPartition → List Request
  | _, [] => []
  | offset, part :: rest =>
    let start := if part.start ≠ 0 then part.start else offset
    ⟨start, part.size, rest.isEmpty⟩ :: requests (start + part.size) rest

/-- A partition of size zero is the last one, and from its start to the last usable block there is
neither the header nor the array. -/
def Request.RestFits (desc : BlkDesc) (header : GptHeader) (request : Request) : Prop :=
  request.isLast = true ∧ request.start.toNat ≤ header.lastUsableLba.toNat ∧
    (header.lastUsableLba.toNat < header.myLba.toNat ∨
      header.myLba.toNat < request.start.toNat) ∧
    (header.lastUsableLba.toNat < header.partitionEntryLba.toNat ∨
      header.partitionEntryLba.toNat + arrayBlocks desc header ≤ request.start.toNat)

/-- The end of a partition does not wrap, and its start is not in the block that the array only
begins. With 33 blocks the last usable one is the greatest number, and a partition may end there. -/
def Request.EndFits (desc : BlkDesc) (header : GptHeader) (request : Request) : Prop :=
  request.start.toNat + request.size.toNat < 2 ^ 64 ∧
      (request.start.toNat = header.partitionEntryLba.toNat + filledBlocks desc header →
        arrayBlocks desc header = filledBlocks desc header) ∨
    request.start.toNat + request.size.toNat = 2 ^ 64 ∧
      header.lastUsableLba.toNat = 2 ^ 64 - 1 ∧
      header.partitionEntryLba.toNat + arrayBlocks desc header ≤ request.start.toNat

/-- What the tests of `gpt_fill_pte()` leave open about a partition. -/
def Request.Fits (desc : BlkDesc) (header : GptHeader) (request : Request) : Prop :=
  if request.size = 0 then request.RestFits desc header else request.EndFits desc header

variable {isLast : Bool} {part : DiskPartition} {filled : GptEntry × UInt64}

section Round

variable {config : GptConfig} {desc : BlkDesc} {header : GptHeader} {offset : UInt64}

theorem gptFillEntry_tests (ok : gptFillEntry config desc header isLast offset part = .ok filled) :
    ¬(filled.1.startingLba < header.myLba + 1 ∧ header.myLba < filled.2) ∧
      ¬(filled.1.startingLba < header.partitionEntryLba +
          (header.numPartitionEntries * header.sizeofPartitionEntry).toUInt64 /
            UInt64.ofNat desc.blksz ∧ header.partitionEntryLba < filled.2) ∧
      filled.2 ≤ header.lastUsableLba + 1 := by
  unfold gptFillEntry at ok
  generalize (if part.start ≠ 0 then part.start else offset) = start at ok
  dsimp only at ok
  split at ok
  · cases ok
  next apart =>
    split at ok
    · cases ok
    next inside =>
      split at ok
      · obtain rfl := Except.ok.inj ok
        exact ⟨fun overlap => apart (.inl overlap), fun overlap => apart (.inr overlap),
          UInt64.not_lt.mp inside⟩
      · cases ok

end Round

section Header

variable {config : GptConfig} {device : BlockDevice} {header : GptHeader}

theorem partitionEntriesOffset_lt (config : GptConfig) (device : BlockDevice) :
    partitionEntriesOffset config device.toBlkDesc < 2 ^ 33 := by
  have padded : paddedOffset device.toBlkDesc (config.entriesOffset.getD config.entriesOff) <
      2 ^ 32 := by
    unfold paddedOffset
    split
    · decide
    · exact Nat.mod_lt _ (by decide)
  have blocks := Nat.div_le_self
    (paddedOffset device.toBlkDesc (config.entriesOffset.getD config.entriesOff)) device.blksz
  unfold partitionEntriesOffset
  exact Nat.max_lt.mpr ⟨by omega, by decide⟩

/-- Behind the blocks that the array fills there is at most one more. -/
theorem arrayBlocks_cases (filled : Filled config device.toBlkDesc header) :
    0 < arrayBlocks device.toBlkDesc header ∧ filledBlocks device.toBlkDesc header ≤ 2 ^ 14 ∧
      (arrayBlocks device.toBlkDesc header = filledBlocks device.toBlkDesc header ∨
        arrayBlocks device.toBlkDesc header = filledBlocks device.toBlkDesc header + 1) := by
  have few := config.standardEntries
  have entries := config.someEntries
  have size : gptEntrySize = 128 := rfl
  have positive := device.someBytes
  unfold arrayBlocks filledBlocks blockCnt
  rw [filled.array, size]
  refine ⟨Nat.succ_pos _, (Nat.div_le_self _ _).trans (by omega), ?_⟩
  obtain ⟨bytes, count⟩ := Nat.exists_eq_add_of_lt
    (Nat.mul_pos entries (by decide : 0 < 128))
  rw [Nat.zero_add] at count
  rw [count, Nat.add_sub_cancel, Nat.succ_div]
  split
  · exact .inl rfl
  · exact .inr rfl

theorem arrayEnd_eq (filled : Filled config device.toBlkDesc header) :
    (header.partitionEntryLba +
        (header.numPartitionEntries * header.sizeofPartitionEntry).toUInt64 /
          UInt64.ofNat device.blksz).toNat =
      header.partitionEntryLba.toNat + filledBlocks device.toBlkDesc header := by
  have blocks := (arrayBlocks_cases filled).2.1
  have offset := partitionEntriesOffset_lt config device
  have word := device.inWord
  rw [filledBlocks] at *
  rw [UInt64.toNat_add, UInt64.toNat_div, filled.partitionEntryLba,
    UInt64.toNat_ofNat_of_lt' (by rw [UInt64.size]; omega),
    UInt64.toNat_ofNat_of_lt' (by rw [UInt64.size]; omega), UInt32.toNat_toUInt64]
  exact Nat.mod_eq_of_lt (by omega)

theorem front_le (made : Filled config device.toBlkDesc header) :
    2 ≤ header.partitionEntryLba.toNat := by
  have offset := partitionEntriesOffset_lt config device
  rw [made.partitionEntryLba, UInt64.toNat_ofNat_of_lt' (by rw [UInt64.size]; omega)]
  exact Nat.le_max_right _ _

/-- A request that has passed the tests, and its entry, in numbers. -/
structure Passed (desc : BlkDesc) (header : GptHeader) (request : Request) (entry : GptEntry) :
    Prop where
  starting : entry.startingLba.toNat = request.start.toNat
  ending : entry.endingLba.toNat =
    if request.isLast ∧ request.size = 0 then header.lastUsableLba.toNat
    else (2 ^ 64 - 1 + (request.start.toNat + request.size.toNat) % 2 ^ 64) % 2 ^ 64
  offHeader : 2 ≤ request.start.toNat ∨
    (request.start.toNat + request.size.toNat) % 2 ^ 64 ≤ 1
  offArray : header.partitionEntryLba.toNat + filledBlocks desc header ≤ request.start.toNat ∨
    (request.start.toNat + request.size.toNat) % 2 ^ 64 ≤ header.partitionEntryLba.toNat
  inside : (request.start.toNat + request.size.toNat) % 2 ^ 64 ≤
    (header.lastUsableLba.toNat + 1) % 2 ^ 64

variable {offset : UInt64} {request : Request} {entry : GptEntry}

section

variable (made : Filled config device.toBlkDesc header)

include made

theorem gptFillEntry_passed
    (ok : gptFillEntry config device.toBlkDesc header isLast offset part = .ok filled) :
    Passed device.toBlkDesc header ⟨filled.1.startingLba, part.size, isLast⟩ filled.1 := by
  obtain ⟨offHeader, offArray, inside⟩ := gptFillEntry_tests ok
  obtain ⟨-, -, next, ending⟩ := gptFillEntry_ok ok
  rw [next] at offHeader offArray inside ending
  have one : (1 : UInt64).toNat = 1 := rfl
  simp only [UInt64.lt_iff_toNat_lt, UInt64.le_iff_toNat_le, arrayEnd_eq made, made.myLba,
    UInt64.toNat_add, one] at offHeader offArray inside
  refine ⟨rfl, ?_, ?_, ?_, inside⟩
  · dsimp only
    rw [ending]
    split
    · rfl
    · rw [UInt64.toNat_sub, UInt64.toNat_add, one]
  · dsimp only
    omega
  · dsimp only
    omega

theorem Passed.sane_iff_restFits (passed : Passed device.toBlkDesc header request entry)
    (noSize : request.size = 0) :
    Sane device.toBlkDesc header entry ↔ request.RestFits device.toBlkDesc header := by
  obtain ⟨starting, ending, -, -, -⟩ := passed
  have zero : request.size.toNat = 0 := by rw [noSize]; rfl
  rw [zero, Nat.add_zero] at ending
  have mine : header.myLba.toNat = 1 := by rw [made.myLba]; rfl
  have startBound := request.start.toNat_lt
  rw [Request.RestFits]
  cases last : request.isLast with
  | true =>
    rw [if_pos ⟨last, noSize⟩] at ending
    constructor
    · rintro ⟨ordered, -, headerApart, arrayApart⟩
      rw [ending, starting] at ordered headerApart arrayApart
      exact ⟨rfl, ordered, headerApart, arrayApart⟩
    · rintro ⟨-, ordered, headerApart, arrayApart⟩
      rw [← ending, ← starting] at ordered headerApart arrayApart
      exact ⟨ordered, ending.le, headerApart, arrayApart⟩
  | false =>
    -- It ends before it starts, or with the greatest number and covers the header.
    rw [if_neg (fun rest => Bool.false_ne_true (last.symm.trans rest.1))] at ending
    refine iff_of_false ?_ (fun fits => Bool.false_ne_true fits.1)
    rintro ⟨ordered, -, headerApart, -⟩
    omega

/-- A partition with a size is sane if its end does not wrap and it keeps off the whole array. -/
theorem Passed.sane_iff_endFits (passed : Passed device.toBlkDesc header request entry)
    (sized : request.size ≠ 0) :
    Sane device.toBlkDesc header entry ↔ request.EndFits device.toBlkDesc header := by
  obtain ⟨starting, ending, offHeader, offArray, inside⟩ := passed
  rw [if_neg (fun rest => sized rest.2)] at ending
  have positive : request.size.toNat ≠ 0 := fun zero => sized (UInt64.toNat_inj.mp zero)
  obtain ⟨someBlocks, -, blocks⟩ := arrayBlocks_cases made
  have front := front_le made
  have mine : header.myLba.toNat = 1 := by rw [made.myLba]; rfl
  have startBound := request.start.toNat_lt
  have sizeBound := request.size.toNat_lt
  have lastBound := header.lastUsableLba.toNat_lt
  have arrayBound := header.partitionEntryLba.toNat_lt
  constructor
  · rintro ⟨ordered, usable, -, apart⟩
    rw [Request.EndFits]
    omega
  · intro fits
    rw [Request.EndFits] at fits
    refine ⟨?_, ?_, ?_, ?_⟩ <;> omega

theorem Passed.sane_iff (passed : Passed device.toBlkDesc header request entry) :
    Sane device.toBlkDesc header entry ↔ request.Fits device.toBlkDesc header := by
  rw [Request.Fits]
  split
  next noSize => exact passed.sane_iff_restFits made noSize
  next sized => exact passed.sane_iff_endFits made sized

theorem gptFillPte_passed {partitions : List DiskPartition} {entries : List GptEntry}
    (ok : gptFillPte config device.toBlkDesc header offset partitions = .ok entries) :
    List.Forall₂ (Passed device.toBlkDesc header) (requests offset partitions) entries := by
  induction partitions generalizing offset entries with
  | nil =>
    obtain rfl := Except.ok.inj ok
    exact .nil
  | cons part rest ih =>
    obtain ⟨filled, later, filledOk, restOk, rfl⟩ := gptFillPte_cons_ok ok
    obtain ⟨-, start, next, -⟩ := gptFillEntry_ok filledOk
    rw [requests, ← start, ← next]
    exact .cons (gptFillEntry_passed made filledOk) (ih restOk)

end

end Header

theorem forall_iff_of_forall₂ {Left Right : Type} {relation : Left → Right → Prop}
    {left : Left → Prop} {right : Right → Prop} {lefts : List Left} {rights : List Right}
    (related : List.Forall₂ relation lefts rights)
    (each : ∀ a b, relation a b → (right b ↔ left a)) :
    (∀ b ∈ rights, right b) ↔ ∀ a ∈ lefts, left a := by
  induction related with
  | nil => simp
  | cons head _ ih => simp [each _ _ head, ih]

/-- Under a header of `gpt_fill_header()` the entries that `gpt_fill_pte()` returns are all sane if
and only if every partition fits in the way that the tests leave open. -/
theorem gptFillPte_sane_iff (config : GptConfig) (device : BlockDevice) (strGuid : List Char)
    (partitions : List DiskPartition) {header : GptHeader} {entries : List GptEntry}
    (made : gptFillHeader config device.toBlkDesc strGuid = .ok header)
    (filled : gptFillPte config device.toBlkDesc header header.firstUsableLba partitions =
      .ok entries) :
    (∀ entry ∈ entries, Sane device.toBlkDesc header entry) ↔
      ∀ request ∈ requests header.firstUsableLba partitions,
        request.Fits device.toBlkDesc header := by
  have made := gptFillHeader_ok made
  exact forall_iff_of_forall₂ (gptFillPte_passed made filled) fun _ _ passed => passed.sane_iff made

def smallDevice : BlockDevice where
  toBlkDesc := smallDisk
  someBytes := by decide
  inWord := by decide

theorem gptFillPte_sane_twoPartitions :
    ∃ header entries,
      gptFillHeader smallConfig smallDevice.toBlkDesc (repeatedGuid '1') = .ok header ∧
      gptFillPte smallConfig smallDevice.toBlkDesc header header.firstUsableLba
        [untyped 40 10, untyped 0 0] = .ok entries ∧
      ∀ entry ∈ entries, Sane smallDevice.toBlkDesc header entry := by
  refine ⟨_, _, rfl, rfl, (gptFillPte_sane_iff smallConfig smallDevice (repeatedGuid '1')
    [untyped 40 10, untyped 0 0] rfl rfl).mpr ?_⟩
  refine List.forall_mem_cons.mpr ⟨?_, List.forall_mem_singleton.mpr ?_⟩
  · exact .inl ⟨by decide, by decide⟩
  · exact ⟨rfl, by decide, .inr (by decide), .inr (by decide)⟩

/-- The rest of the disk from the header on is given to a partition. -/
theorem restFromHeader_covers :
    ∃ header entry,
      gptFillHeader smallConfig smallDevice.toBlkDesc (repeatedGuid '1') = .ok header ∧
      gptFillPte smallConfig smallDevice.toBlkDesc header header.firstUsableLba [untyped 1 0] =
        .ok [entry] ∧
      entry.startingLba = header.myLba ∧ entry.endingLba = header.lastUsableLba ∧
      ¬Sane smallDevice.toBlkDesc header entry := by
  refine ⟨_, _, rfl, rfl, rfl, rfl, fun sane => ?_⟩
  exact absurd sane.offHeader (by decide)

end TachyonBoot.Gpt
