/-
This file models which bytes of a PE image secure boot hashes and which it loads,
`lib/efi_loader/efi_image_loader.c`.

`efi_image_parse` registers the regions to be hashed: the headers without the checksum and the
entry of the certificate table, the raw data of each section rounded up to the file alignment,
and the data behind all of these. `efi_image_region_add` refuses a region that overlaps another
one, and the parser ignores the refusal. `efi_load_pe` copies a piece of the file that is meant
to be the headers, and the raw data of every section, whether it was registered or not.

The regions are always sorted and disjoint. Where the rounded raw data of the sections are apart
from each other and from the regions of the headers, so that none is refused, all that is loaded is
hashed exactly if the header copy, and what the rounding has left out of a section, is.
-/

import TachyonBoot.Library.Records
import TachyonBoot.Library.ShellSort

namespace TachyonBoot.Image

open Library List

/-! ### The headers of a PE image -/

/-- The fields of a section header that parser and loader use. -/
structure Section where
  virtualSize : Nat
  virtualAddress : Nat
  sizeOfRawData : Nat
  pointerToRawData : Nat
deriving DecidableEq, Repr

def sectionHeaderSize : Nat := 40

def Section.decode (file : List UInt8) (offset : Nat) : Section where
  virtualSize := (uint32At file (offset + 8)).toNat
  virtualAddress := (uint32At file (offset + 12)).toNat
  sizeOfRawData := (uint32At file (offset + 16)).toNat
  pointerToRawData := (uint32At file (offset + 20)).toNat

/-- The two formats of the optional header. -/
inductive OptionalMagic where
  | pe32
  | pe32Plus
deriving DecidableEq, Repr

/-- The offset of `NumberOfRvaAndSizes` in the optional header. The data directory follows. -/
def OptionalMagic.directoryOffset : OptionalMagic → Nat
  | .pe32 => 92
  | .pe32Plus => 108

/-- The offset of the NT headers, `e_lfanew`. -/
def ntOffset (file : List UInt8) : Nat := (uint32At file 60).toNat

/-- The offset of the optional header, behind the signature and the file header. -/
def optionalOffset (file : List UInt8) : Nat := ntOffset file + 24

def optionalMagic (file : List UInt8) : Option OptionalMagic :=
  let magic := (uint16At file (optionalOffset file)).toNat
  if magic = 0x20b then some .pe32Plus else if magic = 0x10b then some .pe32 else none

def numberOfSections (file : List UInt8) : Nat := (uint16At file (ntOffset file + 6)).toNat

def sizeOfOptionalHeader (file : List UInt8) : Nat := (uint16At file (ntOffset file + 20)).toNat

def fileAlignment (file : List UInt8) : Nat := (uint32At file (optionalOffset file + 36)).toNat

def sizeOfHeaders (file : List UInt8) : Nat := (uint32At file (optionalOffset file + 60)).toNat

/-- The offset of the field `CheckSum`. The field `Subsystem` is four bytes behind. -/
def checkSumOffset (file : List UInt8) : Nat := optionalOffset file + 64

def numberOfRvaAndSizes (file : List UInt8) (magic : OptionalMagic) : Nat :=
  (uint32At file (optionalOffset file + magic.directoryOffset)).toNat

/-- `IMAGE_DIRECTORY_ENTRY_SECURITY`. -/
def securityEntry : Nat := 4

/-- The offset of the entry of the certificate table in the data directory. -/
def certificateOffset (file : List UInt8) (magic : OptionalMagic) : Nat :=
  optionalOffset file + magic.directoryOffset + 4 + 8 * securityEntry

/-- The section headers, as they stand in the file. -/
def sectionTable (file : List UInt8) : List Section :=
  (List.range (numberOfSections file)).map fun index =>
    Section.decode file
      (optionalOffset file + sizeOfOptionalHeader file + sectionHeaderSize * index)

def cmpPeSection (first second : Section) : Int :=
  if first.virtualAddress < second.virtualAddress then -1
  else if first.virtualAddress = second.virtualAddress then 0
  else 1

/-! ### Regions -/

/-- A region from an offset of the file to another one, which it does not include. -/
structure Region where
  start : Nat
  finish : Nat
deriving DecidableEq, Repr

def Region.Contains (region : Region) (offset : Nat) : Prop :=
  region.start ≤ offset ∧ offset < region.finish

/-- The place of a new region among the sorted ones, if it overlaps none of them. -/
def insertRegion (new : Region) : List Region → Option (List Region)
  | [] => some [new]
  | region :: rest =>
    if region.finish ≤ new.start then (insertRegion new rest).map (region :: ·)
    else if new.finish ≤ region.start then some (new :: region :: rest)
    else none

/-- `efi_image_region_add` with overlap check; a refusal leaves the list as it is, and its status
is ignored by the parser. -/
def efiImageRegionAdd (max : Nat) (regions : List Region) (new : Region) : List Region :=
  if max ≤ regions.length then regions
  else if new.finish < new.start then regions
  else (insertRegion new regions).getD regions

/-! ### Parsing -/

section Parse

variable (file : List UInt8) (magic : OptionalMagic)

/-- The regions of the headers, in the order in which they are added. -/
def headerRegions : List Region :=
  if numberOfRvaAndSizes file magic ≤ securityEntry then
    [⟨0, checkSumOffset file⟩, ⟨checkSumOffset file + 4, sizeOfHeaders file⟩]
  else
    [⟨0, checkSumOffset file⟩, ⟨checkSumOffset file + 4, certificateOffset file magic⟩,
      ⟨certificateOffset file magic + 8, sizeOfHeaders file⟩]

/-- The offset and the size of the certificates. -/
def authOffset : Nat :=
  if numberOfRvaAndSizes file magic ≤ securityEntry then 0
  else (uint32At file (certificateOffset file magic)).toNat

def authSize : Nat :=
  if numberOfRvaAndSizes file magic ≤ securityEntry then 0
  else (uint32At file (certificateOffset file magic + 4)).toNat

/-- The size of the raw data of a section, rounded up in 32 bits. -/
def alignedSize (align : Nat) (entry : Section) : Nat :=
  ((UInt32.ofNat entry.sizeOfRawData + UInt32.ofNat align - 1) &&&
    ~~~ (UInt32.ofNat align - 1)).toNat

def sectionRegion (entry : Section) : Region :=
  ⟨entry.pointerToRawData, entry.pointerToRawData + alignedSize (fileAlignment file) entry⟩

/-- The sections that are registered: those with raw data. -/
def rawSections (sections : List Section) : List Section :=
  sections.filter (·.sizeOfRawData ≠ 0)

/-- `bytes_hashed` after the sections. -/
def bytesHashed (sections : List Section) : Nat :=
  sizeOfHeaders file + ((rawSections sections).map (alignedSize (fileAlignment file))).sum

/-- The region of the data behind headers and sections. -/
def extraRegion (sections : List Section) : Region :=
  ⟨bytesHashed file sections, file.length - authSize file magic⟩

/-- The regions that are registered one after the other. -/
def registeredRegions (sections : List Section) : List Region :=
  let add := efiImageRegionAdd (numberOfSections file + 4)
  let regions := (headerRegions file magic).foldl add []
  let regions := ((rawSections sections).map (sectionRegion file)).foldl add regions
  if bytesHashed file sections + authSize file magic < file.length
  then add regions (extraRegion file magic sections)
  else regions

end Parse

/-- The result of `efi_image_parse`: the regions, and offset and size of the certificates. -/
structure Parsed where
  regions : List Region
  auth : Option (Nat × Nat)
deriving DecidableEq, Repr

/-- `efi_image_parse`. The sum of offset and size of the certificates is computed in 32 bits. -/
def efiImageParse (file : List UInt8) : Option Parsed :=
  match optionalMagic file with
  | none => none
  | some magic =>
    let regions := registeredRegions file magic (shellSort cmpPeSection (sectionTable file))
    if authSize file magic = 0 then some ⟨regions, none⟩
    else if file.length < (authOffset file magic + authSize file magic) % 2 ^ 32 then none
    else if authSize file magic < 8 then none
    else some ⟨regions, some (authOffset file magic, authSize file magic)⟩

/-! ### Loading -/

def sectionSize (entry : Section) : Nat :=
  if entry.virtualSize ≠ 0 then entry.virtualSize else entry.sizeOfRawData

/-- The number of bytes of a section that are copied. -/
def copySize (entry : Section) : Nat :=
  if entry.sizeOfRawData < sectionSize entry then entry.sizeOfRawData else sectionSize entry

/-- The number of bytes that are copied as headers: the sizes of the DOS header, of the 32-bit NT
headers with their optional header, once more of the optional header, and of the section table. -/
def headerCopySize (file : List UInt8) : Nat :=
  64 + 248 + sizeOfOptionalHeader file + numberOfSections file * sectionHeaderSize

/-- The parts of the file that `efi_load_pe` copies. -/
def loadCopies (file : List UInt8) : List Region :=
  ⟨0, headerCopySize file⟩ :: (sectionTable file).reverse.map fun entry =>
    ⟨entry.pointerToRawData, entry.pointerToRawData + copySize entry⟩

/-- The checksum and the entry of the certificate table, which are not hashed. -/
def Exempt (file : List UInt8) (magic : OptionalMagic) (offset : Nat) : Prop :=
  (checkSumOffset file ≤ offset ∧ offset < checkSumOffset file + 4) ∨
    (securityEntry < numberOfRvaAndSizes file magic ∧
      certificateOffset file magic ≤ offset ∧ offset < certificateOffset file magic + 8)

/-- Every byte of the file that is loaded is hashed, but for the exempt ones. -/
def LoadsHashed (file : List UInt8) (magic : OptionalMagic) (regions : List Region) : Prop :=
  ∀ copy ∈ loadCopies file, ∀ offset < file.length, copy.Contains offset →
    ¬ Exempt file magic offset → ∃ region ∈ regions, region.Contains offset

/-! ### Adding regions -/

def Region.Valid (region : Region) : Prop := region.start ≤ region.finish

def Region.Apart (first second : Region) : Prop :=
  first.finish ≤ second.start ∨ second.finish ≤ first.start

/-- The list is sorted, and its regions are disjoint. -/
structure SortedRegions (regions : List Region) : Prop where
  valid : ∀ region ∈ regions, region.Valid
  ordered : regions.Pairwise fun first second => first.finish ≤ second.start

theorem sortedRegions_nil : SortedRegions [] := ⟨forall_mem_nil _, List.Pairwise.nil⟩

section Add

variable {max : Nat} {regions after : List Region} {new region : Region}

section

variable (sorted : SortedRegions regions)

include sorted

theorem SortedRegions.insert (valid : new.Valid)
    (inserted : insertRegion new regions = some after) :
    SortedRegions after ∧ ∀ region, region ∈ after ↔ region = new ∨ region ∈ regions := by
  induction regions generalizing after with
  | nil =>
    obtain rfl := Option.some.inj inserted
    refine ⟨⟨?_, pairwise_singleton _ _⟩, fun region => mem_cons⟩
    rw [forall_mem_singleton]
    exact valid
  | cons first rest ih =>
    obtain ⟨allValid, ordered⟩ := sorted
    obtain ⟨firstValid, restValid⟩ := forall_mem_cons.mp allValid
    obtain ⟨before, restOrdered⟩ := pairwise_cons.mp ordered
    rw [insertRegion] at inserted
    split_ifs at inserted with behind ahead
    · obtain ⟨middle, middleEq, rfl⟩ := Option.map_eq_some_iff.mp inserted
      obtain ⟨middleSorted, members⟩ := ih ⟨restValid, restOrdered⟩ middleEq
      refine ⟨⟨forall_mem_cons.mpr ⟨firstValid, middleSorted.valid⟩, ?_⟩, fun region => ?_⟩
      · refine pairwise_cons.mpr ⟨fun region member => ?_, middleSorted.ordered⟩
        rcases (members region).mp member with rfl | later
        · exact behind
        · exact before region later
      · rw [mem_cons, members, mem_cons]
        exact or_left_comm
    · obtain rfl := Option.some.inj inserted
      refine ⟨⟨forall_mem_cons.mpr ⟨valid, allValid⟩, ?_⟩, fun region => mem_cons⟩
      refine pairwise_cons.mpr ⟨fun region member => ?_, ordered⟩
      rcases mem_cons.mp member with rfl | later
      · exact ahead
      · exact Nat.le_trans ahead (Nat.le_trans firstValid (before region later))

theorem SortedRegions.insert_isSome (new : Region) :
    (insertRegion new regions).isSome ↔ ∀ region ∈ regions, region.Apart new := by
  induction regions with
  | nil => exact iff_of_true rfl (forall_mem_nil _)
  | cons first rest ih =>
    obtain ⟨allValid, ordered⟩ := sorted
    obtain ⟨firstValid, restValid⟩ := forall_mem_cons.mp allValid
    obtain ⟨before, restOrdered⟩ := pairwise_cons.mp ordered
    rw [insertRegion, forall_mem_cons]
    split_ifs with behind ahead
    · rw [Option.isSome_map, ih ⟨restValid, restOrdered⟩]
      exact (and_iff_right (.inl behind)).symm
    · refine iff_of_true rfl ⟨.inr ahead, fun region later => .inr ?_⟩
      exact Nat.le_trans ahead (Nat.le_trans firstValid (before region later))
    · refine iff_of_false nofun fun apart => ?_
      exact apart.1.elim behind ahead

theorem SortedRegions.add (max : Nat) (new : Region) :
    SortedRegions (efiImageRegionAdd max regions new) := by
  unfold efiImageRegionAdd
  split_ifs with full invalid
  · exact sorted
  · exact sorted
  · cases inserted : insertRegion new regions with
    | none => exact sorted
    | some after => exact (sorted.insert (Nat.le_of_not_lt invalid) inserted).1

theorem SortedRegions.foldl_add (max : Nat) (news : List Region) :
    SortedRegions (news.foldl (efiImageRegionAdd max) regions) := by
  induction news generalizing regions with
  | nil => exact sorted
  | cons new news ih => exact ih (sorted.add max new)

theorem SortedRegions.mem_add (room : regions.length < max) :
    region ∈ efiImageRegionAdd max regions new ↔
      region ∈ regions ∨
        region = new ∧ new.Valid ∧ ∀ other ∈ regions, other.Apart new := by
  unfold efiImageRegionAdd
  rw [if_neg (Nat.not_le_of_lt room)]
  by_cases valid : new.Valid
  · rw [if_neg (Nat.not_lt_of_le valid)]
    have isSome := sorted.insert_isSome new
    cases inserted : insertRegion new regions with
    | none =>
      rw [inserted] at isSome
      have overlapping : ¬ ∀ other ∈ regions, other.Apart new := fun apart =>
        absurd (isSome.mpr apart) nofun
      rw [Option.getD_none]
      exact (or_iff_left fun added => overlapping added.2.2).symm
    | some after =>
      rw [inserted] at isSome
      rw [Option.getD_some, (sorted.insert valid inserted).2, or_comm]
      exact or_congr_right (and_iff_left ⟨valid, isSome.mp rfl⟩).symm
  · rw [if_pos (Nat.lt_of_not_le valid)]
    exact (or_iff_left fun added => valid added.2.1).symm

end

theorem length_insertRegion (inserted : insertRegion new regions = some after) :
    after.length = regions.length + 1 := by
  induction regions generalizing after with
  | nil =>
    obtain rfl := Option.some.inj inserted
    rfl
  | cons first rest ih =>
    rw [insertRegion] at inserted
    split_ifs at inserted
    · obtain ⟨middle, middleEq, rfl⟩ := Option.map_eq_some_iff.mp inserted
      rw [length_cons, ih middleEq, length_cons]
    · obtain rfl := Option.some.inj inserted
      rfl

theorem length_add_le (max : Nat) (regions : List Region) (new : Region) :
    (efiImageRegionAdd max regions new).length ≤ regions.length + 1 := by
  unfold efiImageRegionAdd
  split_ifs
  · exact Nat.le_succ _
  · exact Nat.le_succ _
  · cases inserted : insertRegion new regions with
    | none => exact Nat.le_succ _
    | some after => exact Nat.le_of_eq (length_insertRegion inserted)

theorem length_foldl_add_le (max : Nat) (regions news : List Region) :
    (news.foldl (efiImageRegionAdd max) regions).length ≤ regions.length + news.length := by
  induction news generalizing regions with
  | nil => exact le_rfl
  | cons new news ih =>
    have one := length_add_le max regions new
    have rest := ih (efiImageRegionAdd max regions new)
    rw [foldl_cons, length_cons]
    omega

/-- If the valid ones of some regions are apart from each other and from the list, exactly these
are added. -/
theorem SortedRegions.mem_foldl_add {news : List Region} (sorted : SortedRegions regions)
    (room : regions.length + news.length ≤ max)
    (apart : news.Pairwise fun first second => first.Valid → second.Valid → first.Apart second)
    (apartOld : ∀ old ∈ regions, ∀ new ∈ news, new.Valid → old.Apart new) :
    region ∈ news.foldl (efiImageRegionAdd max) regions ↔
      region ∈ regions ∨ region ∈ news ∧ region.Valid := by
  induction news generalizing regions with
  | nil => exact (or_iff_left fun added => absurd added.1 not_mem_nil).symm
  | cons new news ih =>
    obtain ⟨apartNew, apartRest⟩ := pairwise_cons.mp apart
    rw [length_cons] at room
    have member {other : Region} : other ∈ efiImageRegionAdd max regions new ↔
        other ∈ regions ∨ other = new ∧ new.Valid := by
      rw [sorted.mem_add (by omega)]
      refine or_congr_right (and_congr_right fun _ => and_iff_left_of_imp fun valid => ?_)
      exact fun old inList => apartOld old inList new mem_cons_self valid
    have shorter := length_add_le max regions new
    rw [foldl_cons, ih (sorted.add max new) (by omega) apartRest, member,
      mem_cons]
    · constructor
      · rintro ((old | ⟨rfl, valid⟩) | ⟨later, valid⟩)
        · exact .inl old
        · exact .inr ⟨.inl rfl, valid⟩
        · exact .inr ⟨.inr later, valid⟩
      · rintro (old | ⟨rfl | later, valid⟩)
        · exact .inl (.inl old)
        · exact .inl (.inr ⟨rfl, valid⟩)
        · exact .inr ⟨later, valid⟩
    · intro old inList later laterMember laterValid
      rcases member.mp inList with inRegions | ⟨rfl, valid⟩
      · exact apartOld old inRegions later (mem_cons_of_mem _ laterMember) laterValid
      · exact apartNew later laterMember valid laterValid

end Add

/-! ### What is hashed -/

/-- The end of the hashed headers, with the exempt fields. -/
def hashedHeaderEnd (file : List UInt8) (magic : OptionalMagic) : Nat :=
  if numberOfRvaAndSizes file magic ≤ securityEntry
  then max (sizeOfHeaders file) (checkSumOffset file + 4)
  else max (sizeOfHeaders file) (certificateOffset file magic + 8)

/-- The rounded raw data of the sections are apart from the regions of the headers and from each
other. -/
structure SectionsApart (file : List UInt8) (magic : OptionalMagic) : Prop where
  headers : ∀ region ∈ headerRegions file magic, region.Valid →
    ∀ entry ∈ rawSections (sectionTable file), region.Apart (sectionRegion file entry)
  sections : (rawSections (sectionTable file)).Pairwise fun first second =>
    (sectionRegion file first).Apart (sectionRegion file second)

/-- The extra data are registered: there are some, apart from headers and sections. -/
def ExtraHashed (file : List UInt8) (magic : OptionalMagic) : Prop :=
  bytesHashed file (sectionTable file) + authSize file magic < file.length ∧
    (∀ region ∈ headerRegions file magic, region.Valid →
      region.Apart (extraRegion file magic (sectionTable file))) ∧
    ∀ entry ∈ rawSections (sectionTable file),
      (sectionRegion file entry).Apart (extraRegion file magic (sectionTable file))

/-- The byte is in the hashed headers, in the rounded raw data of a section or in the extra data. -/
def InRanges (file : List UInt8) (magic : OptionalMagic) (offset : Nat) : Prop :=
  offset < hashedHeaderEnd file magic ∨
    (∃ entry ∈ rawSections (sectionTable file), (sectionRegion file entry).Contains offset) ∨
    (ExtraHashed file magic ∧ (extraRegion file magic (sectionTable file)).Contains offset)

/-- What is copied as headers is in these ranges, and so is what is copied from behind the rounded
raw data of a section, if the rounding has shortened them. -/
structure CopiesHashed (file : List UInt8) (magic : OptionalMagic) : Prop where
  headers : ∀ offset < file.length, offset < headerCopySize file → InRanges file magic offset
  sections : ∀ entry ∈ sectionTable file, ∀ offset < file.length,
    (sectionRegion file entry).finish ≤ offset →
    offset < entry.pointerToRawData + copySize entry → InRanges file magic offset

section Coverage

variable {file : List UInt8} {magic : OptionalMagic} {sections : List Section}

theorem checkSum_before_certificate (file : List UInt8) (magic : OptionalMagic) :
    checkSumOffset file + 4 ≤ certificateOffset file magic := by
  unfold checkSumOffset certificateOffset securityEntry
  cases magic with
  | pe32 =>
    dsimp only [OptionalMagic.directoryOffset]
    omega
  | pe32Plus =>
    dsimp only [OptionalMagic.directoryOffset]
    omega

/-- The header regions with the exempt fields fill the headers. -/
theorem hashed_header_iff {offset : Nat} (notExempt : ¬ Exempt file magic offset) :
    (∃ region ∈ headerRegions file magic, region.Valid ∧ region.Contains offset) ↔
      offset < hashedHeaderEnd file magic := by
  have order := checkSum_before_certificate file magic
  unfold Exempt at notExempt
  unfold headerRegions hashedHeaderEnd Region.Contains Region.Valid
  split_ifs with few
  · simp only [mem_cons, not_mem_nil, or_false, exists_eq_or_imp, exists_eq_left]
    omega
  · simp only [mem_cons, not_mem_nil, or_false, exists_eq_or_imp, exists_eq_left]
    omega

theorem headerRegions_apart (file : List UInt8) (magic : OptionalMagic) :
    (headerRegions file magic).Pairwise fun first second =>
      first.Valid → second.Valid → first.Apart second := by
  have order := checkSum_before_certificate file magic
  unfold headerRegions
  split_ifs
  · refine pairwise_pair.mpr fun _ _ => .inl ?_
    exact Nat.le_add_right _ _
  · refine pairwise_cons.mpr ⟨fun second member _ _ => .inl ?_, ?_⟩
    · rcases mem_pair.mp member with rfl | rfl
      · exact Nat.le_add_right _ _
      · dsimp only
        omega
    · refine pairwise_pair.mpr fun _ _ => .inl ?_
      exact Nat.le_add_right _ _

theorem headerRegions_length (file : List UInt8) (magic : OptionalMagic) :
    (headerRegions file magic).length ≤ 3 := by
  unfold headerRegions
  split_ifs
  · exact Nat.le_succ 2
  · exact Nat.le_refl 3

theorem sectionRegion_valid (file : List UInt8) (entry : Section) :
    (sectionRegion file entry).Valid := Nat.le_add_right _ _

theorem Region.Apart.symm {first second : Region} (apart : first.Apart second) :
    second.Apart first := Or.symm apart

variable (apart : SectionsApart file magic) (perm : sections.Perm (sectionTable file))

include perm

theorem rawSections_length :
    (rawSections sections).length ≤ numberOfSections file := by
  refine Nat.le_trans (length_filter_le _ _) ?_
  rw [perm.length_eq, sectionTable, length_map, length_range]

theorem bytesHashed_perm :
    bytesHashed file sections = bytesHashed file (sectionTable file) := by
  unfold bytesHashed rawSections
  exact congrArg _ ((perm.filter _).map _).sum_nat

include apart

/-- The header and section regions that get registered, where the sections are apart. -/
theorem mem_headers_and_sections (region : Region) :
    region ∈ ((rawSections sections).map (sectionRegion file)).foldl
        (efiImageRegionAdd (numberOfSections file + 4))
        ((headerRegions file magic).foldl (efiImageRegionAdd (numberOfSections file + 4)) []) ↔
      (region ∈ headerRegions file magic ∧ region.Valid) ∨
        ∃ entry ∈ rawSections (sectionTable file), region = sectionRegion file entry := by
  have rawPerm : (rawSections sections).Perm (rawSections (sectionTable file)) := perm.filter _
  have few := headerRegions_length file magic
  have rawLength := rawSections_length perm
  have header {other : Region} : other ∈ (headerRegions file magic).foldl
      (efiImageRegionAdd (numberOfSections file + 4)) [] ↔
        other ∈ headerRegions file magic ∧ other.Valid := by
    rw [sortedRegions_nil.mem_foldl_add (by rw [length_nil]; omega) (headerRegions_apart file magic)
      fun old member => absurd member not_mem_nil]
    exact or_iff_right not_mem_nil
  have bound := length_foldl_add_le (numberOfSections file + 4) [] (headerRegions file magic)
  rw [length_nil] at bound
  rw [(sortedRegions_nil.foldl_add _ _).mem_foldl_add, header]
  · refine or_congr_right ?_
    rw [mem_map]
    constructor
    · rintro ⟨⟨entry, member, rfl⟩, -⟩
      exact ⟨entry, rawPerm.mem_iff.mp member, rfl⟩
    · rintro ⟨entry, member, rfl⟩
      exact ⟨⟨entry, rawPerm.mem_iff.mpr member, rfl⟩, sectionRegion_valid file entry⟩
  · rw [length_map]
    omega
  · rw [pairwise_map]
    refine List.Pairwise.imp (fun apart _ _ => apart) ?_
    exact (rawPerm.pairwise_iff Region.Apart.symm).mpr apart.sections
  · intro old member new newMember _
    obtain ⟨entry, raw, rfl⟩ := mem_map.mp newMember
    obtain ⟨inHeaders, valid⟩ := header.mp member
    exact apart.headers old inHeaders valid entry (rawPerm.mem_iff.mp raw)

theorem mem_registeredRegions {region : Region} :
    region ∈ registeredRegions file magic sections ↔
      ((region ∈ headerRegions file magic ∧ region.Valid) ∨
        ∃ entry ∈ rawSections (sectionTable file), region = sectionRegion file entry) ∨
      ExtraHashed file magic ∧ region = extraRegion file magic (sectionTable file) := by
  have few := headerRegions_length file magic
  have rawLength := rawSections_length perm
  have headerBound := length_foldl_add_le (numberOfSections file + 4) [] (headerRegions file magic)
  have bound := length_foldl_add_le (numberOfSections file + 4)
    ((headerRegions file magic).foldl (efiImageRegionAdd (numberOfSections file + 4)) [])
    ((rawSections sections).map (sectionRegion file))
  have member {other : Region} := mem_headers_and_sections apart perm other
  have extraEq : extraRegion file magic sections = extraRegion file magic (sectionTable file) := by
    unfold extraRegion
    rw [bytesHashed_perm perm]
  unfold registeredRegions
  dsimp only
  rw [bytesHashed_perm perm, extraEq]
  rw [length_nil] at headerBound
  rw [length_map] at bound
  by_cases more : bytesHashed file (sectionTable file) + authSize file magic < file.length
  · rw [if_pos more, ((sortedRegions_nil.foldl_add _ _).foldl_add _ _).mem_add (by omega), member]
    refine or_congr_right ?_
    rw [and_comm (a := ExtraHashed file magic)]
    refine and_congr_right fun _ => ?_
    constructor
    · rintro ⟨-, extraApart⟩
      refine ⟨more, fun header inHeaders valid => ?_, fun entry raw => ?_⟩
      · exact extraApart header (member.mpr (.inl ⟨inHeaders, valid⟩))
      · exact extraApart _ (member.mpr (.inr ⟨entry, raw, rfl⟩))
    · rintro ⟨-, headerApart, sectionApart⟩
      refine ⟨?_, fun other inList => ?_⟩
      · dsimp only [Region.Valid, extraRegion]
        omega
      · rcases member.mp inList with ⟨inHeaders, valid⟩ | ⟨entry, raw, rfl⟩
        · exact headerApart other inHeaders valid
        · exact sectionApart entry raw
  · rw [if_neg more, member]
    exact (or_iff_left fun extra => more extra.1.1).symm

/-- Where the sections are apart, the bytes in the ranges are hashed, and no others. -/
theorem hashed_iff_inRanges {offset : Nat} (notExempt : ¬ Exempt file magic offset) :
    (∃ region ∈ registeredRegions file magic sections, region.Contains offset) ↔
      InRanges file magic offset := by
  simp only [mem_registeredRegions apart perm]
  constructor
  · rintro ⟨region, (⟨header, valid⟩ | ⟨entry, raw, rfl⟩) | ⟨extra, rfl⟩, contains⟩
    · exact .inl ((hashed_header_iff notExempt).mp ⟨region, header, valid, contains⟩)
    · exact .inr (.inl ⟨entry, raw, contains⟩)
    · exact .inr (.inr ⟨extra, contains⟩)
  · rintro (inHeader | ⟨entry, raw, contains⟩ | ⟨extra, contains⟩)
    · obtain ⟨region, header, valid, contains⟩ := (hashed_header_iff notExempt).mpr inHeader
      exact ⟨region, .inl (.inl ⟨header, valid⟩), contains⟩
    · exact ⟨_, .inl (.inr ⟨entry, raw, rfl⟩), contains⟩
    · exact ⟨_, .inr ⟨extra, rfl⟩, contains⟩

/-- Where the sections are apart, everything that is loaded is hashed if and only if the copies
are in the ranges. -/
theorem loadsHashed_iff :
    LoadsHashed file magic (registeredRegions file magic sections) ↔ CopiesHashed file magic := by
  constructor
  · intro loads
    have copied {copy : Region} (isCopy : copy ∈ loadCopies file) {offset : Nat}
        (inFile : offset < file.length) (contains : copy.Contains offset) :
        InRanges file magic offset := by
      by_cases exempt : Exempt file magic offset
      · left
        have order := checkSum_before_certificate file magic
        unfold Exempt at exempt
        unfold hashedHeaderEnd
        split_ifs
        · omega
        · omega
      · exact (hashed_iff_inRanges apart perm exempt).mp
          (loads copy isCopy offset inFile contains exempt)
    refine ⟨fun offset inFile inCopy => ?_, fun entry inTable offset inFile behind inCopy => ?_⟩
    · exact copied mem_cons_self inFile ⟨Nat.zero_le _, inCopy⟩
    · exact copied (mem_cons_of_mem _ (mem_map.mpr
        ⟨entry, mem_reverse.mpr inTable, rfl⟩)) inFile
        ⟨(sectionRegion_valid file entry).trans behind, inCopy⟩
  · intro hashed copy copied offset inFile contains notExempt
    refine (hashed_iff_inRanges apart perm notExempt).mpr ?_
    rcases mem_cons.mp copied with rfl | inSection
    · exact hashed.headers offset inFile contains.2
    · obtain ⟨entry, inTable, rfl⟩ := mem_map.mp inSection
      rw [mem_reverse] at inTable
      by_cases behind : (sectionRegion file entry).finish ≤ offset
      · exact hashed.sections entry inTable offset inFile behind contains.2
      -- A section without raw data has nothing to copy.
      have nonempty : entry.sizeOfRawData ≠ 0 := by
        intro empty
        obtain ⟨low, high⟩ := contains
        dsimp only [copySize, sectionSize] at low high
        split_ifs at high
        all_goals omega
      have raw : entry ∈ rawSections (sectionTable file) :=
        mem_filter.mpr ⟨inTable, by simpa using nonempty⟩
      exact .inr (.inl ⟨entry, raw, contains.1, Nat.lt_of_not_le behind⟩)

end Coverage

theorem registeredRegions_sorted (file : List UInt8) (magic : OptionalMagic)
    (sections : List Section) : SortedRegions (registeredRegions file magic sections) := by
  unfold registeredRegions
  dsimp only
  split_ifs
  · exact ((sortedRegions_nil.foldl_add _ _).foldl_add _ _).add _ _
  · exact (sortedRegions_nil.foldl_add _ _).foldl_add _ _

/-- The regions of every parsed image are sorted and disjoint. Where the sections are apart, every
byte that is loaded is hashed, but for the checksum and the entry of the certificate table, if and
only if the copies are in the ranges. -/
theorem efiImageParse_hashes {file : List UInt8} {magic : OptionalMagic} {parsed : Parsed}
    (format : optionalMagic file = some magic) (succeeds : efiImageParse file = some parsed) :
    SortedRegions parsed.regions ∧
      (SectionsApart file magic →
        (LoadsHashed file magic parsed.regions ↔ CopiesHashed file magic)) := by
  have regions : parsed.regions =
      registeredRegions file magic (shellSort cmpPeSection (sectionTable file)) := by
    unfold efiImageParse at succeeds
    rw [format] at succeeds
    dsimp only at succeeds
    split_ifs at succeeds
    · exact congrArg Parsed.regions (Option.some.inj succeeds).symm
    · exact congrArg Parsed.regions (Option.some.inj succeeds).symm
  rw [regions]
  exact ⟨registeredRegions_sorted file magic _,
    fun apart => loadsHashed_iff apart (shellSort_perm _)⟩

/-! ### Two images -/

def Section.encode (entry : Section) : List UInt8 :=
  List.replicate 8 0 ++ littleEndian 4 entry.virtualSize ++ littleEndian 4 entry.virtualAddress ++
    littleEndian 4 entry.sizeOfRawData ++ littleEndian 4 entry.pointerToRawData ++
    List.replicate 16 0

/-- A PE32+ image with NT headers at 64, headers of 1024 bytes, a file alignment of 512 and no
certificates, whose sections are filled with zeros up to the given length. -/
def exampleImage (sections : List Section) (length : Nat) : List UInt8 :=
  let headers := [0x4d, 0x5a] ++ List.replicate 58 0 ++ littleEndian 4 64 ++
    [0x50, 0x45, 0, 0] ++ littleEndian 2 0xaa64 ++ littleEndian 2 sections.length ++
    List.replicate 12 0 ++ littleEndian 2 240 ++ littleEndian 2 0 ++
    littleEndian 2 0x20b ++ List.replicate 34 0 ++ littleEndian 4 512 ++ List.replicate 20 0 ++
    littleEndian 4 1024 ++ List.replicate 44 0 ++ littleEndian 4 16 ++ List.replicate 128 0 ++
    sections.flatMap Section.encode
  headers ++ List.replicate (length - headers.length) 0

def oneSection : List UInt8 := exampleImage [⟨512, 0x1000, 512, 1024⟩] 1536

theorem efiImageParse_hashes_oneSection :
    SectionsApart oneSection .pe32Plus ∧ CopiesHashed oneSection .pe32Plus ∧
      LoadsHashed oneSection .pe32Plus [⟨0, 152⟩, ⟨156, 232⟩, ⟨240, 1024⟩, ⟨1024, 1536⟩] := by
  have format : optionalMagic oneSection = some .pe32Plus := by decide +kernel
  have succeeds : efiImageParse oneSection =
      some ⟨[⟨0, 152⟩, ⟨156, 232⟩, ⟨240, 1024⟩, ⟨1024, 1536⟩], none⟩ := by decide +kernel
  have raw : rawSections (sectionTable oneSection) = [⟨512, 0x1000, 512, 1024⟩] := by
    decide +kernel
  have headerEnd : hashedHeaderEnd oneSection .pe32Plus = 1024 := by decide +kernel
  have apart : SectionsApart oneSection .pe32Plus := by
    have headers : ∀ region ∈ headerRegions oneSection .pe32Plus, region.finish ≤ 1024 := by
      decide +kernel
    refine ⟨fun region member _ => ?_, ?_⟩
    · rw [raw, forall_mem_singleton]
      exact .inl (headers region member)
    · rw [raw]
      exact pairwise_singleton _ _
  have copies : CopiesHashed oneSection .pe32Plus := by
    refine ⟨fun offset _ copied => ?_, fun entry inTable offset _ behind copied => ?_⟩
    · rw [show headerCopySize oneSection = 592 by decide +kernel] at copied
      rw [InRanges, headerEnd]
      omega
    · rw [show sectionTable oneSection = [⟨512, 0x1000, 512, 1024⟩] by decide +kernel,
        mem_singleton] at inTable
      subst inTable
      exact absurd (behind.trans_lt copied) (by decide +kernel)
  exact ⟨apart, copies, ((efiImageParse_hashes format succeeds).2 apart).mpr copies⟩

/-- The raw data of the second section begin in those of the first. -/
def overlappingSections : List UInt8 :=
  exampleImage [⟨512, 0x1000, 512, 1024⟩, ⟨512, 0x2000, 512, 1280⟩] 1792

/-- The second section is refused, so that its last bytes are loaded and not hashed. -/
theorem overlappingSections_not_hashed :
    ∃ parsed, efiImageParse overlappingSections = some parsed ∧
      ¬ LoadsHashed overlappingSections .pe32Plus parsed.regions := by
  refine ⟨⟨[⟨0, 152⟩, ⟨156, 232⟩, ⟨240, 1024⟩, ⟨1024, 1536⟩], none⟩, by decide +kernel, ?_⟩
  intro loads
  obtain ⟨region, registered, contains⟩ := loads ⟨1280, 1792⟩ (by decide +kernel) 1600
    (by decide +kernel) (by unfold Region.Contains; decide)
    (by unfold Exempt; decide +kernel)
  unfold Region.Contains at contains
  revert region
  decide +kernel

end TachyonBoot.Image
