/-
This file models how the firmware of the ADSP is loaded, `drivers/soc/qcom/qcom_adsp_pas.c`, and
proves that it is placed faithfully and in bounds.

`qpas_mdt_load_segments()` goes over the program headers of an MDT file three times: it finds out
whether the segments are in files of their own, then the base from which they are relocated, and
then places them one by one. The bound of the last pass on the copy is a sum of 32 bits, which can
overflow; the copy is in bounds because the first pass has checked the same sum in 64 bits.

Before that, `qpas_mdt_init_image()` announces a window for the segments to the secure world. The
end of a segment and its rounding up to 4 KiB are sums of 32 bits, which overflow in the last page
below 4 GiB. And only the end is rounded, so that a segment that begins inside a page can get a
window larger than the carve-out rounded up.

The file and the carve-out are lists of bytes, and there is no result if an access is outside. The
flush of the cache is left out, and the metadata and the calls to the secure world are given by
what they return.
-/

import TachyonBoot.Library.Records

namespace TachyonBoot.Adsp

open Library List

/-! ### The MDT file -/

/-- The fields of `Elf32_Ehdr` that are used. -/
structure Ehdr where
  magic : List UInt8
  phoff : UInt32
  shoff : UInt32
  phentsize : UInt16
  phnum : UInt16
  shentsize : UInt16
  shnum : UInt16

def Ehdr.decode (data : List UInt8) : Ehdr where
  magic := bytesAt data 0 4
  phoff := uint32At data 28
  shoff := uint32At data 32
  phentsize := uint16At data 42
  phnum := uint16At data 44
  shentsize := uint16At data 46
  shnum := uint16At data 48

/-- The fields of `Elf32_Phdr` that are used. -/
structure Phdr where
  type : UInt32
  offset : UInt32
  paddr : UInt32
  filesz : UInt32
  memsz : UInt32
  flags : UInt32

def Phdr.decode (bytes : List UInt8) : Phdr where
  type := uint32At bytes 0
  offset := uint32At bytes 4
  paddr := uint32At bytes 12
  filesz := uint32At bytes 16
  memsz := uint32At bytes 20
  flags := uint32At bytes 24

/-- The sizes of `Elf32_Ehdr`, `Elf32_Phdr` and `Elf32_Shdr`. -/
def ehdrSize : Nat := 52

def phdrSize : Nat := 32

def shdrSize : Nat := 40

/-- `struct qpas_fw`: the file, whether its device is known, and its path. -/
structure Firmware where
  data : List UInt8
  desc : Bool
  path : List UInt8

def qpasMdtHeaderValid (fw : Firmware) : Bool :=
  if fw.data.length < ehdrSize then false
  else
    let ehdr := Ehdr.decode fw.data
    if ehdr.magic ≠ [0x7f, 0x45, 0x4c, 0x46] then false
    else if ehdr.phentsize.toNat ≠ phdrSize then false
    else if ehdr.phoff.toNat + ehdr.phnum.toNat * phdrSize > fw.data.length then false
    else if ehdr.shentsize ≠ 0 ∨ ehdr.shnum ≠ 0 then
      if ehdr.shentsize.toNat ≠ shdrSize then false
      else decide (ehdr.shoff.toNat + ehdr.shnum.toNat * shdrSize ≤ fw.data.length)
    else true

/-- The place of a program header. -/
def phdrPlace (fw : Firmware) (index : Nat) : Nat :=
  (Ehdr.decode fw.data).phoff.toNat + index * phdrSize

/-- `phdrs[i]`, if it is in the file. -/
def phdrAt (fw : Firmware) (index : Nat) : Option Phdr :=
  (readBytes fw.data (phdrPlace fw index) phdrSize).map Phdr.decode

def qcomMdtTypeMask : UInt32 := 0x07000000

def qcomMdtTypeHash : UInt32 := 0x02000000

def qcomMdtRelocatable : UInt32 := 0x08000000

def qpasMdtPhdrLoadable (phdr : Phdr) : Bool :=
  if phdr.type ≠ 1 then false
  else if phdr.flags &&& qcomMdtTypeMask = qcomMdtTypeHash then false
  else decide (phdr.memsz ≠ 0)

/-! ### The passes over the program headers -/

def qpasMdtBinsAreSplit (fw : Firmware) : List Nat → Option Bool
  | [] => some false
  | index :: rest =>
    (phdrAt fw index).bind fun phdr =>
      if phdr.filesz = 0 then qpasMdtBinsAreSplit fw rest
      else if phdr.offset.toNat > fw.data.length ∨
          phdr.offset.toNat + phdr.filesz.toNat > fw.data.length then some true
      else qpasMdtBinsAreSplit fw rest

/-- The second pass, with the values of `relocate` and `min_addr`. -/
def findRelocation (fw : Firmware) : List Nat → Bool → Nat → Option (Bool × Nat)
  | [], relocate, minAddr => some (relocate, minAddr)
  | index :: rest, relocate, minAddr =>
    (phdrAt fw index).bind fun phdr =>
      if qpasMdtPhdrLoadable phdr then
        findRelocation fw rest (relocate || phdr.flags &&& qcomMdtRelocatable != 0)
          (if phdr.paddr.toNat < minAddr then phdr.paddr.toNat else minAddr)
      else findRelocation fw rest relocate minAddr

def einval : Int := 22

/-- `%02u`. -/
def decimal (number : Nat) : List UInt8 :=
  ((if number < 10 then ['0'] else []) ++ Nat.toDigits 10 number).map (·.toNat.toUInt8)

/-- The path of a split file in a buffer of 128 bytes: its last three characters are replaced. -/
def segPath (path : List UInt8) (segment : Nat) : List UInt8 :=
  path.take (path.length - 3) ++ (0x62 :: decimal segment).take (128 - path.length + 2)

/-- What `qpas_read_file_exact()` gives for a path: the whole file or an error. -/
abbrev Files := List UInt8 → Except Int (List UInt8)

/-- `qpas_read_segment()` up to the copy. -/
def qpasReadSegment (fw : Firmware) (files : Files) (segment size : Nat) :
    Except Int (List UInt8) :=
  if fw.desc = false then .error (-einval)
  else if fw.path.length < 3 ∨ 128 ≤ fw.path.length then .error (-einval)
  else
    match files (segPath fw.path segment) with
    | .error ret => .error ret
    | .ok contents => if contents.length ≠ size then .error (-einval) else .ok contents

/-- A write to the carve-out, if it is inside. -/
def store (carveOut : List UInt8) (position : Nat) (data : List UInt8) : Option (List UInt8) :=
  if position + data.length ≤ carveOut.length then some (overwrite carveOut position data) else none

/-- The bytes of a segment that are copied: those of the file or those of the split file. -/
def segmentBytes (fw : Firmware) (files : Files) (split : Bool) (index : Nat) (phdr : Phdr) :
    Option (Except Int (List UInt8)) :=
  if phdr.filesz ≠ 0 ∧ split = false then
    if (phdr.offset + phdr.filesz).toNat > fw.data.length then some (.error (-einval))
    else (readBytes fw.data phdr.offset.toNat phdr.filesz.toNat).map .ok
  else if phdr.filesz ≠ 0 then some (qpasReadSegment fw files index phdr.filesz.toNat)
  else some (.ok [])

/-- The copy of these bytes and the zeros behind them. -/
def placeSegment (phdr : Phdr) (offset : Nat) (bytes carveOut : List UInt8) :
    Option (List UInt8) :=
  (store carveOut offset bytes).bind fun carveOut =>
    if phdr.memsz > phdr.filesz then
      store carveOut (offset + phdr.filesz.toNat)
        (List.replicate (phdr.memsz.toNat - phdr.filesz.toNat) 0)
    else some carveOut

/-- The third pass for one segment. -/
def loadSegment (fw : Firmware) (files : Files) (split : Bool) (memReloc index : Nat) (phdr : Phdr)
    (carveOut : List UInt8) : Option (Except Int Unit × List UInt8) :=
  let offset := phdr.paddr.toNat - memReloc
  if phdr.filesz > phdr.memsz then some (.error (-einval), carveOut)
  else if phdr.paddr.toNat < memReloc then some (.error (-einval), carveOut)
  else if offset + phdr.memsz.toNat > carveOut.length then some (.error (-einval), carveOut)
  else
    (segmentBytes fw files split index phdr).bind fun
      | .error ret => some (.error ret, carveOut)
      | .ok bytes => (placeSegment phdr offset bytes carveOut).map (.ok (), ·)

def loadSegments (fw : Firmware) (files : Files) (split : Bool) (memReloc : Nat) :
    List Nat → List UInt8 → Option (Except Int Unit × List UInt8)
  | [], carveOut => some (.ok (), carveOut)
  | index :: rest, carveOut =>
    (phdrAt fw index).bind fun phdr =>
      if qpasMdtPhdrLoadable phdr then
        (loadSegment fw files split memReloc index phdr carveOut).bind fun
          | (.error ret, carveOut) => some (.error ret, carveOut)
          | (.ok _, carveOut) => loadSegments fw files split memReloc rest carveOut
      else loadSegments fw files split memReloc rest carveOut

/-- `qpas_mdt_load_segments()`: the relocation base or the error, and the carve-out. -/
def qpasMdtLoadSegments (fw : Firmware) (files : Files) (memPhys : Nat) (carveOut : List UInt8) :
    Option (Except Int Nat × List UInt8) :=
  (readBytes fw.data 0 ehdrSize).bind fun header =>
    let indices := List.range (Ehdr.decode header).phnum.toNat
    (qpasMdtBinsAreSplit fw indices).bind fun split =>
      (findRelocation fw indices false (2 ^ 64 - 1)).bind fun (relocate, minAddr) =>
        let memReloc := if relocate then minAddr else memPhys
        (loadSegments fw files split memReloc indices carveOut).map fun (ret, carveOut) =>
          (ret.map fun _ => memReloc, carveOut)

/-! ### The window of the secure world -/

/-- `ALIGN(value, SZ_4K)` in 32 bits. -/
def align4K (value : UInt32) : Nat := (value + 0xfff).toNat / 0x1000 * 0x1000

/-- The loop of `qpas_mdt_init_image()`, with `relocate`, `min_addr` and `max_addr`. -/
def findWindow (fw : Firmware) : List Nat → Bool → Nat → Nat → Option (Bool × Nat × Nat)
  | [], relocate, minAddr, maxAddr => some (relocate, minAddr, maxAddr)
  | index :: rest, relocate, minAddr, maxAddr =>
    (phdrAt fw index).bind fun phdr =>
      if qpasMdtPhdrLoadable phdr then
        findWindow fw rest (relocate || phdr.flags &&& qcomMdtRelocatable != 0)
          (if phdr.paddr.toNat < minAddr then phdr.paddr.toNat else minAddr)
          (if (phdr.paddr + phdr.memsz).toNat > maxAddr then align4K (phdr.paddr + phdr.memsz)
            else maxAddr)
      else findWindow fw rest relocate minAddr maxAddr

/-- `qpas_mdt_init_image()`: what it returns, and the address and the size with which it calls
`qcom_scm_pas_mem_setup()`. -/
def qpasMdtInitImage (fw : Firmware) (readMetadata pasInitImage : Int)
    (pasMemSetup : Nat → Nat → Int) (memPhys : Nat) : Option (Int × Option (Nat × Nat)) :=
  (readBytes fw.data 0 ehdrSize).bind fun header =>
    let indices := List.range (Ehdr.decode header).phnum.toNat
    (findWindow fw indices false (2 ^ 64 - 1) 0).map fun (relocate, minAddr, maxAddr) =>
      if readMetadata ≠ 0 then (readMetadata, none)
      else if pasInitImage ≠ 0 then (pasInitImage, none)
      else if relocate then
        let size := (maxAddr + 2 ^ 64 - minAddr) % 2 ^ 64
        (pasMemSetup memPhys size, some (memPhys, size))
      else (0, none)

/-! ### What is loaded -/

/-- A loadable segment of the file with its program header. -/
structure Segment (fw : Firmware) (index : Nat) (phdr : Phdr) : Prop where
  inTable : index < (Ehdr.decode fw.data).phnum.toNat
  header : phdrAt fw index = some phdr
  loadable : qpasMdtPhdrLoadable phdr = true

/-- No two loadable segments share an address. -/
def DisjointSegments (fw : Firmware) : Prop :=
  ∀ first second phdr other, first ≠ second → Segment fw first phdr → Segment fw second other →
    phdr.paddr.toNat + phdr.memsz.toNat ≤ other.paddr.toNat ∨
      other.paddr.toNat + other.memsz.toNat ≤ phdr.paddr.toNat

/-- The bytes are those of the segment: in the file at its offset, or the whole split file. -/
def IsContent (fw : Firmware) (files : Files) (index : Nat) (phdr : Phdr) (bytes : List UInt8) :
    Prop :=
  bytes.length = phdr.filesz.toNat ∧
    (phdr.filesz = 0 ∨ readBytes fw.data phdr.offset.toNat phdr.filesz.toNat = some bytes ∨
      files (segPath fw.path index) = .ok bytes)

/-- The carve-out holds the segment at its offset, filled up by zeros. -/
def LoadedAt (fw : Firmware) (files : Files) (memReloc index : Nat) (phdr : Phdr)
    (carveOut : List UInt8) : Prop :=
  memReloc ≤ phdr.paddr.toNat ∧ ∃ bytes, IsContent fw files index phdr bytes ∧
    readBytes carveOut (phdr.paddr.toNat - memReloc) phdr.memsz.toNat =
      some (bytes ++ List.replicate (phdr.memsz.toNat - phdr.filesz.toNat) 0)

def roundUp4K (value : Nat) : Nat := (value + 0xfff) / 0x1000 * 0x1000

def Phdr.segmentEnd (phdr : Phdr) : Nat := phdr.paddr.toNat + phdr.memsz.toNat

/-- The window has the place of every segment, which is as far from the start of the carve-out as
the segment is from the relocation base, and is no larger than the carve-out rounded up. -/
def WindowCovers (fw : Firmware) (memPhys memSize relocBase : Nat) (window : Nat × Nat) : Prop :=
  (∀ index phdr, Segment fw index phdr → relocBase ≤ phdr.paddr.toNat ∧
    window.1 ≤ memPhys + (phdr.paddr.toNat - relocBase) ∧
    memPhys + (phdr.paddr.toNat - relocBase) + phdr.memsz.toNat ≤ window.1 + window.2) ∧
  window.2 ≤ roundUp4K memSize

/-- No end of a segment overflows, and no rounded end is too far from the start of a segment, the
lowest one among them. -/
def EndsFit (fw : Firmware) (memSize : Nat) : Prop :=
  ∀ index phdr, Segment fw index phdr → phdr.segmentEnd ≤ 0xfffff000 ∧
    ∀ other lowest, Segment fw other lowest →
      roundUp4K phdr.segmentEnd ≤ lowest.paddr.toNat + roundUp4K memSize

/-- The loadable segments, for a file that can be evaluated. -/
def loadableSegments (fw : Firmware) : List (Nat × Phdr) :=
  (List.range (Ehdr.decode fw.data).phnum.toNat).filterMap fun index =>
    ((phdrAt fw index).filter qpasMdtPhdrLoadable).map (index, ·)

theorem Segment.mem_loadableSegments {fw : Firmware} {index : Nat} {phdr : Phdr}
    (segment : Segment fw index phdr) : (index, phdr) ∈ loadableSegments fw := by
  refine mem_filterMap.mpr ⟨index, mem_range.mpr segment.inTable, ?_⟩
  simp [segment.header, segment.loadable, Option.filter]

/-! ### One segment -/

section OneSegment

variable {fw : Firmware} {files : Files} {split : Bool} {memReloc index : Nat} {phdr : Phdr}

theorem segmentBytes_content
    (inFile : split = false → phdr.filesz ≠ 0 →
      phdr.offset.toNat + phdr.filesz.toNat ≤ fw.data.length) :
    ∃ outcome, segmentBytes fw files split index phdr = some outcome ∧
      ∀ bytes, outcome = .ok bytes → IsContent fw files index phdr bytes := by
  unfold segmentBytes
  split_ifs with whole long split
  · exact ⟨_, rfl, fun bytes same => nomatch same⟩
  · have read : readBytes fw.data phdr.offset.toNat phdr.filesz.toNat =
        some (bytesAt fw.data phdr.offset.toNat phdr.filesz.toNat) :=
      if_pos (inFile whole.2 whole.1)
    rw [read]
    refine ⟨_, rfl, fun bytes same => ?_⟩
    obtain rfl := Except.ok.inj same
    have room := inFile whole.2 whole.1
    refine ⟨?_, .inr (.inl read)⟩
    rw [bytesAt, length_take, length_drop]
    omega
  · refine ⟨_, rfl, fun bytes same => ?_⟩
    unfold qpasReadSegment at same
    split_ifs at same
    split at same
    · cases same
    · rename_i contents found
      split_ifs at same with size
      obtain rfl := Except.ok.inj same
      exact ⟨Decidable.not_not.mp size, .inr (.inr found)⟩
  · have zero : phdr.filesz = 0 := Decidable.not_not.mp split
    refine ⟨_, rfl, fun bytes same => ?_⟩
    obtain rfl := Except.ok.inj same
    exact ⟨by rw [zero]; rfl, .inl zero⟩

theorem placeSegment_places {offset : Nat} {bytes carveOut : List UInt8}
    (size : bytes.length = phdr.filesz.toNat) (shorter : phdr.filesz.toNat ≤ phdr.memsz.toNat)
    (room : offset + phdr.memsz.toNat ≤ carveOut.length) :
    ∃ after, placeSegment phdr offset bytes carveOut = some after ∧
      after.length = carveOut.length ∧
      readBytes after offset phdr.memsz.toNat =
        some (bytes ++ List.replicate (phdr.memsz.toNat - phdr.filesz.toNat) 0) ∧
      ∀ start width, start + width ≤ offset ∨ offset + phdr.memsz.toNat ≤ start →
        readBytes after start width = readBytes carveOut start width := by
  have fits : offset + bytes.length ≤ carveOut.length := by omega
  have copied : readBytes (overwrite carveOut offset bytes) offset phdr.filesz.toNat =
      some bytes := by
    rw [readBytes, length_overwrite fits, ← size, if_pos fits, bytesAt_overwrite fits]
  rw [placeSegment, store, if_pos fits, Option.bind_some]
  by_cases more : phdr.memsz > phdr.filesz
  · have zeros := @length_replicate UInt8 (phdr.memsz.toNat - phdr.filesz.toNat) 0
    have sum : phdr.memsz.toNat = phdr.filesz.toNat + (phdr.memsz.toNat - phdr.filesz.toNat) :=
      (Nat.add_sub_cancel' shorter).symm
    generalize List.replicate (phdr.memsz.toNat - phdr.filesz.toNat) (0 : UInt8) = filling
      at zeros ⊢
    have behind : offset + phdr.filesz.toNat + filling.length ≤
        (overwrite carveOut offset bytes).length := by
      rw [length_overwrite fits]
      omega
    rw [if_pos more, store, if_pos behind]
    refine ⟨_, rfl, (length_overwrite behind).trans (length_overwrite fits), ?_, ?_⟩
    · rw [sum, ← zeros]
      refine readBytes_append ?_ ?_
      · rw [readBytes_overwrite_outside behind (.inl le_rfl), copied]
      · rw [readBytes, length_overwrite behind, if_pos behind, bytesAt_overwrite behind]
    · intro start width outside
      rw [readBytes_overwrite_outside behind (by omega),
        readBytes_overwrite_outside fits (by omega)]
  · have same : phdr.memsz.toNat = phdr.filesz.toNat :=
      Nat.le_antisymm (Nat.le_of_not_lt fun lt => more (UInt32.lt_iff_toNat_lt.mpr lt)) shorter
    rw [if_neg more, same, Nat.sub_self, replicate_zero, append_nil]
    refine ⟨_, rfl, length_overwrite fits, copied, fun start width outside => ?_⟩
    exact readBytes_overwrite_outside fits (by omega)

theorem loadSegment_loads (carveOut : List UInt8)
    (inFile : split = false → phdr.filesz ≠ 0 →
      phdr.offset.toNat + phdr.filesz.toNat ≤ fw.data.length) :
    ∃ result after, loadSegment fw files split memReloc index phdr carveOut =
        some (result, after) ∧ after.length = carveOut.length ∧ (result = .ok () →
      LoadedAt fw files memReloc index phdr after ∧
        ∀ start width, start + width ≤ phdr.paddr.toNat - memReloc ∨
            phdr.paddr.toNat - memReloc + phdr.memsz.toNat ≤ start →
          readBytes after start width = readBytes carveOut start width) := by
  unfold loadSegment
  dsimp only
  split_ifs with longer below outside
  · exact ⟨_, _, rfl, rfl, fun same => nomatch same⟩
  · exact ⟨_, _, rfl, rfl, fun same => nomatch same⟩
  · exact ⟨_, _, rfl, rfl, fun same => nomatch same⟩
  obtain ⟨outcome, computed, content⟩ := @segmentBytes_content fw files split index phdr inFile
  rw [computed, Option.bind_some]
  cases outcome with
  | error ret => exact ⟨_, _, rfl, rfl, fun same => nomatch same⟩
  | ok bytes =>
    have isContent := content bytes rfl
    have shorter : phdr.filesz.toNat ≤ phdr.memsz.toNat :=
      Nat.le_of_not_lt fun lt => longer (UInt32.lt_iff_toNat_lt.mpr lt)
    obtain ⟨after, placed, length, holds, unchanged⟩ :=
      placeSegment_places isContent.1 shorter (Nat.le_of_not_lt outside)
    dsimp only
    rw [placed]
    exact ⟨_, _, rfl, length, fun _ =>
      ⟨⟨Nat.le_of_not_lt below, bytes, isContent, holds⟩, unchanged⟩⟩

end OneSegment

/-! ### All segments -/

section Table

variable {fw : Firmware} {files : Files} {split : Bool} {memReloc : Nat}

theorem exists_phdrAt (valid : qpasMdtHeaderValid fw = true) {index : Nat}
    (inTable : index < (Ehdr.decode fw.data).phnum.toNat) :
    ∃ phdr, phdrAt fw index = some phdr := by
  unfold qpasMdtHeaderValid at valid
  dsimp only at valid
  split_ifs at valid with short magic size long
  all_goals
    unfold phdrAt readBytes phdrPlace
    unfold phdrSize at long ⊢
    rw [if_pos (by omega)]
    exact ⟨_, rfl⟩

theorem ehdrSize_le (valid : qpasMdtHeaderValid fw = true) : ehdrSize ≤ fw.data.length := by
  by_contra short
  unfold qpasMdtHeaderValid at valid
  rw [if_pos (Nat.lt_of_not_le short)] at valid
  cases valid

theorem exists_header (valid : qpasMdtHeaderValid fw = true) :
    ∃ header, readBytes fw.data 0 ehdrSize = some header ∧
      (Ehdr.decode header).phnum = (Ehdr.decode fw.data).phnum :=
  ⟨bytesAt fw.data 0 ehdrSize, if_pos ((Nat.zero_add _).symm ▸ ehdrSize_le valid),
    congrArg (fun field => UInt16.ofNat (ofLittleEndian field)) (bytesAt_take (by decide))⟩

/-- The first pass: if the image is not split, all its segments are in the file. -/
theorem qpasMdtBinsAreSplit_inFile {indices : List Nat}
    (readable : ∀ index ∈ indices, ∃ phdr, phdrAt fw index = some phdr) :
    ∃ split, qpasMdtBinsAreSplit fw indices = some split ∧ (split = false →
      ∀ index ∈ indices, ∀ phdr, phdrAt fw index = some phdr → phdr.filesz ≠ 0 →
        phdr.offset.toNat + phdr.filesz.toNat ≤ fw.data.length) := by
  induction indices with
  | nil => exact ⟨false, rfl, fun _ _ member => absurd member not_mem_nil⟩
  | cons index rest ih =>
    rw [forall_mem_cons] at readable
    obtain ⟨⟨phdr, header⟩, readable⟩ := readable
    obtain ⟨split, computed, inFile⟩ := ih readable
    rw [qpasMdtBinsAreSplit, header, Option.bind_some]
    split_ifs with empty outside
    · refine ⟨split, computed, fun whole => forall_mem_cons.mpr ⟨?_, inFile whole⟩⟩
      intro other found nonempty
      obtain rfl := Option.some.inj (header.symm.trans found)
      exact absurd empty nonempty
    · exact ⟨true, rfl, fun whole => nomatch whole⟩
    · refine ⟨split, computed, fun whole => forall_mem_cons.mpr ⟨?_, inFile whole⟩⟩
      intro other found _
      obtain rfl := Option.some.inj (header.symm.trans found)
      omega

theorem align4K_le (value : UInt32) : align4K value ≤ 0xfffff000 := by
  have bound := (value + 0xfff).toNat_lt
  unfold align4K
  omega

theorem align4K_end {phdr : Phdr} (fits : phdr.segmentEnd ≤ 0xfffff000) :
    (phdr.paddr + phdr.memsz).toNat = phdr.segmentEnd ∧
      align4K (phdr.paddr + phdr.memsz) = roundUp4K phdr.segmentEnd := by
  have sum : (phdr.paddr + phdr.memsz).toNat = phdr.segmentEnd := by
    rw [UInt32.toNat_add]
    exact Nat.mod_eq_of_lt (Nat.lt_of_le_of_lt fits (by decide))
  refine ⟨sum, ?_⟩
  have rounded : (phdr.paddr + phdr.memsz + 0xfff).toNat = phdr.segmentEnd + 0xfff := by
    rw [UInt32.toNat_add, sum]
    exact Nat.mod_eq_of_lt (Nat.lt_of_le_of_lt (Nat.add_le_add_right fits _) (by decide))
  rw [align4K, rounded, roundUp4K]

/-- The loop: it finds the same relocation as the second pass of the loader, its minimum is the
start of a segment, its maximum is bounded, and is that of the rounded ends if none of them
overflows. -/
theorem findWindow_spec {indices : List Nat}
    (inTable : ∀ index ∈ indices, index < (Ehdr.decode fw.data).phnum.toNat)
    (readable : ∀ index ∈ indices, ∃ phdr, phdrAt fw index = some phdr)
    (relocate : Bool) (minAddr maxAddr : Nat) :
    ∃ relocation low high, findWindow fw indices relocate minAddr maxAddr =
        some (relocation, low, high) ∧
      findRelocation fw indices relocate minAddr = some (relocation, low) ∧
      (relocate = true → relocation = true) ∧ low ≤ minAddr ∧
      (low = minAddr ∨ ∃ index phdr, Segment fw index phdr ∧ phdr.paddr.toNat = low) ∧
      (∀ index ∈ indices, ∀ phdr, Segment fw index phdr → low ≤ phdr.paddr.toNat ∧
        (phdr.flags &&& qcomMdtRelocatable ≠ 0 → relocation = true)) ∧
      (maxAddr ≤ 0xfffff000 → high ≤ 0xfffff000) ∧
      ((∀ index phdr, Segment fw index phdr → phdr.segmentEnd ≤ 0xfffff000) →
        maxAddr % 0x1000 = 0 → ∀ limit, high ≤ limit ↔ maxAddr ≤ limit ∧
          ∀ index ∈ indices, ∀ phdr, Segment fw index phdr →
            roundUp4K phdr.segmentEnd ≤ limit) := by
  induction indices generalizing relocate minAddr maxAddr with
  | nil =>
    refine ⟨_, _, _, rfl, rfl, id, Nat.le_refl _, .inl rfl,
      forall_mem_nil _, id, fun _ _ limit => ?_⟩
    simp
  | cons index rest ih =>
    rw [forall_mem_cons] at inTable readable
    obtain ⟨⟨phdr, header⟩, readable⟩ := readable
    have unique : ∀ other, Segment fw index other → other = phdr := fun other found =>
      Option.some.inj (found.header.symm.trans header)
    rw [findWindow, findRelocation, header, Option.bind_some, Option.bind_some]
    by_cases loadable : qpasMdtPhdrLoadable phdr = true
    · rw [if_pos loadable, if_pos loadable]
      have segment : Segment fw index phdr := ⟨inTable.1, header, loadable⟩
      obtain ⟨relocation, low, high, window, found, keeps, below, attained, segments, bounded,
        limits⟩ := ih inTable.2 readable _ _ _
      refine ⟨relocation, low, high, window, found, fun already => keeps (by simp [already]),
        by grind, ?_, forall_mem_cons.mpr ⟨fun other own => ?_, segments⟩, ?_, ?_⟩
      · rcases attained with same | other
        · split_ifs at same
          · exact .inr ⟨index, phdr, segment, same.symm⟩
          · exact .inl same
        · exact .inr other
      · obtain rfl := unique other own
        exact ⟨by grind, fun relocatable => keeps (by simp [relocatable])⟩
      · intro bound
        refine bounded ?_
        split_ifs
        · exact align4K_le _
        · exact bound
      · intro fits aligned limit
        obtain ⟨sum, rounded⟩ := align4K_end (fits index phdr segment)
        rw [sum, rounded] at limits
        have step : (if phdr.segmentEnd > maxAddr then roundUp4K phdr.segmentEnd else maxAddr) =
            max maxAddr (roundUp4K phdr.segmentEnd) := by
          unfold roundUp4K
          split_ifs <;> omega
        rw [step] at limits
        have next := limits fits (by unfold roundUp4K; omega) limit
        rw [next, max_le_iff, and_assoc, forall_mem_cons]
        refine and_congr_right fun _ => and_congr_left fun _ => ⟨fun own other found => ?_, ?_⟩
        · rwa [unique other found]
        · exact fun all => all phdr segment
    · rw [if_neg loadable, if_neg loadable]
      have skipped : ∀ other, ¬Segment fw index other := fun other found =>
        loadable (unique other found ▸ found.loadable)
      obtain ⟨relocation, low, high, window, found, keeps, below, attained, segments, bounded,
        limits⟩ := ih inTable.2 readable relocate minAddr maxAddr
      refine ⟨relocation, low, high, window, found, keeps, below, attained,
        forall_mem_cons.mpr ⟨fun other own => absurd own (skipped other), segments⟩, bounded,
        fun fits aligned limit => ?_⟩
      rw [limits fits aligned limit, forall_mem_cons]
      exact and_congr_right fun _ =>
        ⟨fun all => ⟨fun other own => absurd own (skipped other), all⟩, And.right⟩

/-- The last pass. A segment that is placed stays, because those behind it are elsewhere. -/
theorem loadSegments_loads {indices : List Nat} (nodup : indices.Nodup)
    (inTable : ∀ index ∈ indices, index < (Ehdr.decode fw.data).phnum.toNat)
    (readable : ∀ index ∈ indices, ∃ phdr, phdrAt fw index = some phdr)
    (inFile : split = false → ∀ index ∈ indices, ∀ phdr, phdrAt fw index = some phdr →
      phdr.filesz ≠ 0 → phdr.offset.toNat + phdr.filesz.toNat ≤ fw.data.length)
    (carveOut : List UInt8) :
    ∃ result after, loadSegments fw files split memReloc indices carveOut =
        some (result, after) ∧ after.length = carveOut.length ∧ (result = .ok () →
      (∀ start width, (∀ index ∈ indices, ∀ phdr, Segment fw index phdr →
          start + width ≤ phdr.paddr.toNat - memReloc ∨
            phdr.paddr.toNat - memReloc + phdr.memsz.toNat ≤ start) →
        readBytes after start width = readBytes carveOut start width) ∧
      (DisjointSegments fw → ∀ index ∈ indices, ∀ phdr, Segment fw index phdr →
        LoadedAt fw files memReloc index phdr after)) := by
  induction indices generalizing carveOut with
  | nil =>
    exact ⟨_, _, rfl, rfl, fun _ => ⟨fun _ _ _ => rfl,
      fun _ _ member => absurd member not_mem_nil⟩⟩
  | cons index rest ih =>
    rw [nodup_cons] at nodup
    rw [forall_mem_cons] at inTable readable
    obtain ⟨⟨phdr, header⟩, readable⟩ := readable
    have later := ih nodup.2 inTable.2 readable
      fun whole => (forall_mem_cons.mp (inFile whole)).2
    rw [loadSegments, header, Option.bind_some]
    by_cases loadable : qpasMdtPhdrLoadable phdr = true
    · rw [if_pos loadable]
      have segment : Segment fw index phdr := ⟨inTable.1, header, loadable⟩
      obtain ⟨result, middle, loaded, length, placed⟩ := @loadSegment_loads fw files split memReloc
        index phdr carveOut fun whole => inFile whole index mem_cons_self phdr header
      rw [loaded, Option.bind_some]
      cases result with
      | error ret => exact ⟨_, _, rfl, length, fun same => nomatch same⟩
      | ok done =>
        obtain ⟨loadedAt, unchanged⟩ := placed rfl
        obtain ⟨result, after, computed, lengthAfter, rest⟩ := later middle
        refine ⟨result, after, computed, lengthAfter.trans length, fun ok => ?_⟩
        obtain ⟨keeps, loads⟩ := rest ok
        constructor
        · intro start width outside
          rw [forall_mem_cons] at outside
          rw [keeps start width outside.2, unchanged start width (outside.1 phdr segment)]
        · intro disjoint
          refine forall_mem_cons.mpr ⟨fun other found => ?_, loads disjoint⟩
          obtain rfl := Option.some.inj (header.symm.trans found.header)
          obtain ⟨above, bytes, isContent, holds⟩ := loadedAt
          refine ⟨above, bytes, isContent, (keeps _ _ ?_).trans holds⟩
          intro next member nextPhdr nextSegment
          have nextAbove := (loads disjoint next member nextPhdr nextSegment).1
          have apart := disjoint index next phdr nextPhdr
            (fun same => nodup.1 (same ▸ member)) segment nextSegment
          omega
    · rw [if_neg loadable]
      obtain ⟨result, after, computed, length, rest⟩ := later carveOut
      refine ⟨result, after, computed, length, fun ok => ?_⟩
      obtain ⟨keeps, loads⟩ := rest ok
      refine ⟨fun start width outside => keeps start width (forall_mem_cons.mp outside).2,
        fun disjoint => forall_mem_cons.mpr ⟨fun other found => ?_, loads disjoint⟩⟩
      obtain rfl := Option.some.inj (header.symm.trans found.header)
      exact absurd found.loadable loadable

end Table

/-- For an accepted file all reads are in the file and all writes in the carve-out. If 0 is
returned and the loadable segments are disjoint, each of them is at its offset from the relocation
base, with its bytes from the file or the split file and zeros behind them. -/
theorem qpasMdtLoadSegments_loads (fw : Firmware) (files : Files) (memPhys : Nat)
    (carveOut : List UInt8) (valid : qpasMdtHeaderValid fw = true) :
    ∃ result after, qpasMdtLoadSegments fw files memPhys carveOut = some (result, after) ∧
      after.length = carveOut.length ∧
      ∀ relocBase, result = .ok relocBase → DisjointSegments fw →
        ∀ index phdr, Segment fw index phdr →
          LoadedAt fw files relocBase index phdr after := by
  obtain ⟨header, read, phnum⟩ := exists_header valid
  have inTable : ∀ index ∈ List.range (Ehdr.decode fw.data).phnum.toNat,
      index < (Ehdr.decode fw.data).phnum.toNat := fun index member => mem_range.mp member
  have readable : ∀ index ∈ List.range (Ehdr.decode fw.data).phnum.toNat,
      ∃ phdr, phdrAt fw index = some phdr :=
    fun index member => exists_phdrAt valid (mem_range.mp member)
  obtain ⟨split, splitEq, inFile⟩ := qpasMdtBinsAreSplit_inFile readable
  obtain ⟨relocate, minAddr, -, -, relocation, -⟩ :=
    findWindow_spec inTable readable false (2 ^ 64 - 1) 0
  unfold qpasMdtLoadSegments
  rw [read, Option.bind_some]
  dsimp only
  rw [phnum, splitEq, Option.bind_some, relocation, Option.bind_some]
  dsimp only
  generalize (if relocate = true then minAddr else memPhys) = memReloc
  obtain ⟨result, after, loaded, length, loads⟩ :=
    @loadSegments_loads fw files split memReloc _ nodup_range inTable readable inFile carveOut
  rw [loaded]
  refine ⟨_, after, rfl, length, fun relocBase ok disjoint index phdr segment => ?_⟩
  cases result with
  | error ret => cases ok
  | ok done =>
    obtain rfl := Except.ok.inj ok
    exact (loads rfl).2 disjoint index (mem_range.mpr segment.inTable) phdr segment

/-- An MDT file with nothing but the fields of its program headers. -/
def mdtFile (headers : List Nat) : Firmware where
  data := [0x7f, 0x45, 0x4c, 0x46] ++ List.replicate 24 0 ++ littleEndian 4 52 ++
    List.replicate 10 0 ++ littleEndian 2 32 ++ littleEndian 2 (headers.length / 8) ++
    List.replicate 6 0 ++ headers.flatMap (littleEndian 4)
  desc := true
  path := ascii ['a', '.', 'm', 'd', 't']

/-- Two segments that are in files of their own. The first one is to be filled up to four bytes. -/
def splitFirmware : Firmware :=
  mdtFile [1, 0x9000, 0, 0x1000, 2, 4, 0x08000000, 0, 1, 0xa000, 0, 0x1006, 1, 1, 0, 0]

def splitFiles : Files := fun path =>
  if path = ascii ['a', '.', 'b', '0', '0'] then .ok [0xab, 0xcd]
  else if path = ascii ['a', '.', 'b', '0', '1'] then .ok [0xef]
  else .error (-2)

theorem splitFirmware_disjoint : DisjointSegments splitFirmware := by
  have pairs : ∀ first ∈ loadableSegments splitFirmware, ∀ second ∈ loadableSegments splitFirmware,
      first.1 ≠ second.1 → first.2.segmentEnd ≤ second.2.paddr.toNat ∨
        second.2.segmentEnd ≤ first.2.paddr.toNat := by decide +kernel
  exact fun _ _ _ _ different first second =>
    pairs _ first.mem_loadableSegments _ second.mem_loadableSegments different

theorem qpasMdtLoadSegments_loads_split :
    ∃ after, qpasMdtLoadSegments splitFirmware splitFiles 0x2000 (List.replicate 8 0xff) =
        some (.ok 0x1000, after) ∧ ∀ index phdr, Segment splitFirmware index phdr →
      LoadedAt splitFirmware splitFiles 0x1000 index phdr after := by
  obtain ⟨result, after, loaded, -, loads⟩ := qpasMdtLoadSegments_loads splitFirmware splitFiles
    0x2000 (List.replicate 8 0xff) (by decide +kernel)
  have computed : qpasMdtLoadSegments splitFirmware splitFiles 0x2000 (List.replicate 8 0xff) =
      some (.ok 0x1000, [0xab, 0xcd, 0, 0, 0xff, 0xff, 0xef, 0xff]) := by
    rfl
  obtain ⟨rfl, rfl⟩ := Prod.mk.inj (Option.some.inj (loaded.symm.trans computed))
  exact ⟨_, computed, loads 0x1000 rfl splitFirmware_disjoint⟩

section Window

variable {fw : Firmware} {files : Files} {memPhys low high : Nat} {carveOut after : List UInt8}

theorem relocBase_eq (valid : qpasMdtHeaderValid fw = true) {relocBase : Nat}
    (relocation : findRelocation fw (List.range (Ehdr.decode fw.data).phnum.toNat) false
      (2 ^ 64 - 1) = some (true, low))
    (loaded : qpasMdtLoadSegments fw files memPhys carveOut = some (.ok relocBase, after)) :
    low = relocBase := by
  obtain ⟨header, read, phnum⟩ := exists_header valid
  rw [qpasMdtLoadSegments, read, Option.bind_some] at loaded
  dsimp only at loaded
  rw [phnum, relocation] at loaded
  obtain ⟨split, -, loaded⟩ := Option.bind_eq_some_iff.mp loaded
  obtain ⟨⟨result, carveOut⟩, -, same⟩ := Option.map_eq_some_iff.mp loaded
  cases result with
  | error ret => cases congrArg Prod.fst same
  | ok done => exact Except.ok.inj (congrArg Prod.fst same)

theorem memSetupCall_eq (valid : qpasMdtHeaderValid fw = true) {readMetadata pasInitImage : Int}
    {pasMemSetup : Nat → Nat → Int} {call : Option (Nat × Nat)}
    (window : findWindow fw (List.range (Ehdr.decode fw.data).phnum.toNat) false (2 ^ 64 - 1) 0 =
      some (true, low, high))
    (initialised : qpasMdtInitImage fw readMetadata pasInitImage pasMemSetup memPhys =
      some (0, call)) :
    call = some (memPhys, (high + 2 ^ 64 - low) % 2 ^ 64) := by
  obtain ⟨header, read, phnum⟩ := exists_header valid
  rw [qpasMdtInitImage, read, Option.bind_some] at initialised
  dsimp only at initialised
  rw [phnum, window, Option.map_some] at initialised
  have same := Option.some.inj initialised
  split_ifs at same with metadata image plain
  · exact absurd (congrArg Prod.fst same) metadata
  · exact absurd (congrArg Prod.fst same) image
  · exact (congrArg Prod.snd same).symm
  · exact absurd rfl plain

end Window

/-- For an accepted file with a relocatable segment that is initialised and loaded, the window
covers the firmware and fits the carve-out if and only if the ends of the segments fit. The offsets
in the carve-out are of the type `ssize_t`. -/
theorem memSetup_covers_iff (fw : Firmware) (files : Files) (readMetadata pasInitImage : Int)
    (pasMemSetup : Nat → Nat → Int) (memPhys : Nat) (carveOut : List UInt8)
    (small : carveOut.length < 2 ^ 63) (valid : qpasMdtHeaderValid fw = true)
    (relocatable : ∃ index phdr, Segment fw index phdr ∧ phdr.flags &&& qcomMdtRelocatable ≠ 0)
    {call : Option (Nat × Nat)} {relocBase : Nat} {after : List UInt8}
    (initialised : qpasMdtInitImage fw readMetadata pasInitImage pasMemSetup memPhys =
      some (0, call))
    (loaded : qpasMdtLoadSegments fw files memPhys carveOut = some (.ok relocBase, after)) :
    ∃ window, call = some window ∧
      (WindowCovers fw memPhys carveOut.length relocBase window ↔
        EndsFit fw carveOut.length) := by
  obtain ⟨relocate, low, high, window, relocation, -, -, attained, segments, bounded, limits⟩ :=
    findWindow_spec (fun index member => mem_range.mp member)
      (fun index member => exists_phdrAt valid (mem_range.mp member)) false (2 ^ 64 - 1) 0
  have segments := fun index phdr (segment : Segment fw index phdr) =>
    segments index (mem_range.mpr segment.inTable) phdr segment
  obtain ⟨index, phdr, segment, flag⟩ := relocatable
  obtain rfl := (segments index phdr segment).2 flag
  -- both functions work from the same base
  obtain rfl := relocBase_eq valid relocation loaded
  obtain rfl := memSetupCall_eq valid window initialised
  refine ⟨_, rfl, ?_⟩
  have lowBound := (segments index phdr segment).1
  have address := phdr.paddr.toNat_lt
  have highBound := bounded (Nat.zero_le _)
  obtain ⟨lowIndex, lowest, lowSegment, isLow⟩ := attained.resolve_left (by omega)
  unfold WindowCovers
  dsimp only
  by_cases fits : ∀ index phdr, Segment fw index phdr → phdr.segmentEnd ≤ 0xfffff000
  · have limits := fun limit => (limits fits rfl limit).trans (and_iff_right (Nat.zero_le _))
    have ends : ∀ index phdr, Segment fw index phdr → phdr.segmentEnd ≤ high := by
      intro index phdr segment
      have rounded := (limits high).mp le_rfl index (mem_range.mpr segment.inTable)
        phdr segment
      unfold roundUp4K at rounded
      omega
    have own := ends index phdr segment
    unfold Phdr.segmentEnd at own
    have size : (high + 2 ^ 64 - low) % 2 ^ 64 = high - low := by omega
    rw [size, and_iff_right, Nat.sub_le_iff_le_add', limits]
    · constructor
      · intro within index phdr segment
        refine ⟨fits index phdr segment, fun other otherPhdr otherSegment => ?_⟩
        exact (within index (mem_range.mpr segment.inTable) phdr segment).trans
          (Nat.add_le_add_right (segments other otherPhdr otherSegment).1 _)
      · intro within index _ phdr segment
        rw [← isLow]
        exact (within index phdr segment).2 lowIndex lowest lowSegment
    · intro index phdr segment
      have above := (segments index phdr segment).1
      have covered := ends index phdr segment
      unfold Phdr.segmentEnd at covered
      omega
  · refine iff_of_false (fun covers => ?_)
      fun within => fits fun index phdr segment => (within index phdr segment).1
    push Not at fits
    obtain ⟨index, phdr, segment, beyond⟩ := fits
    have place := covers.1 index phdr segment
    have size := covers.2
    unfold Phdr.segmentEnd at beyond
    unfold roundUp4K at size
    -- the end is above the maximum, so that only an overflow of the size could cover it
    omega

set_option maxRecDepth 2048

/-- A file with one relocatable segment, behind the two headers that the metadata needs. -/
def relocatableFirmware (paddr memsz : Nat) : Firmware :=
  mdtFile [0, 0, 0, 0, 148, 0, 0x07000000, 0, 0, 0, 0, 0, 0, 0, 0x02000000, 0,
    1, 0, 0, paddr, 0, memsz, 0x08000000, 0]

theorem memSetup_covers_iff_wholePage :
    WindowCovers (relocatableFirmware 0x1000 4) 0x9000 4 0x1000 (0x9000, 0x1000) := by
  obtain ⟨window, same, covers⟩ := memSetup_covers_iff (relocatableFirmware 0x1000 4)
    (fun _ => .error (-2)) 0 0 (fun _ _ => 0) 0x9000 (List.replicate 4 0xff) (by decide)
    (by decide +kernel) ⟨2, _, ⟨by decide +kernel, rfl, by decide +kernel⟩, by decide +kernel⟩
    (show _ = some (0, some (0x9000, 0x1000)) by rfl) (show _ = some (Except.ok 0x1000, _) by rfl)
  obtain rfl := Option.some.inj same
  have ends : ∀ first ∈ loadableSegments (relocatableFirmware 0x1000 4),
      first.2.segmentEnd ≤ 0xfffff000 ∧
        ∀ second ∈ loadableSegments (relocatableFirmware 0x1000 4),
          roundUp4K first.2.segmentEnd ≤ second.2.paddr.toNat + roundUp4K 4 := by decide +kernel
  exact covers.mpr fun _ _ segment => (ends _ segment.mem_loadableSegments).imp_right
    fun all _ _ other => all _ other.mem_loadableSegments

/-- Two bytes from the last one of a page on fit a carve-out of two bytes, but get a window of more
than a page. -/
theorem acrossPages_not_covers :
    qpasMdtHeaderValid (relocatableFirmware 0xfff 2) = true ∧
      qpasMdtInitImage (relocatableFirmware 0xfff 2) 0 0 (fun _ _ => 0) 0x9000 =
        some (0, some (0x9000, 0x1001)) ∧
      qpasMdtLoadSegments (relocatableFirmware 0xfff 2) (fun _ => .error (-2)) 0x9000
        [0xff, 0xff] = some (.ok 0xfff, [0, 0]) ∧
      ¬WindowCovers (relocatableFirmware 0xfff 2) 0x9000 2 0xfff (0x9000, 0x1001) :=
  ⟨by decide +kernel, by decide +kernel, by rfl, fun covers => absurd covers.2 (by decide)⟩

end TachyonBoot.Adsp
