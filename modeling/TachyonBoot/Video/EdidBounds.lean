/-
This file proves when the reading of an EDID stays inside the two blocks that the sink
sends. The parsing is given a second time with its reads checked: it has no result if a
byte outside the block is read, or if a loop does not end.

All that is read of the first block is at fixed places. In the extension, the loop over the
data blocks reads the header of a data block before it compares the end of the block with
the end of the extension, and it runs up to the offset of the detailed timings, which the
sink chooses. So it reads one byte too many if a data block ends with the extension and the
detailed timings are said to start behind it.
-/

import TachyonBoot.Video.EdidTimings

namespace TachyonBoot.Dp

/-! ### The parsing with checked reads -/

/-- A result for which some bytes of a block are read. -/
def reading {Result : Type} (block : List UInt8) (indices : List Nat) (result : Result) :
    Option Result :=
  if ∀ index ∈ indices, index < block.length then some result else none

/-- The bytes of the first block that are read: for the checksum, the established and the standard
timings, the descriptors, and the number of extensions. -/
def baseReads : List Nat :=
  List.range edidSize ++ [35, 36, 37] ++ List.range' 38 16 ++ List.range' 54 (4 * 18) ++ [126]

def parseCeaBlocksChecked (budget : Link) (block : List UInt8) :
    Nat → Nat → List Mode → Option (List Mode)
  | 0, _, _ => none
  | fuel + 1, offset, modes =>
    if offset < byteAt block 2 then
      (reading block [offset] (byteAt block offset)).bind fun header =>
        let tag := getBits header 7 5
        let length := getBits header 4 0
        if offset + length ≥ edidSize then some modes
        else
          (if tag = 2 then
            reading block (List.range' (offset + 1) length)
              ((List.range length).foldl
                (fun modes index => addCeaVic budget modes (byteAt block (offset + (index + 1))))
                modes)
          else some modes).bind fun modes =>
            parseCeaBlocksChecked budget block fuel (offset + (length + 1)) modes
    else some modes

def parseCeaDtdsChecked (budget : Link) (block : List UInt8) :
    Nat → Nat → List Mode → Option (List Mode)
  | 0, _, _ => none
  | fuel + 1, dtd, modes =>
    if dtd ≠ 0 ∧ dtd + 18 ≤ edidSize then
      (reading block (List.range' dtd 18) (parseDtd budget block dtd modes)).bind fun modes =>
        parseCeaDtdsChecked budget block fuel (dtd + 18) modes
    else some modes

def parseCeaModesChecked (budget : Link) (block : List UInt8) (modes : List Mode) :
    Option (List Mode) :=
  (reading block [0, 2] (byteAt block 0, byteAt block 2)).bind fun (extensionTag, dtdOffset) =>
    if extensionTag ≠ 2 then some modes
    else
      (parseCeaBlocksChecked budget block edidSize 4 modes).bind fun modes =>
        parseCeaDtdsChecked budget block edidSize dtdOffset modes

/-- `tachyon_dp_read_edid_modes()` up to the filter, for a first block that is accepted. -/
def collectModesChecked (budget : Link) (block extension : List UInt8) : Option (List Mode) :=
  (reading block baseReads ((baseTimings block).foldl (addTiming budget) [])).bind fun modes =>
    if byteAt block 126 ≠ 0 then
      (reading extension (List.range edidSize) (edidChecksumOk extension)).bind fun checksumOk =>
        if checksumOk then parseCeaModesChecked budget extension modes else some modes
    else some modes

/-! ### The walk over the data blocks -/

/-- The offset of the data block behind the one at an offset. -/
def nextBlock (block : List UInt8) (offset : Nat) : Nat :=
  offset + (getBits (byteAt block offset) 4 0 + 1)

/-- A data block ends with the extension, and the detailed timings are said to start behind it. -/
def WalksOff (block : List UInt8) (offset : Nat) : Prop :=
  edidSize < byteAt block 2 ∧ ∃ count, (nextBlock block)^[count] offset = edidSize

theorem le_iterate_nextBlock (block : List UInt8) (offset count : Nat) :
    offset ≤ (nextBlock block)^[count] offset := by
  induction count generalizing offset with
  | zero => exact le_rfl
  | succ count ih =>
    rw [Function.iterate_succ_apply]
    refine Nat.le_trans ?_ (ih _)
    unfold nextBlock
    omega

/-- Before the end, the walk gets there exactly if it does from the next data block on. -/
theorem walksOff_next {block : List UInt8} {offset : Nat} (before : offset < edidSize) :
    WalksOff block offset ↔ WalksOff block (nextBlock block offset) := by
  unfold WalksOff
  refine and_congr_right fun _ => ⟨?_, ?_⟩
  · rintro ⟨count, reached⟩
    cases count with
    | zero => exact absurd reached (Nat.ne_of_lt before)
    | succ count => exact ⟨count, reached⟩
  · rintro ⟨count, reached⟩
    exact ⟨count + 1, reached⟩

theorem not_walksOff {block : List UInt8} {offset : Nat} (behind : edidSize < offset) :
    ¬ WalksOff block offset := by
  rintro ⟨-, count, reached⟩
  have := le_iterate_nextBlock block offset count
  omega

section Extension

variable {budget : Link} {block : List UInt8}

theorem reading_eq_some {Result : Type} {indices : List Nat} (result : Result)
    (inside : ∀ index ∈ indices, index < block.length) :
    reading block indices result = some result :=
  if_pos inside

/-- The walk over the data blocks: a byte outside is read exactly if it walks off, and otherwise
the result is that of the unchecked one. -/
theorem parseCeaBlocksChecked_eq (isBlock : block.length = edidSize) {fuel offset : Nat}
    (modes : List Mode) (inside : offset ≤ edidSize) (enough : edidSize < offset + fuel) :
    (WalksOff block offset → parseCeaBlocksChecked budget block fuel offset modes = none) ∧
      (¬ WalksOff block offset → parseCeaBlocksChecked budget block fuel offset modes =
        some (parseCeaBlocks budget block fuel offset modes)) := by
  induction fuel generalizing offset modes with
  | zero => omega
  | succ fuel ih =>
    rw [parseCeaBlocksChecked, parseCeaBlocks]
    by_cases more : offset < byteAt block 2
    · rw [if_pos more, if_pos more]
      rcases Nat.lt_or_eq_of_le inside with before | rfl
      · rw [reading_eq_some _ (by simpa [isBlock] using before), Option.bind_some]
        have next : nextBlock block offset = offset + (getBits (byteAt block offset) 4 0 + 1) := rfl
        dsimp only
        rw [walksOff_next before]
        split_ifs with long video
        · exact ⟨fun walks => absurd walks (not_walksOff (by omega)), fun _ => rfl⟩
        · rw [reading_eq_some _ (by
            intro index member
            have := (List.mem_range'_1.mp member).2
            omega), Option.bind_some]
          exact ih _ (by omega) (by omega)
        · exact ih _ (by omega) (by omega)
      · have outside : reading block [edidSize] (byteAt block edidSize) = none :=
          if_neg (by simp [isBlock])
        rw [outside]
        exact ⟨fun _ => rfl, fun stays => absurd ⟨more, 0, rfl⟩ stays⟩
    · rw [if_neg more, if_neg more]
      refine ⟨fun walks => ?_, fun _ => rfl⟩
      have := walks.1
      omega

theorem parseCeaDtdsChecked_eq (isBlock : block.length = edidSize) {fuel dtd : Nat}
    (modes : List Mode) (positive : 0 < fuel) (enough : edidSize ≤ dtd + fuel) :
    parseCeaDtdsChecked budget block fuel dtd modes =
      some (parseCeaDtds budget block fuel dtd modes) := by
  induction fuel generalizing dtd modes with
  | zero => omega
  | succ fuel ih =>
    rw [parseCeaDtdsChecked, parseCeaDtds]
    split_ifs with more
    · rw [reading_eq_some _ (by
        intro index member
        have := (List.mem_range'_1.mp member).2
        omega), Option.bind_some]
      exact ih _ (by omega) (by omega)
    · rfl

theorem parseCeaModesChecked_eq (isBlock : block.length = edidSize) (modes : List Mode) :
    (byteAt block 0 = 2 ∧ WalksOff block 4 → parseCeaModesChecked budget block modes = none) ∧
      (¬ (byteAt block 0 = 2 ∧ WalksOff block 4) → parseCeaModesChecked budget block modes =
        some (parseCeaModes budget block modes)) := by
  have first : ∀ index ∈ [0, 2], index < block.length := by
    rw [isBlock]
    decide
  unfold parseCeaModesChecked parseCeaModes
  rw [reading_eq_some _ first, Option.bind_some]
  dsimp only
  split_ifs with other
  · exact ⟨fun off => absurd off.1 other, fun _ => rfl⟩
  · obtain ⟨off, stays⟩ :=
      @parseCeaBlocksChecked_eq budget block isBlock edidSize 4 modes (by decide) (by decide)
    refine ⟨fun walks => by rw [off walks.2]; rfl, fun inside => ?_⟩
    rw [stays fun walks => inside ⟨not_not.mp other, walks⟩, Option.bind_some]
    exact parseCeaDtdsChecked_eq isBlock _ (by decide) (by unfold edidSize; omega)

end Extension

/-! ### When the reading is bounded -/

/-- Before and after the filter, there are at most twelve modes of valid resolutions, of which no
two are the same. -/
structure BoundedReading (budget : Link) (block extension : List UInt8) (modes : List Mode) :
    Prop where
  inside : collectModesChecked budget block extension = some modes
  orderly : Orderly modes
  filtered : Orderly (readEdidModes budget (.ok block) (.ok extension)).2
  valid : ∀ mode ∈ modes ++ (readEdidModes budget (.ok block) (.ok extension)).2,
    ValidResolution mode.width mode.height

/-- The reading of an accepted EDID ends and stays inside its blocks, with such a list of modes,
exactly if the extension is not a CEA block whose last data block ends with it while its detailed
timings are said to start behind it. -/
theorem readEdidModes_bounded_iff (budget : Link) {block extension : List UInt8}
    (isBlock : block.length = edidSize) (isExtension : extension.length = edidSize)
    (header : edidHeaderOk block) (checksum : edidChecksumOk block)
    (extensionChecksum : edidChecksumOk extension) :
    (∃ modes, BoundedReading budget block extension modes) ↔
      ¬ (byteAt block 126 ≠ 0 ∧ byteAt extension 0 = 2 ∧ WalksOff extension 4) := by
  have base : ∀ index ∈ baseReads, index < block.length := by
    rw [isBlock]
    decide +kernel
  have whole : ∀ index ∈ List.range edidSize, index < extension.length := by
    rw [isExtension]
    exact fun index => List.mem_range.mp
  obtain ⟨off, stays⟩ := @parseCeaModesChecked_eq budget extension isExtension
    ((baseTimings block).foldl (addTiming budget) [])
  have collected : collectModesChecked budget block extension =
      if byteAt block 126 ≠ 0 then parseCeaModesChecked budget extension
        ((baseTimings block).foldl (addTiming budget) [])
      else some ((baseTimings block).foldl (addTiming budget) []) := by
    unfold collectModesChecked
    rw [reading_eq_some _ base, Option.bind_some, reading_eq_some _ whole, Option.bind_some,
      if_pos extensionChecksum]
  constructor
  · rintro ⟨modes, bounded⟩ ⟨announced, walks⟩
    have inside := bounded.inside
    rw [collected, if_pos announced, off walks] at inside
    cases inside
  · intro inside
    refine ⟨collectedModes budget block (.ok extension), ?_, orderly_collectedModes _ _ _, ?_,
      fun mode _ => mode.valid⟩
    · unfold collectedModes advertisedTimings extensionTimings
      rw [collected, List.foldl_append]
      split_ifs with announced
      · dsimp only
        rw [stays fun walks => inside ⟨announced, walks⟩, parseCeaModes_eq,
          if_pos extensionChecksum]
      · rfl
    · rw [readEdidModes_eq header checksum]
      exact (orderly_collectedModes _ _ _).filterEdidModes

/-- A first block without any timing that announces an extension. -/
def plainBlock : List UInt8 :=
  [0x00, 0xff, 0xff, 0xff, 0xff, 0xff, 0xff, 0x00] ++ List.replicate 118 0 ++ [0x01, 0x05]

/-- An extension that is filled with data blocks and has its detailed timings at 255. -/
def filledExtension : List UInt8 :=
  [0x02, 0x03, 0xff, 0x00] ++ (List.replicate 3 (0x7f :: List.replicate 31 0)).flatten ++
    [0x7b] ++ List.replicate 26 0 ++ [0x04]

/-- A first block with 1080p, and an extension with a data block of two video codes. -/
def videoBlock : List UInt8 :=
  [0x00, 0xff, 0xff, 0xff, 0xff, 0xff, 0xff, 0x00] ++ List.replicate 46 0 ++
    [0x02, 0x3a, 0x80, 0x18, 0x71, 0x38, 0x2d, 0x40, 0x58, 0x2c, 0x45, 0x00, 0, 0, 0, 0, 0, 0x1e] ++
    List.replicate 54 0 ++ [0x01, 0x34]

def videoExtension : List UInt8 :=
  [0x02, 0x03, 0x07, 0x00, 0x42, 0x10, 0x04] ++ List.replicate 120 0 ++ [0x9e]

/-- The first code is that of 1080p again, the second adds 720p. -/
theorem readEdidModes_bounded_iff_video :
    ∃ modes, BoundedReading ⟨rateHbr2, 4⟩ videoBlock videoExtension modes ∧
      modes.map Mode.resolution = [(1920, 1080), (1280, 720)] := by
  obtain ⟨modes, bounded⟩ : ∃ modes,
      BoundedReading ⟨rateHbr2, 4⟩ videoBlock videoExtension modes :=
    (readEdidModes_bounded_iff ⟨rateHbr2, 4⟩ (by decide +kernel) (by decide +kernel)
      (by decide +kernel) (by decide +kernel) (by decide +kernel)).mpr
      fun walksOff => absurd walksOff.2.2.1 (by decide +kernel)
  have listed : (collectModesChecked ⟨rateHbr2, 4⟩ videoBlock videoExtension).map
      (List.map Mode.resolution) = some [(1920, 1080), (1280, 720)] := by
    decide +kernel
  rw [bounded.inside] at listed
  exact ⟨modes, bounded, Option.some.inj listed⟩

/-- The blocks are accepted, but the byte behind the extension is read. -/
theorem filledExtension_unbounded :
    (plainBlock.length = edidSize ∧ filledExtension.length = edidSize) ∧
      (edidHeaderOk plainBlock ∧ edidChecksumOk plainBlock ∧ edidChecksumOk filledExtension) ∧
      ¬ ∃ modes, BoundedReading ⟨rateHbr2, 4⟩ plainBlock filledExtension modes := by
  refine ⟨by decide +kernel, by decide +kernel, fun ⟨modes, bounded⟩ => ?_⟩
  have outside : (collectModesChecked ⟨rateHbr2, 4⟩ plainBlock filledExtension).isNone := by
    decide +kernel
  rw [bounded.inside] at outside
  cases outside

end TachyonBoot.Dp
