/-
This file models the bloblist of `common/bloblist.c`: its records, the walk over
them, and the calls that add to it.

A bloblist is a block of memory with a header and a chain of records, each a tag, a
size, and data. Where the next record starts is not stored. The walk computes it from
the size of the record and the alignment of the list; the call that adds a record
leaves it in `used_size`, computed from the size and the alignment of the blob.
A list is tiled when the records that the walk finds are the blobs, one after the
other, up to `used_size`.
-/

import TachyonBoot.Library.Bytes
import Mathlib.Tactic.Common

namespace TachyonBoot.Blobs

open Library

/-! ### The list -/

/-- `gd->bloblist`: where it is, the fields of `struct bloblist_hdr` that are read, and the memory
from its start on. -/
structure Bloblist where
  base : Nat
  hdrSize : Nat
  alignLog2 : Nat
  usedSize : Nat
  totalSize : Nat
  memory : Memory

/-- `sizeof(struct bloblist_hdr)`. -/
def bloblistHdrSize : Nat := 24

/-- `sizeof(struct bloblist_rec)`. -/
def recHeaderSize : Nat := 8

/-- `BLOBLIST_BLOB_ALIGN_LOG2`. -/
def blobAlignLog2 : Nat := 3

/-- `BLOBLISTT_VOID`. -/
def voidTag : Nat := 0

def enospc : Int := 28

def espipe : Int := 29

def efault : Int := 14

/-- `ALIGN()` and `round_up()` to a power of two. -/
def align (log2 x : Nat) : Nat := (x + (2 ^ log2 - 1)) / 2 ^ log2 * 2 ^ log2

/-- A `u32` of the list. -/
def Bloblist.word (list : Bloblist) (offset : Nat) : Nat :=
  ofLittleEndian (list.memory.read offset 4)

def recHdrSize (list : Bloblist) (offset : Nat) : Nat := list.word offset / 2 ^ 24

def recTag (list : Bloblist) (offset : Nat) : Nat := list.word offset % 2 ^ 24

/-- `rec->size`. -/
def recSize (list : Bloblist) (offset : Nat) : Nat := list.word (offset + 4)

/-! ### The walk -/

def bloblistFirstBlob (list : Bloblist) : Option Nat :=
  if list.usedSize ≤ list.hdrSize then none else some list.hdrSize

def bloblistBlobEndOfs (list : Bloblist) (offset : Nat) : Nat :=
  let stop := offset + (recHdrSize list offset + recSize list offset)
  align list.alignLog2 (stop + recHdrSize list offset) - recHdrSize list offset

def bloblistNextBlob (list : Bloblist) (offset : Nat) : Option Nat :=
  let next := bloblistBlobEndOfs list offset
  if next ≥ list.usedSize then none else some next

/-- `foreach_rec`: the records it visits, unless it takes more than the given number of steps. -/
def foreachRec (list : Bloblist) : Nat → Option Nat → Option (List Nat)
  | _, none => some []
  | 0, some _ => none
  | fuel + 1, some offset =>
    (foreachRec list fuel (bloblistNextBlob list offset)).map (offset :: ·)

/-- The loop of `bloblist_findrec()`. -/
def findFrom (list : Bloblist) (tag : Nat) : Nat → Option Nat → Option (Option Nat)
  | _, none => some none
  | 0, some _ => none
  | fuel + 1, some offset =>
    if recTag list offset = tag then some (some offset)
    else findFrom list tag fuel (bloblistNextBlob list offset)

def bloblistFindrec (list : Bloblist) (fuel tag : Nat) : Option (Option Nat) :=
  findFrom list tag fuel (bloblistFirstBlob list)

/-- `bloblist_get_blob()`: the data and the size. -/
def bloblistGetBlob (list : Bloblist) (fuel tag : Nat) : Option (Option (Nat × Nat)) :=
  (bloblistFindrec list fuel tag).map fun found =>
    found.map fun offset => (offset + recHdrSize list offset, recSize list offset)

/-! ### Adding -/

def bloblistNew (memory : Memory) (addr size alignLog2 : Nat) : Except Int Bloblist :=
  if size < bloblistHdrSize then .error (-enospc)
  else if addr % 8 ≠ 0 then .error (-efault)
  else
    .ok { base := addr, hdrSize := bloblistHdrSize
          alignLog2 := if alignLog2 = 0 then blobAlignLog2 else alignLog2
          usedSize := bloblistHdrSize, totalSize := size, memory }

/-- The distance from an address to the next aligned one. -/
def padding (log2 address : Nat) : Nat := align log2 address - address

/-- The second half of `bloblist_addrec()`, once the data would be aligned: the record, and the
list. The allocated total is an `int`. -/
def addHere (list : Bloblist) (tag size alignLog2 : Nat) : Except Int (Nat × Bloblist) :=
  let newAlloced := (list.usedSize + recHeaderSize + align alignLog2 size) % 2 ^ 32
  if newAlloced > list.totalSize then .error (-enospc)
  else
    let offset := list.usedSize
    let tagAndHdrSize := tag ||| (recHeaderSize <<< 24)
    let list := { list with
      memory := list.memory.write offset (littleEndian 4 tagAndHdrSize ++ littleEndian 4 size) }
    let zeroed := list.memory.write (offset + recHdrSize list offset) (List.replicate size 0)
    .ok (offset, { list with memory := zeroed, usedSize := newAlloced })

/-- The result of a call that adds: undefined if a shift is too wide or if the recursion does not
end; otherwise an error or the record, and the list, which may have changed in either case. -/
abbrev AddResult := Option (Except Int Nat × Bloblist)

/-- `bloblist_addrec()`. The recursive call for a void record has the default alignment. -/
def bloblistAddrec (list : Bloblist) (tag size alignLog2 : Nat) : AddResult :=
  let alignLog2 := if alignLog2 = 0 then blobAlignLog2 else alignLog2
  let dataStart := list.base + list.usedSize + recHeaderSize
  let finish (list : Bloblist) : Except Int Nat × Bloblist :=
    match addHere list tag size alignLog2 with
    | .error ret => (.error ret, list)
    | .ok (offset, list) => (.ok offset, list)
  if 32 ≤ alignLog2 then none
  else if padding alignLog2 dataStart = 0 then some (finish list)
  else if padding blobAlignLog2 dataStart ≠ 0 then none
  else
    match addHere list voidTag (padding alignLog2 dataStart - recHeaderSize) blobAlignLog2 with
    | .error ret => some (.error ret, list)
    | .ok (_, list) => some (finish list)

/-- `bloblist_add()`: the data. -/
def bloblistAdd (list : Bloblist) (tag size alignLog2 : Nat) : AddResult :=
  (bloblistAddrec list tag size alignLog2).map fun (result, list) =>
    (result.map fun offset => offset + recHdrSize list offset, list)

/-- `bloblist_ensure_size()`: the data, and whether the blob was added. -/
def bloblistEnsureSize (list : Bloblist) (fuel tag size alignLog2 : Nat) :
    Option (Except Int (Nat × Bool) × Bloblist) :=
  match bloblistFindrec list fuel tag with
  | none => none
  | some (some offset) =>
    if size ≠ 0 ∧ size ≠ recSize list offset then some (.error (-espipe), list)
    else some (.ok (offset + recHdrSize list offset, false), list)
  | some none =>
    (bloblistAdd list tag size alignLog2).map fun (result, list) =>
      (result.map fun data => (data, true), list)

/-! ### Blobs -/

/-- A tag with its data. -/
structure Blob where
  tag : Nat
  data : List UInt8

/-- The bytes of the record before the data. -/
def Blob.header (blob : Blob) : List UInt8 :=
  littleEndian 4 (recHeaderSize * 2 ^ 24 + blob.tag) ++ littleEndian 4 blob.data.length

/-- The place a blob takes up to the next record. -/
def Blob.extent (blob : Blob) : Nat := recHeaderSize + align blobAlignLog2 blob.data.length

/-- The tag and the size fit into their fields. -/
structure Blob.Fits (blob : Blob) : Prop where
  tag : blob.tag < 2 ^ 24
  size : blob.data.length < 2 ^ 32

/-- The memory has the blobs as records one after the other, from one offset to another. -/
inductive Tiled (memory : Memory) : Nat → List Blob → Nat → Prop where
  | nil (start : Nat) : Tiled memory start [] start
  | cons {start stop : Nat} {blob : Blob} {rest : List Blob} (fits : blob.Fits)
      (held : memory.Holds start (blob.header ++ blob.data))
      (later : Tiled memory (start + blob.extent) rest stop) :
      Tiled memory start (blob :: rest) stop

/-- The blobs with the offsets of their records. -/
def placed : Nat → List Blob → List (Nat × Blob)
  | _, [] => []
  | start, blob :: rest => (start, blob) :: placed (start + blob.extent) rest

theorem align_three (x : Nat) : align 3 x = (x + 7) / 8 * 8 := rfl

@[simp] theorem Blob.length_header (blob : Blob) : blob.header.length = 8 := by
  simp [header]

theorem Blob.extent_eq (blob : Blob) : blob.extent = 8 + (blob.data.length + 7) / 8 * 8 := rfl

variable {memory : Memory} {start stop : Nat} {blobs : List Blob} {blob : Blob}

theorem Tiled.le (tiled : Tiled memory start blobs stop) : start ≤ stop := by
  induction tiled with
  | nil => exact le_rfl
  | cons fits held later ih =>
    exact (Nat.le_add_right ..).trans ih

theorem Tiled.append {middle : Nat} {front back : List Blob}
    (tiled : Tiled memory start front middle) (more : Tiled memory middle back stop) :
    Tiled memory start (front ++ back) stop := by
  induction tiled with
  | nil => exact more
  | cons fits held later ih => exact .cons fits held (ih more)

theorem Tiled.singleton (fits : blob.Fits) (held : memory.Holds start (blob.header ++ blob.data)) :
    Tiled memory start [blob] (start + blob.extent) :=
  .cons fits held (.nil _)

theorem Tiled.shift {other : Memory} {distance : Nat} (tiled : Tiled memory start blobs stop)
    (same : ∀ place, start ≤ place → place < stop → other (place + distance) = memory place) :
    Tiled other (start + distance) blobs (stop + distance) := by
  induction tiled with
  | nil => exact .nil _
  | cons fits held later ih =>
    rename_i start stop blob rest
    have extent := blob.extent_eq
    have beyond := later.le
    refine .cons fits (held.shift fun index bound => ?_) ?_
    · rw [List.length_append, Blob.length_header] at bound
      rw [Nat.add_right_comm]
      exact same _ (Nat.le_add_right ..) (by omega)
    · rw [Nat.add_right_comm]
      exact ih fun place above below => same place (by omega) below

section

variable (tiled : Tiled memory start blobs stop)

include tiled

theorem Tiled.congr {other : Memory}
    (same : ∀ place, start ≤ place → place < stop → other place = memory place) :
    Tiled other start blobs stop :=
  @Tiled.shift memory start stop blobs other 0 tiled same

theorem Tiled.write {target : Nat} (beyond : stop ≤ target) (bytes : List UInt8) :
    Tiled (memory.write target bytes) start blobs stop :=
  tiled.congr fun _ _ below => Memory.write_outside (.inl (Nat.lt_of_lt_of_le below beyond))

theorem Tiled.held :
    ∀ entry ∈ placed start blobs, entry.2.Fits ∧
      memory.Holds entry.1 (entry.2.header ++ entry.2.data) ∧
      start ≤ entry.1 ∧ entry.1 + entry.2.extent ≤ stop := by
  induction tiled with
  | nil => exact fun _ member => absurd member List.not_mem_nil
  | cons fits held later ih =>
    intro entry member
    rcases List.mem_cons.mp member with rfl | further
    · exact ⟨fits, held, Nat.le_refl _, later.le⟩
    · obtain ⟨itsFits, itsHeld, above, below⟩ := ih entry further
      exact ⟨itsFits, itsHeld, (Nat.le_add_right ..).trans above, below⟩

end

/-! ### The walk over a tiled list -/

section Walk

variable {list : Bloblist} {start offset fuel : Nat} {blobs : List Blob}

theorem word_of_holds {list : Bloblist} {value : Nat}
    (held : list.memory.Holds offset (littleEndian 4 value)) (small : value < 2 ^ 32) :
    list.word offset = value :=
  held.readNumber small

theorem fields_of_header (fits : blob.Fits) (held : list.memory.Holds offset blob.header) :
    recHdrSize list offset = 8 ∧ recTag list offset = blob.tag ∧
      recSize list offset = blob.data.length := by
  have tagSmall := fits.tag
  obtain ⟨tag, size⟩ := Memory.holds_append.mp held
  rw [length_littleEndian] at size
  have word : list.word offset = 8 * 2 ^ 24 + blob.tag := word_of_holds tag (by
    show 8 * 2 ^ 24 + blob.tag < 2 ^ 32
    omega)
  refine ⟨?_, ?_, word_of_holds size fits.size⟩
  · rw [recHdrSize, word]
    omega
  · rw [recTag, word]
    omega

theorem fields_of_holds (fits : blob.Fits)
    (held : list.memory.Holds offset (blob.header ++ blob.data)) :
    recHdrSize list offset = 8 ∧ recTag list offset = blob.tag ∧
      recSize list offset = blob.data.length :=
  fields_of_header fits (Memory.holds_append.mp held).1

theorem bloblistBlobEndOfs_eq (fits : blob.Fits)
    (held : list.memory.Holds offset (blob.header ++ blob.data)) (byEight : list.alignLog2 = 3)
    (aligned : offset % 8 = 0) : bloblistBlobEndOfs list offset = offset + blob.extent := by
  obtain ⟨header, -, size⟩ := fields_of_holds fits held
  have extent := blob.extent_eq
  unfold bloblistBlobEndOfs
  dsimp only
  rw [header, size, byEight, align_three, extent]
  omega

/-- A list whose walk goes by eight bytes. -/
structure Bloblist.Plain (list : Bloblist) : Prop where
  header : list.hdrSize = 24
  byEight : list.alignLog2 = 3

/-- The record after some of the blobs. -/
def recordAt (stop start : Nat) : Option Nat := if start ≥ stop then none else some start

theorem extent_pos (blob : Blob) : 0 < blob.extent := by
  have extent := blob.extent_eq
  omega

theorem extent_mod (blob : Blob) : blob.extent % 8 = 0 := by
  have extent := blob.extent_eq
  omega

/-- At the head of a chain stands the record of its first blob, and the next record is the one
behind it. -/
theorem Tiled.next {rest : List Blob} (tiled : Tiled list.memory start (blob :: rest) stop)
    (within : stop ≤ list.usedSize) (plain : list.Plain) (aligned : start % 8 = 0) :
    recordAt list.usedSize start = some start ∧
      bloblistNextBlob list start = recordAt list.usedSize (start + blob.extent) ∧
      recTag list start = blob.tag ∧ (start + blob.extent) % 8 = 0 ∧
      Tiled list.memory (start + blob.extent) rest stop := by
  cases tiled with
  | cons fits held later =>
    have beyond := later.le
    have positive := extent_pos blob
    have extent := extent_mod blob
    refine ⟨if_neg (by omega), ?_, (fields_of_holds fits held).2.1, by omega, later⟩
    rw [bloblistNextBlob, bloblistBlobEndOfs_eq fits held plain.byEight aligned]
    rfl

section

variable (tiled : Tiled list.memory start blobs list.usedSize) (plain : list.Plain)
  (aligned : start % 8 = 0) (enough : blobs.length ≤ fuel)

include tiled plain aligned enough

/-- The walk visits the blobs in their order, and ends. -/
theorem Tiled.foreachRec :
    foreachRec list fuel (recordAt list.usedSize start) =
      some ((placed start blobs).map Prod.fst) := by
  induction blobs generalizing start fuel with
  | nil =>
    cases tiled
    rw [recordAt, if_pos le_rfl]
    cases fuel <;> rfl
  | cons blob rest ih =>
    obtain ⟨here, next, -, nextAligned, later⟩ := tiled.next le_rfl plain aligned
    cases fuel with
    | zero => exact absurd enough (Nat.not_succ_le_zero _)
    | succ fuel =>
      rw [here, Blobs.foreachRec, next,
        ih later nextAligned (Nat.le_of_succ_le_succ enough)]
      rfl

/-- The search finds the first blob with the tag. -/
theorem Tiled.findFrom (tag : Nat) :
    findFrom list tag fuel (recordAt list.usedSize start) =
      some (((placed start blobs).find? fun entry => entry.2.tag = tag).map Prod.fst) := by
  induction blobs generalizing start fuel with
  | nil =>
    cases tiled
    rw [recordAt, if_pos le_rfl]
    cases fuel <;> rfl
  | cons blob rest ih =>
    obtain ⟨here, next, found, nextAligned, later⟩ := tiled.next le_rfl plain aligned
    cases fuel with
    | zero => exact absurd enough (Nat.not_succ_le_zero _)
    | succ fuel =>
      rw [here, Blobs.findFrom, next, found,
        ih later nextAligned (Nat.le_of_succ_le_succ enough), placed,
        List.find?_cons]
      by_cases same : blob.tag = tag
      · simp [same]
      · simp [same]

end

theorem bloblistFirstBlob_eq (plain : list.Plain) :
    bloblistFirstBlob list = recordAt list.usedSize 24 := by
  rw [bloblistFirstBlob, plain.header]
  rfl

theorem Tiled.getBlob (tiled : Tiled list.memory 24 blobs list.usedSize) (plain : list.Plain)
    (enough : blobs.length ≤ fuel) (tag : Nat) :
    bloblistGetBlob list fuel tag =
      some (((placed 24 blobs).find? fun entry => entry.2.tag = tag).map fun entry =>
        (entry.1 + 8, entry.2.data.length)) := by
  rw [bloblistGetBlob, bloblistFindrec, bloblistFirstBlob_eq plain,
    tiled.findFrom plain (by decide) enough]
  cases found : (placed 24 blobs).find? fun entry => entry.2.tag = tag with
  | none => rfl
  | some entry =>
    obtain ⟨fits, held, -⟩ := tiled.held entry (List.mem_of_find?_eq_some found)
    obtain ⟨header, -, size⟩ := fields_of_holds fits held
    simp [header, size]

end Walk

end TachyonBoot.Blobs
