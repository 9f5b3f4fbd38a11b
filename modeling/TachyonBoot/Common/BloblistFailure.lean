/-
This file models `bloblist_resize()` and tells which calls on a bloblist change it although
they fail.

A call that resizes a blob checks everything before it writes. A call that adds a blob with an
alignment fills the gap before it with a void record, and checks only then whether there is room
for the blob itself. When there is room for the void record only, the call fails and the void
record stays.
-/

import TachyonBoot.Common.BloblistAdd

namespace TachyonBoot.Blobs

open Library

/-! ### Resizing -/

def enoent : Int := 2

def einval : Int := 22

/-- `ALIGN()` of a `u32` to `BLOBLIST_BLOB_ALIGN`, stored into an `int`. -/
def alignToInt (x : Int) : Int :=
  Int.bmod (align blobAlignLog2 (x % 2 ^ 32).toNat) (2 ^ 32)

/-- The memory after `memmove()`. -/
def memmove (memory : Memory) (target source count : Nat) : Memory :=
  memory.write target (memory.read source count)

def bloblistResizeRec (list : Bloblist) (offset : Nat) (newSize : Int) : Except Int Bloblist :=
  let expandBy := alignToInt (newSize - recSize list offset)
  let newAlloced := alignToInt (list.usedSize + expandBy)
  if newSize < 0 then .error (-einval)
  else if (newAlloced % 2 ^ 32).toNat > list.totalSize then .error (-enospc)
  else
    let nextOfs := bloblistBlobEndOfs list offset
    let moved :=
      if nextOfs ≠ list.usedSize then
        memmove list.memory (nextOfs + expandBy).toNat nextOfs
          ((newAlloced - nextOfs) % 2 ^ 64).toNat
      else list.memory
    let list := { list with memory := moved, usedSize := (newAlloced % 2 ^ 32).toNat }
    let zeroed :=
      if expandBy > 0 then
        list.memory.write (offset + recHdrSize list offset + recSize list offset)
          (List.replicate ((newSize - recSize list offset) % 2 ^ 32).toNat 0)
      else list.memory
    .ok { list with memory := zeroed.write (offset + 4) (littleEndian 4 newSize.toNat) }

def bloblistResize (list : Bloblist) (fuel tag : Nat) (newSize : Int) :
    Option (Except Int Bloblist) :=
  (bloblistFindrec list fuel tag).map fun
    | none => .error (-enoent)
    | some offset => bloblistResizeRec list offset newSize

/-! ### Calls that may fail -/

/-- The calls that change a list. `fuel` bounds the walk over the records. -/
inductive ListCall where
  | add (tag size alignLog2 : Nat)
  | ensureSize (fuel tag size alignLog2 : Nat)
  | resize (fuel tag : Nat) (newSize : Int)

/-- The error of a call, if it fails, and the list after it; undefined if the call does not
return. -/
def listCall (list : Bloblist) : ListCall → Option (Option Int × Bloblist)
  | .add tag size alignLog2 =>
    (bloblistAdd list tag size alignLog2).map fun (result, after) =>
      (match result with | .error ret => some ret | .ok _ => none, after)
  | .ensureSize fuel tag size alignLog2 =>
    (bloblistEnsureSize list fuel tag size alignLog2).map fun (result, after) =>
      (match result with | .error ret => some ret | .ok _ => none, after)
  | .resize fuel tag newSize =>
    (bloblistResize list fuel tag newSize).map fun
      | .error ret => (some ret, list)
      | .ok after => (none, after)

/-- A call changes nothing if it fails. -/
def UnchangedOnFailure (list : Bloblist) (call : ListCall) : Prop :=
  ∀ ret after, listCall list call = some (some ret, after) → after = list

/-- The alignment of a blob, with the default for zero. -/
def effectiveAlign (alignLog2 : Nat) : Nat := if alignLog2 = 0 then blobAlignLog2 else alignLog2

/-- The gap before the data of a blob that is added next. -/
def gapBefore (list : Bloblist) (alignLog2 : Nat) : Nat :=
  padding (effectiveAlign alignLog2) (list.base + list.usedSize + recHeaderSize)

/-- There is a gap before the blob that a void record can fill, and then there is no room for the
blob. -/
structure RoomForVoidOnly (list : Bloblist) (size alignLog2 : Nat) : Prop where
  narrow : effectiveAlign alignLog2 < 32
  aligned : (list.base + list.usedSize) % 8 = 0
  gap : gapBefore list alignLog2 ≠ 0
  room : (list.usedSize + gapBefore list alignLog2) % 2 ^ 32 ≤ list.totalSize
  noRoom : list.totalSize < ((list.usedSize + gapBefore list alignLog2) % 2 ^ 32 + recHeaderSize +
    align (effectiveAlign alignLog2) size) % 2 ^ 32

/-- A call adds a blob where there is room for the void record only. -/
def LeavesVoid (list : Bloblist) : ListCall → Prop
  | .add _ size alignLog2 => RoomForVoidOnly list size alignLog2
  | .ensureSize fuel tag size alignLog2 =>
    bloblistFindrec list fuel tag = some none ∧ RoomForVoidOnly list size alignLog2
  | .resize .. => False

/-! ### Adding a record -/

theorem padding_lt (log2 address : Nat) : padding log2 address < 2 ^ log2 := by
  have positive := Nat.two_pow_pos log2
  have below := Nat.div_mul_le_self (address + (2 ^ log2 - 1)) (2 ^ log2)
  unfold padding align
  omega

theorem padding_eight_eq_zero_iff (address : Nat) :
    padding blobAlignLog2 (address + recHeaderSize) = 0 ↔ address % 8 = 0 := by
  unfold padding
  rw [show blobAlignLog2 = 3 from rfl, align_three, recHeaderSize]
  omega

variable {list : Bloblist} {alignLog2 size : Nat}

theorem gapBefore_eq (aligned : (list.base + list.usedSize) % 8 = 0)
    (gap : gapBefore list alignLog2 ≠ 0) :
    recHeaderSize + align blobAlignLog2 (gapBefore list alignLog2 - recHeaderSize) =
      gapBefore list alignLog2 := by
  have byEight : gapBefore list alignLog2 % 8 = 0 := by
    by_cases wide : 3 ≤ effectiveAlign alignLog2
    · exact padding_mod_eight wide (by rw [recHeaderSize]; omega)
    · have below := padding_lt (effectiveAlign alignLog2)
        (list.base + list.usedSize + recHeaderSize)
      have divides : 2 ^ effectiveAlign alignLog2 ∣ list.base + list.usedSize + recHeaderSize :=
        (Nat.pow_dvd_pow 2 (show effectiveAlign alignLog2 ≤ 3 by omega)).trans
          (Nat.dvd_of_mod_eq_zero (by rw [recHeaderSize]; omega))
      have target := Nat.dvd_of_mod_eq_zero (align_mod (effectiveAlign alignLog2)
        (list.base + list.usedSize + recHeaderSize))
      rw [← add_padding] at target
      have zero := Nat.eq_zero_of_dvd_of_lt ((Nat.dvd_add_right divides).mp target) below
      exact absurd zero gap
  rw [show blobAlignLog2 = 3 from rfl, align_three, recHeaderSize]
  omega

theorem addHere_cases (list : Bloblist) (tag size alignLog2 : Nat) :
    (list.totalSize < (list.usedSize + recHeaderSize + align alignLog2 size) % 2 ^ 32 ∧
        addHere list tag size alignLog2 = .error (-enospc)) ∨
      ((list.usedSize + recHeaderSize + align alignLog2 size) % 2 ^ 32 ≤ list.totalSize ∧
        ∃ after, addHere list tag size alignLog2 = .ok (list.usedSize, after) ∧
          after.totalSize = list.totalSize ∧
          after.usedSize = (list.usedSize + recHeaderSize + align alignLog2 size) % 2 ^ 32) := by
  unfold addHere
  by_cases full : (list.usedSize + recHeaderSize + align alignLog2 size) % 2 ^ 32 > list.totalSize
  · exact .inl ⟨full, if_pos full⟩
  · exact .inr ⟨Nat.le_of_not_gt full, _, if_neg full, rfl, rfl⟩

theorem bloblistAddrec_eq (list : Bloblist) (tag size alignLog2 : Nat) :
    bloblistAddrec list tag size alignLog2 =
      if 32 ≤ effectiveAlign alignLog2 then none
      else if gapBefore list alignLog2 = 0 then
        some (finishAdd list tag size (effectiveAlign alignLog2))
      else if (list.base + list.usedSize) % 8 ≠ 0 then none
      else
        match addHere list voidTag (gapBefore list alignLog2 - recHeaderSize) blobAlignLog2 with
        | .error ret => some (.error ret, list)
        | .ok (_, middle) => some (finishAdd middle tag size (effectiveAlign alignLog2)) := by
  simp only [bloblistAddrec, ne_eq, padding_eight_eq_zero_iff]
  rfl

theorem finishAdd_error {after : Bloblist} {tag : Nat} {ret : Int}
    (failed : finishAdd list tag size alignLog2 = (.error ret, after)) : after = list := by
  unfold finishAdd at failed
  split at failed <;> cases failed
  rfl

/-- When there is room for the void record only, the call fails and the list has changed. -/
theorem RoomForVoidOnly.fails (only : RoomForVoidOnly list size alignLog2) (tag : Nat) :
    ∃ after, bloblistAddrec list tag size alignLog2 = some (.error (-enospc), after) ∧
      after ≠ list := by
  have extent := gapBefore_eq only.aligned only.gap
  rw [bloblistAddrec_eq, if_neg (Nat.not_le_of_lt only.narrow), if_neg only.gap,
    if_neg (not_not_intro only.aligned)]
  rcases addHere_cases list voidTag (gapBefore list alignLog2 - recHeaderSize) blobAlignLog2 with
    ⟨full, -⟩ | ⟨-, middle, added, total, used⟩
  · rw [Nat.add_assoc, extent] at full
    exact absurd only.room (Nat.not_le_of_lt full)
  rw [Nat.add_assoc, extent] at used
  rw [added]
  dsimp only
  rcases addHere_cases middle tag size (effectiveAlign alignLog2) with ⟨-, failed⟩ | ⟨room, -⟩
  · refine ⟨middle, by rw [finishAdd, failed], fun same => ?_⟩
    have changed := congrArg Bloblist.usedSize same
    have below : gapBefore list alignLog2 < 2 ^ 32 :=
      (padding_lt _ _).trans (Nat.pow_lt_pow_right (by decide) only.narrow)
    have gap := only.gap
    omega
  · rw [used, total] at room
    exact absurd only.noRoom (Nat.not_lt_of_le room)

/-- Otherwise a call that fails has changed nothing. -/
theorem eq_of_bloblistAddrec_error {after : Bloblist} {tag : Nat} {ret : Int}
    (failed : bloblistAddrec list tag size alignLog2 = some (.error ret, after))
    (notOnly : ¬ RoomForVoidOnly list size alignLog2) : after = list := by
  rw [bloblistAddrec_eq] at failed
  split_ifs at failed with wide noGap unaligned
  · exact finishAdd_error (Option.some.inj failed)
  have aligned : (list.base + list.usedSize) % 8 = 0 := not_not.mp unaligned
  have extent := gapBefore_eq aligned noGap
  rcases addHere_cases list voidTag (gapBefore list alignLog2 - recHeaderSize) blobAlignLog2 with
    ⟨-, full⟩ | ⟨room, middle, added, total, used⟩
  · rw [full] at failed
    cases failed
    rfl
  rw [Nat.add_assoc, extent] at room used
  rw [added] at failed
  rcases addHere_cases middle tag size (effectiveAlign alignLog2) with
    ⟨noRoom, -⟩ | ⟨-, _, placed, -⟩
  · rw [used, total] at noRoom
    exact absurd ⟨Nat.lt_of_not_le wide, aligned, noGap, room, noRoom⟩ notOnly
  · dsimp only at failed
    rw [finishAdd, placed] at failed
    cases failed

/-! ### Failed calls -/

theorem unchanged_add_iff (list : Bloblist) (tag size alignLog2 : Nat) :
    UnchangedOnFailure list (.add tag size alignLog2) ↔ ¬ RoomForVoidOnly list size alignLog2 := by
  constructor
  · intro unchanged only
    obtain ⟨after, failed, changed⟩ := only.fails tag
    refine changed (unchanged (-enospc) after ?_)
    simp [listCall, bloblistAdd, failed, Except.map]
  · intro notOnly ret after failed
    cases call : bloblistAddrec list tag size alignLog2 with
    | none => simp [listCall, bloblistAdd, call] at failed
    | some outcome =>
      obtain ⟨result, changed⟩ := outcome
      cases result with
      | error code =>
        simp [listCall, bloblistAdd, call, Except.map] at failed
        rw [← failed.2]
        exact eq_of_bloblistAddrec_error call notOnly
      | ok offset => simp [listCall, bloblistAdd, call, Except.map] at failed

/-- A failed call leaves the bloblist as it was, exactly unless it is a call that adds a blob where
there is room for the void record before the blob but not for the blob. -/
theorem listCall_unchanged_iff (list : Bloblist) (call : ListCall) :
    UnchangedOnFailure list call ↔ ¬ LeavesVoid list call := by
  cases call with
  | add tag size alignLog2 => exact unchanged_add_iff list tag size alignLog2
  | ensureSize fuel tag size alignLog2 =>
    unfold LeavesVoid
    cases found : bloblistFindrec list fuel tag with
    | none =>
      refine iff_of_true (fun ret after failed => ?_) (by simp [found])
      simp [listCall, bloblistEnsureSize, found] at failed
    | some record =>
      cases record with
      | some offset =>
        refine iff_of_true (fun ret after failed => ?_) (by simp [found])
        simp only [listCall, bloblistEnsureSize, found] at failed
        split_ifs at failed <;> cases failed
        rfl
      | none =>
        have same : listCall list (.ensureSize fuel tag size alignLog2) =
            listCall list (.add tag size alignLog2) := by
          simp only [listCall, bloblistEnsureSize, found, Option.map_map]
          congr 1
          funext outcome
          obtain ⟨result, after⟩ := outcome
          cases result <;> rfl
        rw [UnchangedOnFailure, same]
        exact (unchanged_add_iff list tag size alignLog2).trans (by simp [found])
  | resize fuel tag newSize =>
    refine iff_of_true (fun ret after failed => ?_) id
    cases call : bloblistResize list fuel tag newSize with
    | none => simp [listCall, call] at failed
    | some result =>
      simp only [listCall, call, Option.map_some, Option.some.injEq] at failed
      cases result <;> cases failed
      rfl

def smallList : Bloblist where
  base := 4096
  hdrSize := bloblistHdrSize
  alignLog2 := blobAlignLog2
  usedSize := bloblistHdrSize
  totalSize := 64
  memory := fun _ => 0

/-- A new list of 64 bytes has no room for 64 bytes that are aligned to 64, but afterwards 32 more
of its bytes are used. -/
theorem failedAdd_leaves_void :
    bloblistNew (fun _ => 0) 4096 64 0 = .ok smallList ∧ smallList.usedSize = 24 ∧
      (listCall smallList (.add 5 64 6)).map (fun outcome => (outcome.1, outcome.2.usedSize)) =
        some (some (-enospc), 56) :=
  ⟨rfl, rfl, by decide⟩

end TachyonBoot.Blobs
