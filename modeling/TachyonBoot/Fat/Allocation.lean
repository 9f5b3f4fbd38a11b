/-
This file models the search for a free cluster in `fs/fat/fat.c` and `fs/fat/fat_write.c`.

The search goes up from an entry of the file allocation table until the entry that it reads is
zero. The reader of the table also gives zero for an entry that it refuses and for a window of the
table that the disk fails to deliver, and the search knows no end of the volume. What it finds is a
free cluster of the volume exactly if there is one before which every entry can be read or is
passed over.

The table is read through a buffer for one window of six blocks. A buffer that was changed is
written back first, and an entry for which that fails is passed over. A search reads each window
once, so that it matters only what the buffer shows of a window then, or that the read failed. The
link that `determine_fatent()` stores in the end is left out.
-/

import TachyonBoot.Library.Bytes

namespace TachyonBoot.Fat

open Library

/-! ### The table -/

inductive FatSize where
  | fat12
  | fat16
  | fat32

/-- What a search finds of `struct fsdata`: the windows as they are in the buffer, which of them get
there, and at which entries the buffer is written back or need not be. -/
structure Fsdata where
  fatsize : FatSize
  sectSize : Nat
  fatbuf : Nat → Memory
  delivered : Nat → Bool
  flushed : Nat → Bool

/-- The first number of a cluster that `CHECK_CLUST` refuses again. -/
def FatSize.refused : FatSize → Nat
  | .fat12 => 0xff0
  | .fat16 => 0xfff0
  | .fat32 => 0xffffff0

def checkClust (entry : Nat) (fatsize : FatSize) : Bool :=
  decide (entry ≤ 1) || decide (entry ≥ fatsize.refused)

def Fsdata.fatbufsize (mydata : Fsdata) : Nat := mydata.sectSize * 6

/-- `FAT12BUFSIZE`, `FAT16BUFSIZE` and `FAT32BUFSIZE`: how many entries a window has. -/
def Fsdata.bufEntries (mydata : Fsdata) : Nat :=
  match mydata.fatsize with
  | .fat12 => mydata.fatbufsize * 2 / 3
  | .fat16 => mydata.fatbufsize / 2
  | .fat32 => mydata.fatbufsize / 4

def Fsdata.bufnum (mydata : Fsdata) (entry : Nat) : Nat := entry / mydata.bufEntries

/-- The entry of the table, from its window. -/
def Fsdata.fatent (mydata : Fsdata) (entry : Nat) : Nat :=
  let offset := entry - mydata.bufnum entry * mydata.bufEntries
  let fatbuf := mydata.fatbuf (mydata.bufnum entry)
  match mydata.fatsize with
  | .fat32 => ofLittleEndian (fatbuf.read (offset * 4) 4)
  | .fat16 => ofLittleEndian (fatbuf.read (offset * 2) 2)
  | .fat12 =>
    let off8 := offset * 3 / 2
    let ret := (fatbuf off8).toNat + (fatbuf (off8 + 1)).toNat <<< 8
    (if offset % 2 = 1 then ret >>> 4 else ret) % 2 ^ 12

def getFatent (mydata : Fsdata) (entry : Nat) : Nat :=
  if checkClust entry mydata.fatsize then 0
  else if mydata.flushed entry = false then 2 ^ 32 - 1
  else if mydata.delivered (mydata.bufnum entry) then mydata.fatent entry
  else 0

theorem checkClust_of_getFatent_ne_zero {mydata : Fsdata} {entry : Nat}
    (nonzero : getFatent mydata entry ≠ 0) : checkClust entry mydata.fatsize = false := by
  refine Bool.eq_false_iff.mpr fun refused => nonzero ?_
  rw [getFatent, if_pos refused]

/-- The loop of both searches. -/
def firstFree (mydata : Fsdata) (entry : Nat) : Nat :=
  if getFatent mydata entry = 0 then entry else firstFree mydata (entry + 1)
termination_by mydata.fatsize.refused - entry
decreasing_by
  have valid := checkClust_of_getFatent_ne_zero (by assumption)
  simp only [checkClust, Bool.or_eq_false_iff, decide_eq_false_iff_not] at valid
  omega

def findEmptyCluster (mydata : Fsdata) : Nat := firstFree mydata 3

/-- `determine_fatent()` up to the link. -/
def determineFatent (mydata : Fsdata) (entry : UInt32) : Nat := firstFree mydata (entry + 1).toNat

/-! ### What is found -/

section Search

variable {mydata : Fsdata} {clusters start : Nat}

/-- The cluster is one of the volume and is free. -/
def IsFree (mydata : Fsdata) (clusters cluster : Nat) : Prop :=
  2 ≤ cluster ∧ cluster ≤ clusters + 1 ∧ mydata.fatent cluster = 0

/-- The number of the entry is not refused, and its window is delivered. -/
def Legible (mydata : Fsdata) (entry : Nat) : Prop :=
  checkClust entry mydata.fatsize = false ∧ mydata.delivered (mydata.bufnum entry) = true

/-- The number of the entry is not refused, but the buffer cannot be written back. -/
def PassedOver (mydata : Fsdata) (entry : Nat) : Prop :=
  checkClust entry mydata.fatsize = false ∧ mydata.flushed entry = false

/-- Some cluster from the start on is free and not passed over, and the entries in front of it can
be read or are passed over. -/
def FreeWithinReach (mydata : Fsdata) (clusters start : Nat) : Prop :=
  ∃ cluster, start ≤ cluster ∧ IsFree mydata clusters cluster ∧ ¬PassedOver mydata cluster ∧
    ∀ entry, start ≤ entry → entry < cluster → PassedOver mydata entry ∨ Legible mydata entry

theorem getFatent_eq_zero_iff {entry : Nat} :
    getFatent mydata entry = 0 ↔
      ¬PassedOver mydata entry ∧ (Legible mydata entry → mydata.fatent entry = 0) := by
  unfold getFatent PassedOver Legible
  cases checkClust entry mydata.fatsize <;> cases mydata.flushed entry <;>
    cases mydata.delivered (mydata.bufnum entry) <;> simp

/-- The search ends at the first entry that is read as zero. -/
theorem firstFree_spec (mydata : Fsdata) (start : Nat) :
    start ≤ firstFree mydata start ∧ getFatent mydata (firstFree mydata start) = 0 ∧
      ∀ entry, start ≤ entry → entry < firstFree mydata start → getFatent mydata entry ≠ 0 := by
  fun_induction firstFree mydata start with
  | case1 start zero =>
    exact ⟨Nat.le_refl _, zero, fun entry low high => absurd low (Nat.not_le.mpr high)⟩
  | case2 start nonzero ih =>
    obtain ⟨above, zero, before⟩ := ih
    refine ⟨Nat.le_of_succ_le above, zero, fun entry low high => ?_⟩
    rcases Nat.eq_or_lt_of_le low with rfl | later
    · exact nonzero
    · exact before entry later high

theorem isFree_firstFree_iff (mydata : Fsdata) (clusters start : Nat) :
    IsFree mydata clusters (firstFree mydata start) ↔ FreeWithinReach mydata clusters start := by
  obtain ⟨above, zero, before⟩ := firstFree_spec mydata start
  constructor
  · intro free
    refine ⟨_, above, free, (getFatent_eq_zero_iff.mp zero).1, fun entry low high => ?_⟩
    have nonzero := before entry low high
    rw [Ne, getFatent_eq_zero_iff, not_and_or, not_not, Classical.not_imp] at nonzero
    exact nonzero.imp_right And.left
  · rintro ⟨cluster, low, free, flushed, legible⟩
    have notBefore : firstFree mydata start ≤ cluster := by
      refine Nat.le_of_not_lt fun later => before cluster low later ?_
      exact getFatent_eq_zero_iff.mpr ⟨flushed, fun _ => free.2.2⟩
    rcases Nat.eq_or_lt_of_le notBefore with same | earlier
    · rwa [same]
    · -- the search ends earlier, at an entry that it can read
      have read := getFatent_eq_zero_iff.mp zero
      have readable := (legible _ above earlier).resolve_left read.1
      have valid := readable.1
      simp only [checkClust, Bool.or_eq_false_iff, decide_eq_false_iff_not, Nat.not_le] at valid
      exact ⟨valid.1, Nat.le_trans notBefore free.2.1, read.2 readable⟩

end Search

/-- The searches end, and find a free cluster of the volume if and only if there is one from their
start on before which every entry can be read or is passed over. -/
theorem clusterSearch_sound_iff (mydata : Fsdata) (clusters : Nat) :
    (IsFree mydata clusters (findEmptyCluster mydata) ↔ FreeWithinReach mydata clusters 3) ∧
      ∀ entry, IsFree mydata clusters (determineFatent mydata entry) ↔
        FreeWithinReach mydata clusters (entry + 1).toNat :=
  ⟨isFree_firstFree_iff mydata clusters 3, fun _ => isFree_firstFree_iff mydata clusters _⟩

/-- A volume of two clusters that are both in use. -/
def fullVolume : Fsdata where
  fatsize := .fat12
  sectSize := 512
  fatbuf := fun _ index => if index < 6 then 0xff else 0
  delivered := fun _ => true
  flushed := fun _ => true

/-- On a full volume the cluster behind its end is found, and after a failed read one in use. -/
theorem fullVolume_search :
    findEmptyCluster fullVolume = 4 ∧ ¬IsFree fullVolume 2 4 ∧
      findEmptyCluster { fullVolume with delivered := fun _ => false } = 3 ∧
      ¬IsFree fullVolume 2 3 := by
  refine ⟨?_, fun free => absurd free.2.1 (by decide), ?_, fun free => absurd free.2.2 ?_⟩
  · rw [findEmptyCluster, firstFree, if_neg (by decide +kernel), firstFree,
      if_pos (by decide +kernel)]
  · rw [findEmptyCluster, firstFree, if_pos (by decide +kernel)]
  · decide +kernel

end TachyonBoot.Fat
