/-
This file models `fwu_get_mdata()` of `lib/fwu_updates/fwu.c` for storage that may fail, and tells
when it overwrites a copy of the metadata only with one that passed its check.

Each read succeeds or fails, and a read that failed leaves anything in its half of the cache. The
loop that repairs the copies looks at each part on its own: a part that is not good is overwritten
with the other half of the cache, of which a new checksum is computed. So when neither copy passed
its check, the remains of one are written to both places with a checksum that makes them good.
-/

import TachyonBoot.Fwu.Metadata

namespace TachyonBoot.Fwu

/-! ### The function with failing storage -/

def enomem : Int := 12

/-- What a call of `fwu_read_mdata()` returns, and what it leaves in the cache. -/
structure PartRead (layout : FwuLayout) where
  err : Int
  mdata : FwuMdata layout

/-- What `fwu_get_mdata()` meets: the result of `fwu_get_mdata_size()`, the cache if it was
allocated, the reads, and the results of the writes. -/
structure FwuStorage (layout : FwuLayout) where
  sizeErr : Int
  cache : Option (Copies layout)
  read : Part → PartRead layout
  writeErr : Part → Int

/-- What `fwu_get_mdata()` returns, the metadata it hands out, and what it asked to be written. -/
structure FwuResult (layout : FwuLayout) where
  err : Int
  mdata : Option (FwuMdata layout)
  writes : List (PartWrite layout)

variable {layout : FwuLayout}

namespace FwuStorage

variable (storage : FwuStorage layout)

/-- `parts_ok[]` after the first loop: the part was read, and passes the check. -/
def partOk (part : Part) : Bool :=
  decide ((storage.read part).err = 0) && (storage.read part).mdata.crcOk

/-- The error of a repair, if there is one to be made. -/
def repairErr (ok : Bool) (part : Part) : Int := if ok then 0 else storage.writeErr part

/-- The second loop: each part that is not good is copied from the other, and written. -/
def repairParts (cache : Copies layout) (primaryOk secondaryOk : Bool) : FwuResult layout :=
  let first := repairPart primaryOk .primary cache
  if storage.repairErr primaryOk .primary ≠ 0 then
    ⟨storage.writeErr .primary, none, first.2⟩
  else
    let second := repairPart secondaryOk .secondary first.1
    if storage.repairErr secondaryOk .secondary ≠ 0 then
      ⟨storage.writeErr .secondary, none, first.2 ++ second.2⟩
    else
      ⟨0, some (second.1 .primary), first.2 ++ second.2⟩

/-- `fwu_get_mdata()`. -/
def getMdata : FwuResult layout :=
  if storage.sizeErr ≠ 0 then
    ⟨storage.sizeErr, none, []⟩
  else
    match storage.cache with
    | none => ⟨-enomem, none, []⟩
    | some cache =>
      if (cache .primary).crcOk then
        ⟨0, some (cache .primary), []⟩
      else
        let cache := fun part => (storage.read part).mdata
        let primaryOk := storage.partOk .primary
        let secondaryOk := storage.partOk .secondary
        if primaryOk && secondaryOk then
          if cache .primary = cache .secondary then
            ⟨0, some (cache .primary), []⟩
          else
            storage.repairParts cache true false
        else
          storage.repairParts cache primaryOk secondaryOk

/-- Storage without failures. -/
def sound (cache parts : Copies layout) : FwuStorage layout where
  sizeErr := 0
  cache := some cache
  read part := ⟨0, parts part⟩
  writeErr _ := 0

end FwuStorage

/-! ### Which copies are written -/

/-- A copy passed the check: the cached one, or one that was read. -/
def Passed (storage : FwuStorage layout) (mdata : FwuMdata layout) : Prop :=
  mdata.crcOk = true ∧ ((∃ cache, storage.cache = some cache ∧ cache .primary = mdata) ∨
    ∃ part, (storage.read part).err = 0 ∧ (storage.read part).mdata = mdata)

/-- Corrupt metadata is not blessed: without a copy that passed there is an error and nothing is
written, and whatever is written is a copy that passed. -/
def NeverBlesses (storage : FwuStorage layout) : Prop :=
  ((¬∃ mdata, Passed storage mdata) → storage.getMdata.err ≠ 0 ∧ storage.getMdata.writes = []) ∧
    ∀ write ∈ storage.getMdata.writes, Passed storage write.mdata

variable {storage : FwuStorage layout}

theorem passed_of_partOk {part : Part} (ok : storage.partOk part = true) :
    Passed storage (storage.read part).mdata := by
  obtain ⟨success, good⟩ := Bool.and_eq_true_iff.mp ok
  exact ⟨good, .inr ⟨part, of_decide_eq_true success, rfl⟩⟩

variable {cache : Copies layout} {primaryOk secondaryOk : Bool} {write : PartWrite layout}

theorem mem_repairParts_writes
    (member : write ∈ (storage.repairParts cache primaryOk secondaryOk).writes) :
    write ∈ (repairPart primaryOk .primary cache).2 ∨
      write ∈ (repairPart secondaryOk .secondary (repairPart primaryOk .primary cache).1).2 := by
  rw [FwuStorage.repairParts] at member
  dsimp only at member
  split at member
  · exact .inl member
  · split at member
    · exact List.mem_append.mp member
    · exact List.mem_append.mp member

theorem repairParts_writes {mdata : FwuMdata layout} (good : mdata.crcOk = true)
    (source : primaryOk = true ∧ cache .primary = mdata ∨
      primaryOk = false ∧ secondaryOk = true ∧ cache .secondary = mdata)
    (member : write ∈ (storage.repairParts cache primaryOk secondaryOk).writes) :
    write.mdata = mdata := by
  have again : mdata.withCrc = mdata := FwuMdata.withCrc_of_crcOk good
  have either := mem_repairParts_writes member
  rcases source with ⟨rfl, rfl⟩ | ⟨rfl, rfl, rfl⟩
  · cases secondaryOk with
    | true => simp [repairPart] at either
    | false =>
      obtain rfl : write = ⟨.secondary, (cache .primary).withCrc⟩ := by
        simpa [repairPart, fwuSyncMdata, Part.other] using either
      exact again
  · obtain rfl : write = ⟨.primary, (cache .secondary).withCrc⟩ := by
      simpa [repairPart, fwuSyncMdata, Part.other] using either
    exact again

theorem repairParts_bad (storage : FwuStorage layout) (cache : Copies layout) :
    (storage.repairParts cache false false).writes ≠ [] := by
  simp only [FwuStorage.repairParts, repairPart, fwuSyncMdata]
  split
  · simp
  · split <;> simp

/-- The call gets to the reads. -/
def Reads (storage : FwuStorage layout) : Prop :=
  storage.sizeErr = 0 ∧ ∃ cache, storage.cache = some cache ∧ (cache .primary).crcOk = false

theorem getMdata_of_reads (reads : Reads storage) :
    storage.getMdata =
      if storage.partOk .primary && storage.partOk .secondary then
        if (storage.read .primary).mdata = (storage.read .secondary).mdata then
          ⟨0, some (storage.read .primary).mdata, []⟩
        else
          storage.repairParts (fun part => (storage.read part).mdata) true false
      else
        storage.repairParts (fun part => (storage.read part).mdata) (storage.partOk .primary)
          (storage.partOk .secondary) := by
  obtain ⟨size, cache, allocated, bad⟩ := reads
  simp only [FwuStorage.getMdata, size, allocated, bad, ne_eq, not_true_eq_false, if_false,
    Bool.false_eq_true]

/-- A call that ends before it reads writes nothing, and returns an error unless the cached copy
is good. -/
theorem neverBlesses_of_not_reads (early : ¬Reads storage) :
    NeverBlesses storage := by
  by_cases size : storage.sizeErr = 0
  · cases allocated : storage.cache with
    | none =>
      have result : storage.getMdata = ⟨-enomem, none, []⟩ := by
        simp [FwuStorage.getMdata, size, allocated]
      rw [NeverBlesses, result]
      exact ⟨fun _ => ⟨show -enomem ≠ 0 by decide, rfl⟩, fun _ member => nomatch member⟩
    | some cache =>
      have good : (cache .primary).crcOk = true := by
        by_contra bad
        exact early ⟨size, cache, allocated, Bool.eq_false_iff.mpr bad⟩
      have result : storage.getMdata = ⟨0, some (cache .primary), []⟩ := by
        simp [FwuStorage.getMdata, size, allocated, good]
      rw [NeverBlesses, result]
      refine ⟨fun nonePassed => absurd ⟨cache .primary, good, ?_⟩ nonePassed,
        fun _ member => nomatch member⟩
      exact .inl ⟨cache, allocated, rfl⟩
  · have result : storage.getMdata = ⟨storage.sizeErr, none, []⟩ := by
      simp [FwuStorage.getMdata, size]
    rw [NeverBlesses, result]
    exact ⟨fun _ => ⟨size, rfl⟩, fun _ member => nomatch member⟩

/-- With a good copy among those that are read, every write is a copy that passed. -/
theorem neverBlesses_of_partOk (reads : Reads storage)
    (good : storage.partOk .primary = true ∨ storage.partOk .secondary = true) :
    NeverBlesses storage := by
  have somePassed : ∃ mdata, Passed storage mdata := by
    rcases good with primary | secondary
    · exact ⟨_, passed_of_partOk primary⟩
    · exact ⟨_, passed_of_partOk secondary⟩
  refine ⟨fun nonePassed => absurd somePassed nonePassed, fun write member => ?_⟩
  rw [getMdata_of_reads reads] at member
  cases primary : storage.partOk .primary with
  | true =>
    have passed := passed_of_partOk primary
    have source : write.mdata = (storage.read .primary).mdata := by
      rw [primary, Bool.true_and] at member
      split at member
      · split at member
        · cases member
        · exact repairParts_writes passed.1 (.inl ⟨rfl, rfl⟩) member
      · exact repairParts_writes passed.1 (.inl ⟨rfl, rfl⟩) member
    rwa [source]
  | false =>
    have secondary : storage.partOk .secondary = true := by simpa [primary] using good
    have passed := passed_of_partOk secondary
    rw [primary, secondary] at member
    rwa [repairParts_writes passed.1 (.inr ⟨rfl, rfl, rfl⟩) member]

/-- Corrupt metadata is not blessed exactly if the call ends before it reads, or one of the copies
that it reads is good. -/
theorem getMdata_neverBlesses_iff (storage : FwuStorage layout) :
    NeverBlesses storage ↔
      ¬Reads storage ∨ storage.partOk .primary = true ∨ storage.partOk .secondary = true := by
  by_cases reads : Reads storage
  · by_cases good : storage.partOk .primary = true ∨ storage.partOk .secondary = true
    · exact iff_of_true (neverBlesses_of_partOk reads good) (.inr good)
    · refine iff_of_false ?_ (by simp [reads, good])
      rintro ⟨noWrites, -⟩
      obtain ⟨primary, secondary⟩ := not_or.mp good
      have nonePassed : ¬∃ mdata, Passed storage mdata := by
        rintro ⟨mdata, passes, ⟨cache, allocated, rfl⟩ | ⟨part, success, rfl⟩⟩
        · obtain ⟨-, other, allocatedOther, bad⟩ := reads
          obtain rfl := Option.some.inj (allocated.symm.trans allocatedOther)
          exact absurd passes (Bool.eq_false_iff.mp bad)
        · have ok : storage.partOk part = true := by
            rw [FwuStorage.partOk, passes, success]
            rfl
          cases part with
          | primary => exact primary ok
          | secondary => exact secondary ok
      refine absurd (noWrites nonePassed).2 ?_
      rw [getMdata_of_reads reads, Bool.eq_false_iff.mpr primary, Bool.eq_false_iff.mpr secondary]
      exact repairParts_bad storage _
  · exact iff_of_true (neverBlesses_of_not_reads reads) (.inl reads)

/-- Storage whose two copies, and whose cache, are damaged. -/
def damagedStorage : FwuStorage blankLayout :=
  .sound (clearedCache blankLayout) (fun _ => damagedMdata)

/-- Both copies fail their check, and yet they are overwritten with metadata whose checksum is
good, which is also handed out. -/
theorem damagedStorage_blessed :
    (damagedStorage.read .primary).mdata.crcOk = false ∧
      (damagedStorage.read .secondary).mdata.crcOk = false ∧
      damagedStorage.getMdata.err = 0 ∧
      damagedStorage.getMdata.writes.map PartWrite.part = [.primary, .secondary] ∧
      ∀ write ∈ damagedStorage.getMdata.writes, write.mdata.crcOk = true :=
  ⟨damagedMdata.2, damagedMdata.2, by decide +kernel⟩

end TachyonBoot.Fwu
