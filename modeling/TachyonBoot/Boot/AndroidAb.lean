/-
This file models the A/B metadata of `ab_select_slot()` with a backup copy, under
power failures.

A run loads the primary copy, or the backup when the primary one is bad, chooses a
slot, and stores what it changed: the primary copy first, then the backup if it
differs. A cut inside the write of the backup leaves a bad backup behind, and the
next run that changes anything still writes the primary copy first. If it is cut
there, no good copy is left. The file proves that this is the only way to lose
both copies.
-/

import TachyonBoot.Efi.VarStore
import TachyonBoot.Library.PowerLoss

namespace TachyonBoot.AndroidAb

open Library

/-! ### Data -/

structure SlotMetadata where
  priority : BitVec 4
  triesRemaining : BitVec 3
  successfulBoot : Bool
  verityCorrupted : Bool
  reserved : BitVec 7
deriving DecidableEq, Repr

/-- `struct bootloader_control`; `spare` are the two bits after `recovery_tries_remaining`. -/
structure BootloaderControl where
  slotSuffix : Vector UInt8 4
  magic : BitVec 32
  version : BitVec 8
  nbSlot : BitVec 3
  recoveryTriesRemaining : BitVec 3
  spare : BitVec 2
  reserved0 : BitVec 16
  slotInfo : Vector SlotMetadata 4
  reserved1 : BitVec 64
  crc32Le : UInt32
deriving DecidableEq, Repr

def SlotMetadata.bytes (info : SlotMetadata) : List UInt8 :=
  littleEndian 2 (info.priority.toNat + info.triesRemaining.toNat * 16 +
    info.successfulBoot.toNat * 128 + info.verityCorrupted.toNat * 256 + info.reserved.toNat * 512)

/-- The bytes before the checksum. -/
def BootloaderControl.bytes (abc : BootloaderControl) : List UInt8 :=
  abc.slotSuffix.toList ++ littleEndian 4 abc.magic.toNat ++ littleEndian 1 abc.version.toNat ++
    littleEndian 1 (abc.nbSlot.toNat + abc.recoveryTriesRemaining.toNat * 8 +
      abc.spare.toNat * 64) ++
    littleEndian 2 abc.reserved0.toNat ++ abc.slotInfo.toList.flatMap SlotMetadata.bytes ++
    littleEndian 8 abc.reserved1.toNat

def abControlComputeCrc (abc : BootloaderControl) : UInt32 := Efi.crc32 0 abc.bytes

def BootloaderControl.crcOk (abc : BootloaderControl) : Bool :=
  abc.crc32Le == abControlComputeCrc abc

/-- A copy with a bad checksum. -/
abbrev DamagedControl := { abc : BootloaderControl // abc.crcOk = false }

def bootCtrlMagic : BitVec 32 := 0x42414342#32

def bootCtrlVersion : BitVec 8 := 1#8

def numSlots : BitVec 3 := 2#3

/-- `ARRAY_SIZE(abc->slot_info)`. -/
def maxSlots : BitVec 3 := 4#3

def einval : Int := 22

def enodata : Int := 61

def bootSlotName (slot : Fin 4) : UInt8 := 97 + slot.val.toUInt8

def suffixOf (slot : Fin 4) : Vector UInt8 4 := #v[95, bootSlotName slot, 0, 0]

/-- `ab_control_default()`, which leaves the unused slots and the recovery tries as they were. -/
def abControlDefault (abc : BootloaderControl) : BootloaderControl :=
  let metadata : SlotMetadata :=
    { priority := 15#4, triesRemaining := 7#3, successfulBoot := false, verityCorrupted := false
      reserved := 0#7 }
  let abc := { abc with
    slotSuffix := #v[95, 97, 0, 0], magic := bootCtrlMagic, version := bootCtrlVersion
    nbSlot := numSlots, reserved0 := 0
    slotInfo := Vector.ofFn fun slot =>
      if slot.val < numSlots.toNat then metadata else abc.slotInfo[slot]
    reserved1 := 0 }
  { abc with crc32Le := abControlComputeCrc abc }

/-! ### Choosing a slot -/

def abCompareSlots (a b : SlotMetadata) : Int :=
  if a.priority ≠ b.priority then (b.priority.toNat : Int) - a.priority.toNat
  else if a.successfulBoot ≠ b.successfulBoot then
    (b.successfulBoot.toNat : Int) - a.successfulBoot.toNat
  else if a.triesRemaining ≠ b.triesRemaining then
    (b.triesRemaining.toNat : Int) - a.triesRemaining.toNat
  else 0

/-- The metadata of a slot. -/
abbrev BootloaderControl.info (abc : BootloaderControl) (slot : Fin 4) : SlotMetadata :=
  abc.slotInfo[slot]

/-- The loop over the slots. -/
def abBestSlot (abc : BootloaderControl) : Option (Fin 4) :=
  (List.finRange 4).foldl (fun best slot =>
    let info := abc.slotInfo[slot]
    if abc.nbSlot.toNat ≤ slot.val then best
    else if info.verityCorrupted || info.triesRemaining = 0 then best
    else
      match best with
      | none => some slot
      | some chosen => if abCompareSlots info abc.slotInfo[chosen] < 0 then some slot else best)
    none

/-- The safety check on the number of slots. -/
def BootloaderControl.limitSlots (abc : BootloaderControl) : BootloaderControl :=
  if abc.nbSlot > maxSlots then { abc with nbSlot := maxSlots } else abc

/-- The boot attempt on the chosen slot is counted. -/
def BootloaderControl.countAttempt (abc : BootloaderControl) (decTries : Bool) (slot : Fin 4) :
    BootloaderControl :=
  let info := abc.slotInfo[slot]
  if !info.successfulBoot && decTries then
    { abc with
      slotInfo := abc.slotInfo.set slot { info with triesRemaining := info.triesRemaining - 1 } }
  else abc

/-- What a run changes in the loaded metadata, whether it has to be stored, and the slot. -/
def abUpdate (decTries : Bool) (abc : BootloaderControl) :
    BootloaderControl × Bool × Option (Fin 4) :=
  let limited := decide (abc.nbSlot > maxSlots)
  let abc := abc.limitSlots
  match abBestSlot abc with
  | none => (abc, limited, none)
  | some slot =>
    let counted := !abc.slotInfo[slot].successfulBoot && decTries
    let renamed := abc.slotSuffix != suffixOf slot
    let abc := { abc.countAttempt decTries slot with slotSuffix := suffixOf slot }
    (abc, limited || counted || renamed, some slot)

/-! ### A run -/

/-- The two copies. -/
structure AbDisk where
  primary : BootloaderControl
  backup : BootloaderControl

/-- `ab_control_store()` at either offset. -/
inductive AbWrite where
  | primary (abc : BootloaderControl)
  | backup (abc : BootloaderControl)

def AbWrite.apply (disk : AbDisk) : AbWrite → AbDisk
  | .primary abc => { disk with primary := abc }
  | .backup abc => { disk with backup := abc }

/-- A power failure inside the write. -/
def AbWrite.tear (disk : AbDisk) (write : AbWrite) (left : DamagedControl) : AbDisk :=
  match write with
  | .primary _ => { disk with primary := left }
  | .backup _ => { disk with backup := left }

/-- The metadata that a run works on, and whether that has to be stored because the primary copy
is bad. -/
def abLoad (disk : AbDisk) : BootloaderControl × Bool :=
  if disk.primary.crcOk then (disk.primary, false)
  else if disk.backup.crcOk then (disk.backup, true)
  else (abControlDefault disk.primary, true)

/-- `ab_select_slot()` after both copies were read: the return value, and what it writes. -/
def abSelectSlot (decTries : Bool) (disk : AbDisk) : Int × List AbWrite :=
  let (abc, loaded) := abLoad disk
  if abc.magic ≠ bootCtrlMagic then (-enodata, [])
  else if abc.version > bootCtrlVersion then (-enodata, [])
  else
    let (abc, changed, slot) := abUpdate decTries abc
    let storeNeeded := loaded || changed
    let abc := if storeNeeded then { abc with crc32Le := abControlComputeCrc abc } else abc
    let ret : Int := match slot with
      | none => -einval
      | some slot => slot.val
    (ret, (if storeNeeded then [.primary abc] else []) ++
      (if disk.backup ≠ abc then [.backup abc] else []))

/-- A run of `ab_select_slot()`, which may be cut. -/
structure AbRun where
  decTries : Bool
  cut : Option (Cut DamagedControl)

def abRun (disk : AbDisk) (run : AbRun) : AbDisk :=
  let writes := (abSelectSlot run.decTries disk).2
  match run.cut with
  | none => runSteps AbWrite.apply disk writes
  | some cut => cutOperations AbWrite.apply AbWrite.tear cut.done cut.inside disk writes

/-- One of the copies is good, and so the next run does not start from defaults. -/
def HasGoodCopy (disk : AbDisk) : Prop :=
  (disk.primary.crcOk = true ∨ disk.backup.crcOk = true) ∧
    ((abLoad disk).1 = disk.primary ∨ (abLoad disk).1 = disk.backup)

/-! ### When a run stores the primary copy -/

/-- The metadata passes the checks on its magic number and version. -/
def BootloaderControl.Accepted (abc : BootloaderControl) : Prop :=
  abc.magic = bootCtrlMagic ∧ abc.version ≤ bootCtrlVersion

/-- A run has something to change in the metadata: too many slots, an attempt to count, or another
suffix. -/
def BootloaderControl.Outdated (abc : BootloaderControl) (decTries : Bool) : Prop :=
  abc.nbSlot > maxSlots ∨ ∃ slot, abBestSlot abc.limitSlots = some slot ∧
    ((abc.limitSlots.slotInfo[slot].successfulBoot = false ∧ decTries = true) ∨
      abc.limitSlots.slotSuffix ≠ suffixOf slot)

theorem abUpdate_changed_iff (decTries : Bool) (abc : BootloaderControl) :
    (abUpdate decTries abc).2.1 = true ↔ abc.Outdated decTries := by
  unfold abUpdate BootloaderControl.Outdated
  cases best : abBestSlot abc.limitSlots with
  | none => simp [best]
  | some slot => simp [best, or_assoc]

variable {decTries : Bool} {disk : AbDisk} {run : AbRun}

theorem abUpdate_of_unchanged {abc : BootloaderControl}
    (unchanged : (abUpdate decTries abc).2.1 = false) : (abUpdate decTries abc).1 = abc := by
  unfold abUpdate at unchanged ⊢
  have limited : ¬abc.nbSlot > maxSlots → abc.limitSlots = abc := fun few => if_neg few
  cases best : abBestSlot abc.limitSlots with
  | none =>
    simp only [best, decide_eq_false_iff_not] at unchanged ⊢
    exact limited unchanged
  | some slot =>
    simp only [best, Bool.or_eq_false_iff, decide_eq_false_iff_not, bne_eq_false_iff_eq]
      at unchanged ⊢
    obtain ⟨⟨few, uncounted⟩, sameSuffix⟩ := unchanged
    have counted : abc.limitSlots.countAttempt decTries slot = abc.limitSlots := by
      unfold BootloaderControl.countAttempt
      exact if_neg (by rw [uncounted]; exact Bool.false_ne_true)
    simp only [counted, ← sameSuffix]
    exact limited few

theorem crcOk_computed (abc : BootloaderControl) :
    { abc with crc32Le := abControlComputeCrc abc }.crcOk = true :=
  beq_self_eq_true _

/-- The metadata has to be stored. -/
def storeNeeded (decTries : Bool) (disk : AbDisk) : Bool :=
  (abLoad disk).2 || (abUpdate decTries (abLoad disk).1).2.1

/-- The metadata at the end of a run. -/
def storedControl (decTries : Bool) (disk : AbDisk) : BootloaderControl :=
  let abc := (abUpdate decTries (abLoad disk).1).1
  if storeNeeded decTries disk then { abc with crc32Le := abControlComputeCrc abc } else abc

theorem abSelectSlot_eq (decTries : Bool) (disk : AbDisk) :
    abSelectSlot decTries disk =
      if (abLoad disk).1.magic ≠ bootCtrlMagic then (-enodata, [])
      else if (abLoad disk).1.version > bootCtrlVersion then (-enodata, [])
      else
        ((match (abUpdate decTries (abLoad disk).1).2.2 with
          | none => -einval
          | some slot => (slot.val : Int)),
          (if storeNeeded decTries disk then [.primary (storedControl decTries disk)] else []) ++
            (if disk.backup ≠ storedControl decTries disk then
              [.backup (storedControl decTries disk)] else [])) := rfl

theorem abSelectSlot_of_rejected (rejected : ¬(abLoad disk).1.Accepted) :
    (abSelectSlot decTries disk).2 = [] := by
  rw [abSelectSlot_eq]
  by_cases magic : (abLoad disk).1.magic = bootCtrlMagic
  · have version : (abLoad disk).1.version > bootCtrlVersion :=
      BitVec.not_le.mp fun supported => rejected ⟨magic, supported⟩
    rw [if_neg (not_not.mpr magic), if_pos version]
  · rw [if_pos magic]

theorem abSelectSlot_of_accepted (accepted : (abLoad disk).1.Accepted) :
    (abSelectSlot decTries disk).2 =
      (if storeNeeded decTries disk then [.primary (storedControl decTries disk)] else []) ++
        (if disk.backup ≠ storedControl decTries disk then
          [.backup (storedControl decTries disk)] else []) := by
  rw [abSelectSlot_eq, if_neg (not_not.mpr accepted.1), if_neg (BitVec.not_lt.mpr accepted.2)]

theorem storedControl_of_not_needed (spared : storeNeeded decTries disk = false) :
    disk.primary.crcOk = true ∧ storedControl decTries disk = disk.primary := by
  obtain ⟨notLoaded, unchanged⟩ := Bool.or_eq_false_iff.mp spared
  have good : disk.primary.crcOk = true := by
    by_contra bad
    unfold abLoad at notLoaded
    rw [if_neg bad] at notLoaded
    split_ifs at notLoaded
  have loaded : abLoad disk = (disk.primary, false) := if_pos good
  refine ⟨good, ?_⟩
  unfold storedControl
  rw [spared]
  exact (abUpdate_of_unchanged unchanged).trans (congrArg Prod.fst loaded)

theorem crcOk_storedControl (decTries : Bool) (disk : AbDisk) :
    (storedControl decTries disk).crcOk = true := by
  cases needed : storeNeeded decTries disk with
  | false =>
    obtain ⟨good, same⟩ := storedControl_of_not_needed needed
    rw [same]
    exact good
  | true =>
    unfold storedControl
    rw [needed]
    exact crcOk_computed _

/-! ### Runs -/

theorem hasGoodCopy_iff (disk : AbDisk) :
    HasGoodCopy disk ↔ disk.primary.crcOk = true ∨ disk.backup.crcOk = true := by
  refine ⟨And.left, fun good => ⟨good, ?_⟩⟩
  unfold abLoad
  split_ifs with primary backup
  · exact .inl rfl
  · exact .inr rfl
  · exact absurd good (not_or.mpr ⟨primary, backup⟩)

/-- A run does not put the last good copy at risk: it is not cut inside its first write, or the
backup is good, or there is nothing to store in the primary copy. -/
def SparesLastCopy (disk : AbDisk) (run : AbRun) : Prop :=
  ∀ left, run.cut = some ⟨0, some left⟩ →
    disk.backup.crcOk = true ∨ ¬(disk.primary.Accepted ∧ disk.primary.Outdated run.decTries)

theorem backup_survives (good : disk.primary.crcOk = true) (abc : BootloaderControl)
    (differs : Prop) [Decidable differs] :
    Survives AbWrite.apply AbWrite.tear HasGoodCopy disk
      (if differs then [.backup abc] else []) := by
  have primaryGood : ∀ backup, HasGoodCopy { disk with backup } := fun backup =>
    (hasGoodCopy_iff _).mpr (.inl good)
  split_ifs
  · simp only [survives_cons, survives_nil, AbWrite.apply, AbWrite.tear]
    exact ⟨primaryGood disk.backup, fun left => primaryGood left, primaryGood abc⟩
  · exact survives_nil.mpr (primaryGood disk.backup)

theorem load_of_bad_backup (good : HasGoodCopy disk) (bad : ¬disk.backup.crcOk = true)
    (decTries : Bool) :
    abLoad disk = (disk.primary, false) ∧
      (storeNeeded decTries disk = true ↔ disk.primary.Outdated decTries) := by
  have primaryGood : disk.primary.crcOk = true :=
    ((hasGoodCopy_iff disk).mp good).resolve_right bad
  have loaded : abLoad disk = (disk.primary, false) := if_pos primaryGood
  refine ⟨loaded, ?_⟩
  rw [storeNeeded, loaded, Bool.false_or, abUpdate_changed_iff]

theorem sparesLastCopy_of_unstored (good : HasGoodCopy disk)
    (unstored : (abLoad disk).1.Accepted → storeNeeded run.decTries disk = false) :
    SparesLastCopy disk run := by
  intro left _
  refine or_iff_not_imp_left.mpr fun bad => ?_
  rintro ⟨accepted, outdated⟩
  obtain ⟨loaded, needed⟩ := load_of_bad_backup good bad run.decTries
  have notNeeded := unstored (by rw [loaded]; exact accepted)
  rw [needed.mpr outdated] at notNeeded
  contradiction

theorem abRun_of_survives
    (survives : Survives AbWrite.apply AbWrite.tear HasGoodCopy disk
      (abSelectSlot run.decTries disk).2) : HasGoodCopy (abRun disk run) := by
  unfold abRun
  cases run.cut with
  | none => exact survives.completed
  | some cut => exact survives cut

/-- A run that stores the primary copy leaves a good copy unless it is cut inside this write while
the backup is bad. -/
theorem abRun_of_stored {abc : BootloaderControl} {differs : Prop} [Decidable differs]
    (good : HasGoodCopy disk) (abcGood : abc.crcOk = true)
    (writes : (abSelectSlot run.decTries disk).2 =
      .primary abc :: if differs then [.backup abc] else []) :
    HasGoodCopy (abRun disk run) ↔
      ∀ left, run.cut = some ⟨0, some left⟩ → disk.backup.crcOk = true := by
  have later : Survives AbWrite.apply AbWrite.tear HasGoodCopy { disk with primary := abc }
      (if differs then [.backup abc] else []) := backup_survives abcGood abc differs
  unfold abRun
  rw [writes]
  match run.cut with
  | none => simpa [AbWrite.apply] using later.completed
  | some ⟨0, none⟩ => simpa [cutOperations] using good
  | some ⟨0, some left⟩ => simp [cutOperations, AbWrite.tear, hasGoodCopy_iff, left.2]
  | some ⟨done + 1, inside⟩ => simpa [cutOperations, AbWrite.apply] using later ⟨done, inside⟩

/-- The step lemma: a run leaves a good copy if and only if it did not put the last one at
risk. -/
theorem sparesLastCopy_iff (disk : AbDisk) (run : AbRun) (good : HasGoodCopy disk) :
    SparesLastCopy disk run ↔ HasGoodCopy (abRun disk run) := by
  by_cases accepted : (abLoad disk).1.Accepted
  · have writes : (abSelectSlot run.decTries disk).2 = _ := abSelectSlot_of_accepted accepted
    cases needed : storeNeeded run.decTries disk with
    | false =>
      obtain ⟨primaryGood, -⟩ := storedControl_of_not_needed needed
      rw [needed] at writes
      refine iff_of_true (sparesLastCopy_of_unstored good fun _ => needed) (abRun_of_survives ?_)
      rw [writes]
      exact backup_survives primaryGood _ _
    | true =>
      rw [needed, if_pos rfl, List.singleton_append] at writes
      rw [abRun_of_stored good (crcOk_storedControl run.decTries disk) writes]
      refine forall₂_congr fun left _ => or_iff_left_of_imp fun unchanged => ?_
      -- a bad backup would make the run work on the primary copy, and find it outdated
      by_contra bad
      obtain ⟨loaded, outdated⟩ := load_of_bad_backup good bad run.decTries
      rw [loaded] at accepted
      exact unchanged ⟨accepted, outdated.mp needed⟩
  · refine iff_of_true (sparesLastCopy_of_unstored good fun yes => absurd yes accepted)
      (abRun_of_survives ?_)
    rw [abSelectSlot_of_rejected accepted]
    exact survives_nil.mpr good

/-- Along a run of `ab_select_slot()` calls from two equal copies there is a good copy at every
moment, and so no call starts from defaults, if and only if no call is cut inside the write of the
primary copy while the backup is bad. -/
theorem hasGoodCopy_iff_sparesLastCopy (abc : BootloaderControl) (good : abc.crcOk = true)
    (runs : List AbRun) :
    Admissible SparesLastCopy abRun ⟨abc, abc⟩ runs ↔
      ∀ before, before <+: runs → HasGoodCopy (runSteps abRun ⟨abc, abc⟩ before) := by
  have start : HasGoodCopy ⟨abc, abc⟩ := (hasGoodCopy_iff _).mpr (.inl good)
  refine @admissible_iff_always _ _ SparesLastCopy abRun (fun _ => True) HasGoodCopy
    (fun _ _ background => background) ?_ _ trivial start runs
  exact fun disk run _ goodCopy => sparesLastCopy_iff disk run goodCopy

/-- Default metadata. -/
def freshControl : BootloaderControl :=
  abControlDefault
    { slotSuffix := Vector.replicate 4 0, magic := 0, version := 0, nbSlot := 0
      recoveryTriesRemaining := 0, spare := 0, reserved0 := 0
      slotInfo := Vector.replicate 4 ⟨0, 0, false, false, 0⟩, reserved1 := 0, crc32Le := 0 }

/-- The same with a bad checksum. -/
def spoiledControl : DamagedControl :=
  ⟨{ freshControl with crc32Le := freshControl.crc32Le + 1 }, by decide +kernel⟩

/-- A call that is cut while it writes the backup, and one that is not cut. -/
def repairedRuns : List AbRun :=
  [{ decTries := true, cut := some ⟨1, some spoiledControl⟩ }, { decTries := true, cut := none }]

theorem hasGoodCopy_iff_sparesLastCopy_repairedRuns :
    HasGoodCopy (runSteps abRun ⟨freshControl, freshControl⟩ repairedRuns) := by
  have admissible : Admissible SparesLastCopy abRun ⟨freshControl, freshControl⟩ repairedRuns :=
    ⟨(fun _ same => nomatch same), (fun _ same => nomatch same), trivial⟩
  exact (hasGoodCopy_iff_sparesLastCopy freshControl (by decide +kernel) repairedRuns).mp
    admissible repairedRuns (List.prefix_refl _)

/-- A call that is cut while it writes the backup, and one that is cut while it writes the primary
copy. -/
def cutTwice : List AbRun :=
  [{ decTries := true, cut := some ⟨1, some spoiledControl⟩ },
    { decTries := true, cut := some ⟨0, some spoiledControl⟩ }]

/-- Two power failures in a row lose both copies, and the next call starts from defaults. -/
theorem cutTwice_loses_copies :
    freshControl.crcOk = true ∧
      let disk := runSteps abRun ⟨freshControl, freshControl⟩ cutTwice
      disk.primary.crcOk = false ∧ disk.backup.crcOk = false ∧
        abLoad disk = (abControlDefault disk.primary, true) := by
  decide +kernel

end TachyonBoot.AndroidAb
