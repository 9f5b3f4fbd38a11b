/-
This file models the redundant environment in SPI flash, `env_sf_save()` and
`env_sf_load()`, under power failures.

A save erases the copy that is not in use, writes the new environment there marked
active, restores the rest of the sector, and marks the other copy obsolete by
overwriting its flag byte. The power may fail between or inside these operations; a
copy that was being erased or written then has a bad checksum. The variables of a
running device agree with what a load would select, so that a save never touches the
copy in use, and from there it follows that every cut leaves a good copy and that the
next load takes the environment from before the save or the new one.
-/

import TachyonBoot.Env.Redundant
import TachyonBoot.Library.PowerLoss

namespace TachyonBoot.Env

open Library

/-! ### Flash operations -/

def envRedundObsolete : UInt8 := 0

def envRedundActive : UInt8 := 1

/-- One operation on the flash. What an erase leaves of a copy is not an environment. -/
inductive FlashOperation where
  | erase (copy : Fin 2) (erased : DamagedCopy)
  | write (copy : Fin 2) (env : EnvT)
  | writeRest
  | writeFlag (copy : Fin 2)

def FlashOperation.apply (copies : Fin 2 → EnvT) : FlashOperation → Fin 2 → EnvT
  | .erase copy erased => Function.update copies copy erased
  | .write copy env => Function.update copies copy env
  -- the rest of the sector belongs to neither copy
  | .writeRest => copies
  | .writeFlag copy =>
    Function.update copies copy { copies copy with flags := envRedundObsolete }

/-- A power failure inside the operation. A single byte is written or it is not. -/
def FlashOperation.tear (copies : Fin 2 → EnvT) (operation : FlashOperation)
    (left : DamagedCopy) : Fin 2 → EnvT :=
  match operation with
  | .erase copy _ | .write copy _ => Function.update copies copy left
  | .writeRest | .writeFlag _ => copies

/-! ### Saving and loading -/

/-- `CONFIG_ENV_SIZE`, and the size of a sector. -/
structure SfConfig where
  configEnvSize : Nat
  sectSize : Nat

/-- `ENV_SIZE`: the checksum and the flag byte come before the data. -/
def SfConfig.envSize (config : SfConfig) : Nat := config.configEnvSize - 5

/-- How the flash takes part in a save: the result of `setup_flash_device()`, that of saving the
rest of the sector, and what an erased copy reads as. -/
structure SfFlash where
  setup : Int
  remainder : Int
  erased : DamagedCopy

/-- The operations of a save, or the error it returns without any, and `env_flags`. -/
def envSfSaveOperations (config : SfConfig) (htab : HTab) (flash : SfFlash) (gd : EnvGlobals) :
    Except Int (List FlashOperation) × UInt8 :=
  if flash.setup ≠ 0 then (.error flash.setup, gd.envFlags)
  else
    match envExport htab config.envSize gd.envFlags with
    | (none, envFlags) => (.error (-eio), envFlags)
    | (some env, envFlags) =>
      let envNew := { env with flags := envRedundActive }
      let copy := saveCopy gd.envValid
      let embedded := config.sectSize > config.configEnvSize
      if embedded ∧ flash.remainder ≠ 0 then (.error flash.remainder, envFlags)
      else
        (.ok ([.erase copy flash.erased, .write copy envNew] ++
          (if embedded then [.writeRest] else []) ++ [.writeFlag (otherCopy copy)]), envFlags)

/-- `env_sf_save()`: the return value and the device. -/
def envSfSave (config : SfConfig) (htab : HTab) (flash : SfFlash) (device : Device) :
    Int × Device :=
  match envSfSaveOperations config htab flash device.gd with
  | (.error ret, envFlags) => (ret, { device with gd := { device.gd with envFlags } })
  | (.ok operations, envFlags) =>
    (0, { copies := runSteps FlashOperation.apply device.copies operations
          gd := { envValid := if device.gd.envValid = .redund then .valid else .redund
                  envFlags } })

/-- What a power failure during `env_sf_save()` leaves in the flash. -/
def envSfSaveCut (config : SfConfig) (htab : HTab) (flash : SfFlash) (device : Device)
    (cut : Cut DamagedCopy) : Fin 2 → EnvT :=
  match (envSfSaveOperations config htab flash device.gd).1 with
  | .error _ => device.copies
  | .ok operations =>
    cutOperations FlashOperation.apply FlashOperation.tear cut.done cut.inside device.copies
      operations

section Runs

variable (charValue : UInt8 → UInt32) (policy : Policy) (defaultEnvironment : List UInt8)

def envSfLoad (htab : Option HTab) (copies : Fin 2 → EnvT) (gd : EnvGlobals) :
    EnvGlobals × Option (Int × HTab) :=
  envImportCopies charValue policy defaultEnvironment htab copies hExternal gd

/-- The device after a reboot. -/
def sfBoot (copies : Fin 2 → EnvT) : Device :=
  { copies, gd := (envSfLoad charValue policy defaultEnvironment none copies ⟨.valid, 0⟩).1 }

/-- One event in the life of a device. A save that is cut is followed by a reboot. -/
inductive SfEvent where
  | save (htab : HTab) (flash : SfFlash)
  | cutSave (htab : HTab) (flash : SfFlash) (cut : Cut DamagedCopy)
  | load (htab : Option HTab)
  | reboot

def sfEvent (config : SfConfig) (device : Device) : SfEvent → Device
  | .save htab flash => (envSfSave config htab flash device).2
  | .cutSave htab flash cut =>
    sfBoot charValue policy defaultEnvironment (envSfSaveCut config htab flash device cut)
  | .load htab =>
    { device with
      gd := (envSfLoad charValue policy defaultEnvironment htab device.copies device.gd).1 }
  | .reboot => sfBoot charValue policy defaultEnvironment device.copies

end Runs

/-! ### The copy in use -/

/-- The variables agree with the choice of the next load, and there is a good copy. -/
def Settled (device : Device) : Prop :=
  ∃ copy, selected device.copies = validOf copy ∧ device.gd.envValid = validOf copy

theorem saveCopy_validOf (copy : Fin 2) : saveCopy (validOf copy) = copy + 1 := by
  revert copy
  decide

theorem toggled_validOf (copy : Fin 2) :
    (if validOf copy = .redund then EnvValid.valid else .redund) = validOf (copy + 1) := by
  revert copy
  decide

theorem exists_selected_iff (copies : Fin 2 → EnvT) :
    (∃ copy, selected copies = validOf copy) ↔ ∃ copy, (copies copy).crcOk = true := by
  constructor
  · rintro ⟨copy, chosen⟩
    exact ⟨copy, ((selected_eq copies copy).mp chosen).1⟩
  · rintro ⟨good, goodCrc⟩
    have notInvalid : selected copies ≠ .invalid := by
      intro invalid
      have bad := (selected_eq_invalid copies).mp invalid good
      rw [goodCrc] at bad
      contradiction
    cases chosen : selected copies with
    | invalid => exact absurd chosen notInvalid
    | valid => exact ⟨0, rfl⟩
    | redund => exact ⟨1, rfl⟩

variable {copies : Fin 2 → EnvT} {copy : Fin 2} {envNew : EnvT} {config : SfConfig}
  {device : Device}

section Loading

variable (charValue : UInt8 → UInt32) (policy : Policy) (defaultEnvironment : List UInt8)

theorem settled_load (good : ∃ copy, (copies copy).crcOk = true) (htab : Option HTab)
    (gd : EnvGlobals) :
    Settled ⟨copies, (envSfLoad charValue policy defaultEnvironment htab copies gd).1⟩ := by
  obtain ⟨copy, chosen⟩ := (exists_selected_iff copies).mpr good
  refine ⟨copy, chosen, ?_⟩
  rw [envSfLoad, envImportCopies_of_selected _ _ _ chosen]

/-- A copy whose checksum was found good is imported for its data alone. -/
theorem envImport_unchecked {env other : EnvT} (sameData : env.data = other.data)
    (htab : Option HTab) (flags : Nat) :
    envImport charValue policy defaultEnvironment htab env false flags =
      envImport charValue policy defaultEnvironment htab other false flags := by
  simp only [envImport, Bool.false_and, Bool.false_eq_true, if_false, sameData]

end Loading

/-! ### A save under power failures -/

/-- The flash has a good copy, and a load takes the given data or the new environment. -/
def Recovers (old new : List UInt8) (copies : Fin 2 → EnvT) : Prop :=
  ∃ copy, selected copies = validOf copy ∧
    ((copies copy).data = old ∨ (copies copy).data = new)

theorem recovers_damaged (chosen : selected copies = validOf copy) (left : DamagedCopy)
    (new : List UInt8) :
    Recovers (copies copy).data new (Function.update copies (copy + 1) left) := by
  have otherNe : copy ≠ copy + 1 := by omega
  refine ⟨copy, ?_, .inl (by rw [Function.update_of_ne otherNe])⟩
  rw [selected_update_damaged left, chosen]
  rw [chosen, Ne, validOf_inj]
  exact otherNe

theorem recovers_written (good : envNew.crcOk = true) :
    Recovers (copies copy).data envNew.data (Function.update copies (copy + 1) envNew) := by
  have otherNe : copy ≠ copy + 1 := by omega
  obtain ⟨taken, chosen⟩ := (exists_selected_iff (Function.update copies (copy + 1) envNew)).mpr
    ⟨copy + 1, by rw [Function.update_self]; exact good⟩
  refine ⟨taken, chosen, ?_⟩
  obtain rfl | rfl : taken = copy ∨ taken = copy + 1 := by omega
  · exact .inl (by rw [Function.update_of_ne otherNe])
  · exact .inr (by rw [Function.update_self])

/-- The copies after a whole save: the new environment is active, the old one obsolete. -/
def savedCopies (copies : Fin 2 → EnvT) (copy : Fin 2) (envNew : EnvT) : Fin 2 → EnvT :=
  Function.update (Function.update copies (otherCopy copy) envNew) copy
    { copies copy with flags := envRedundObsolete }

theorem selected_savedCopies (good : envNew.crcOk = true)
    (active : envNew.flags = envRedundActive) :
    selected (savedCopies copies copy envNew) = validOf (copy + 1) := by
  have otherNe : copy + 1 ≠ copy := by omega
  have next : copy + 1 + 1 = copy := by omega
  rw [selected_eq, next, savedCopies, Function.update_of_ne otherNe, Function.update_self,
    Function.update_self]
  refine ⟨good, .inr ?_⟩
  have outranks : Outranks (copy + 1) envRedundActive envRedundObsolete :=
    .inl ⟨by decide, by decide⟩
  rwa [active]

/-- What the operations of a save are, and what they are for. -/
theorem envSfSaveOperations_ok {htab : HTab} {flash : SfFlash} {gd : EnvGlobals}
    {operations : List FlashOperation} {envFlags : UInt8}
    (planned : envSfSaveOperations config htab flash gd = (.ok operations, envFlags)) :
    ∃ env, envExport htab config.envSize gd.envFlags = (some env, envFlags) ∧
      env.crcOk = true ∧
      operations = [.erase (saveCopy gd.envValid) flash.erased,
          .write (saveCopy gd.envValid) { env with flags := envRedundActive }] ++
        (if config.sectSize > config.configEnvSize then [.writeRest] else []) ++
        [.writeFlag (saveCopy gd.envValid + 1)] := by
  unfold envSfSaveOperations at planned
  split_ifs at planned with setup
  · cases planned
  by_cases fits : Fits config.envSize htab
  · obtain ⟨env, exported, good, -⟩ := envExport_of_fits fits gd.envFlags
    rw [exported] at planned ⊢
    dsimp only at planned
    by_cases unread : config.sectSize > config.configEnvSize ∧ flash.remainder ≠ 0
    · rw [if_pos unread] at planned
      cases planned
    · rw [if_neg unread] at planned
      obtain ⟨rfl, rfl⟩ := (Prod.mk.inj planned).imp_left Except.ok.inj
      exact ⟨env, rfl, good, rfl⟩
  · rw [envExport_of_not_fits fits] at planned
    cases planned

theorem save_completed (erased : DamagedCopy) (envNew : EnvT) (embedded : Prop)
    [Decidable embedded] :
    runSteps FlashOperation.apply copies ([.erase (copy + 1) erased, .write (copy + 1) envNew] ++
        (if embedded then [.writeRest] else []) ++ [.writeFlag (copy + 1 + 1)]) =
      savedCopies copies copy envNew := by
  have otherNe : copy ≠ copy + 1 := by omega
  have next : copy + 1 + 1 = copy := by omega
  split_ifs
  all_goals
    simp [runSteps, FlashOperation.apply, next, savedCopies]

/-- The step lemma: wherever the operations of a save are cut, the flash recovers. -/
theorem save_survives (chosen : selected copies = validOf copy) (erased : DamagedCopy)
    (good : envNew.crcOk = true) (active : envNew.flags = envRedundActive) (embedded : Prop)
    [Decidable embedded] :
    Survives FlashOperation.apply FlashOperation.tear (Recovers (copies copy).data envNew.data)
      copies ([.erase (copy + 1) erased, .write (copy + 1) envNew] ++
        (if embedded then [.writeRest] else []) ++ [.writeFlag (copy + 1 + 1)]) := by
  have otherNe : copy ≠ copy + 1 := by omega
  have next : copy + 1 + 1 = copy := by omega
  have untouched : Recovers (copies copy).data envNew.data copies := ⟨copy, chosen, .inl rfl⟩
  have damaged := fun left => recovers_damaged chosen left envNew.data
  have written : Recovers (copies copy).data envNew.data
      (Function.update copies (copy + 1) envNew) := recovers_written good
  have saved : Recovers (copies copy).data envNew.data (savedCopies copies copy envNew) := by
    refine ⟨copy + 1, selected_savedCopies good active, .inr ?_⟩
    rw [savedCopies, Function.update_of_ne otherNe.symm, Function.update_self]
  have savedEq : Function.update (Function.update copies (copy + 1) envNew) copy
      { copies copy with flags := envRedundObsolete } = savedCopies copies copy envNew := rfl
  split_ifs
  all_goals
    simp only [List.cons_append, List.nil_append, survives_cons, survives_nil,
      FlashOperation.apply, FlashOperation.tear, Function.update_idem, next,
      Function.update_of_ne otherNe, savedEq]
    exact ⟨untouched, damaged, damaged erased, damaged, by simp [written, saved]⟩

/-- A settled device that is saved to and runs out of power recovers. -/
theorem envSfSaveCut_recovers (chosen : selected device.copies = validOf copy)
    (current : device.gd.envValid = validOf copy) (htab : HTab) (flash : SfFlash)
    (cut : Cut DamagedCopy) :
    Recovers (device.copies copy).data (device.copies copy).data
        (envSfSaveCut config htab flash device cut) ∨
      ∃ env, (envExport htab config.envSize device.gd.envFlags).1 = some env ∧
        Recovers (device.copies copy).data env.data
          (envSfSaveCut config htab flash device cut) := by
  unfold envSfSaveCut
  cases planned : envSfSaveOperations config htab flash device.gd with
  | mk result envFlags =>
    cases result with
    | error ret => exact .inl ⟨copy, chosen, .inl rfl⟩
    | ok operations =>
      obtain ⟨env, exported, good, rfl⟩ := envSfSaveOperations_ok planned
      refine .inr ⟨env, by rw [exported], ?_⟩
      rw [current, saveCopy_validOf]
      have goodNew : { env with flags := envRedundActive }.crcOk = true := good
      exact save_survives chosen flash.erased goodNew rfl _ cut

theorem settled_envSfSave (settled : Settled device) (htab : HTab) (flash : SfFlash) :
    Settled (envSfSave config htab flash device).2 := by
  obtain ⟨copy, chosen, current⟩ := settled
  unfold envSfSave
  cases planned : envSfSaveOperations config htab flash device.gd with
  | mk result envFlags =>
    cases result with
    | error ret => exact ⟨copy, chosen, current⟩
    | ok operations =>
      obtain ⟨env, -, good, rfl⟩ := envSfSaveOperations_ok planned
      refine ⟨copy + 1, ?_, by rw [current]; exact toggled_validOf copy⟩
      dsimp only
      rw [current, saveCopy_validOf, save_completed]
      exact selected_savedCopies good rfl

section Runs

variable (charValue : UInt8 → UInt32) (policy : Policy) (defaultEnvironment : List UInt8)

theorem Recovers.good {old new : List UInt8} (recovers : Recovers old new copies) :
    ∃ copy, (copies copy).crcOk = true := by
  obtain ⟨copy, chosen, -⟩ := recovers
  exact (exists_selected_iff copies).mp ⟨copy, chosen⟩

theorem envSfSaveCut_good (settled : Settled device) (htab : HTab) (flash : SfFlash)
    (cut : Cut DamagedCopy) :
    ∃ copy, (envSfSaveCut config htab flash device cut copy).crcOk = true := by
  obtain ⟨copy, chosen, current⟩ := settled
  rcases envSfSaveCut_recovers chosen current htab flash cut with old | ⟨env, -, either⟩
  · exact old.good
  · exact either.good

theorem settled_sfEvent (config : SfConfig) (device : Device) (event : SfEvent)
    (settled : Settled device) :
    Settled (sfEvent charValue policy defaultEnvironment config device event) := by
  have good : ∃ copy, (device.copies copy).crcOk = true := by
    obtain ⟨copy, chosen, -⟩ := settled
    exact (exists_selected_iff device.copies).mp ⟨copy, chosen⟩
  cases event with
  | save htab flash => exact settled_envSfSave settled htab flash
  | cutSave htab flash cut =>
    exact settled_load _ _ _ (envSfSaveCut_good settled htab flash cut) none _
  | load htab => exact settled_load _ _ _ good htab _
  | reboot => exact settled_load _ _ _ good none _

/-- A load takes the copy whose data it is given, unless it takes the new one. -/
theorem Recovers.load {stopped : Fin 2 → EnvT} {new : EnvT}
    (chosen : selected copies = validOf copy)
    (recovers : Recovers (copies copy).data new.data stopped) (htab : Option HTab)
    (gd : EnvGlobals) :
    (envSfLoad charValue policy defaultEnvironment htab stopped gd).2 =
        (envSfLoad charValue policy defaultEnvironment htab copies gd).2 ∨
      (envSfLoad charValue policy defaultEnvironment htab stopped gd).2 =
        envImport charValue policy defaultEnvironment htab new false hExternal := by
  obtain ⟨taken, chosenNow, data⟩ := recovers
  unfold envSfLoad
  rw [envImportCopies_of_selected _ _ _ chosenNow, envImportCopies_of_selected _ _ _ chosen]
  exact data.imp (fun old => envImport_unchecked _ _ _ old _ _)
    (fun fresh => envImport_unchecked _ _ _ fresh _ _)

/-- Whatever saves, loads, reboots and power failures came before, a power failure during the next
save leaves a good copy, and the load after it gives the environment that a load before the save
would have given, or the one that was being saved. -/
theorem envSfSave_crashSafe (config : SfConfig) (copies : Fin 2 → EnvT)
    (good : ∃ copy, (copies copy).crcOk = true) (events : List SfEvent) (htab : HTab)
    (flash : SfFlash) (cut : Cut DamagedCopy) :
    let device := runSteps (sfEvent charValue policy defaultEnvironment config)
      (sfBoot charValue policy defaultEnvironment copies) events
    let stopped := envSfSaveCut config htab flash device cut
    (∃ copy, (device.copies copy).crcOk = true) ∧ (∃ copy, (stopped copy).crcOk = true) ∧
      ∀ (table : Option HTab) (gd : EnvGlobals),
        (envSfLoad charValue policy defaultEnvironment table stopped gd).2 =
            (envSfLoad charValue policy defaultEnvironment table device.copies gd).2 ∨
          ∃ env, (envExport htab config.envSize device.gd.envFlags).1 = some env ∧
            (envSfLoad charValue policy defaultEnvironment table stopped gd).2 =
              envImport charValue policy defaultEnvironment table env false hExternal := by
  intro device stopped
  have settled : Settled device :=
    runSteps_invariant (settled_sfEvent charValue policy defaultEnvironment config)
      (settled_load _ _ _ good none _) events
  have stoppedGood : ∃ copy, (stopped copy).crcOk = true :=
    envSfSaveCut_good settled htab flash cut
  obtain ⟨copy, chosen, current⟩ := settled
  refine ⟨(exists_selected_iff device.copies).mp ⟨copy, chosen⟩, stoppedGood, fun table gd => ?_⟩
  rcases envSfSaveCut_recovers chosen current htab flash cut with old | ⟨env, exported, either⟩
  · refine .inl ((old.load charValue policy defaultEnvironment chosen table gd).elim id ?_)
    intro taken
    rw [taken, envSfLoad, envImportCopies_of_selected _ _ _ chosen]
  · exact (either.load charValue policy defaultEnvironment chosen table gd).imp_right
      fun taken => ⟨env, exported, taken⟩

end Runs

/-- A flash whose sectors are larger than the environment. -/
def embeddedConfig : SfConfig := { configEnvSize := 16, sectSize := 64 }

/-- A flash that works, and whose erased copies read as ones. -/
def workingFlash : SfFlash := { setup := 0, remainder := 0, erased := blankCopy 11 }

/-- A device with one good copy, a power failure while its first save writes the new copy, a whole
save, and a power failure before the next one has marked the old copy. -/
theorem envSfSave_crashSafe_twoCuts :
    let device := runSteps (sfEvent UInt8.toUInt32 allowAll [0] embeddedConfig)
      (sfBoot UInt8.toUInt32 allowAll [0] ![goodCopy 11 1, blankCopy 11])
      [.cutSave noVariables workingFlash ⟨1, some (blankCopy 11)⟩, .save noVariables workingFlash]
    ∃ copy, (envSfSaveCut embeddedConfig noVariables workingFlash device ⟨3, none⟩ copy).crcOk =
      true :=
  (envSfSave_crashSafe UInt8.toUInt32 allowAll [0] embeddedConfig ![goodCopy 11 1, blankCopy 11]
    ⟨0, crcOk_goodCopy 11 1⟩
    [.cutSave noVariables workingFlash ⟨1, some (blankCopy 11)⟩, .save noVariables workingFlash]
    noVariables workingFlash ⟨3, none⟩).2.1

end TachyonBoot.Env
