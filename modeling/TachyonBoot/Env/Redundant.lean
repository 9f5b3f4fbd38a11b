/-
This file models the redundant environment: the choice between two stored copies
in `env_check_redund()` and `env_import_redund()`, the serial number of
`env_export()`, and the alternating writes of `env_mmc_save()`.

A device keeps the two copies and the variables that lead the next save. Saves
may fail, and a failed write leaves the copy it was meant for as it was or with a
bad checksum; a write cut by a power loss is a failed write followed by a reboot.
The file proves when a reboot loads what the last successful save stored: exactly
as long as every successful save gets a serial number that the comparison ranks
above the one of the copy it leaves alone, and no write damages the copy the
comparison selects.
-/

import TachyonBoot.Efi.VarStore
import TachyonBoot.Env.ExportImport
import TachyonBoot.Env.Refinement
import TachyonBoot.Library.Runs

namespace TachyonBoot.Env

open Library

open Efi (crc32)

/-! ### Data -/

inductive EnvValid where
  | invalid
  | valid
  | redund
deriving DecidableEq, Repr

/-- `env_t` with `CONFIG_SYS_REDUNDAND_ENVIRONMENT`. -/
structure EnvT where
  crc : UInt32
  flags : UInt8
  data : List UInt8
deriving DecidableEq, Repr

/-- The checksum of the copy is the one of its data. -/
def EnvT.crcOk (env : EnvT) : Bool := crc32 0 env.data == env.crc

/-- A copy with a bad checksum. -/
abbrev DamagedCopy := { env : EnvT // env.crcOk = false }

def eio : Int := 5

def enomsg : Int := 42

def hDefault : Nat := 1 <<< 10

def hExternal : Nat := 1 <<< 11

/-! ### Loading -/

/-- `env_check_redund()`: the return value, and `gd->env_valid` after it. -/
def envCheckRedund (buf1 : EnvT) (buf1ReadFail : Bool) (buf2 : EnvT) (buf2ReadFail : Bool)
    (envValid : EnvValid) : Int × EnvValid :=
  if buf1ReadFail && buf2ReadFail then (-eio, envValid)
  else
    let crc1Ok := !buf1ReadFail && buf1.crcOk
    let crc2Ok := !buf2ReadFail && buf2.crcOk
    if !crc1Ok && !crc2Ok then (-enomsg, .invalid)
    else if crc1Ok && !crc2Ok then (0, .valid)
    else if !crc1Ok && crc2Ok then (0, .redund)
    else if buf1.flags = 255 ∧ buf2.flags = 0 then (0, .redund)
    else if buf2.flags = 255 ∧ buf1.flags = 0 then (0, .valid)
    else if buf1.flags > buf2.flags then (0, .valid)
    else if buf2.flags > buf1.flags then (0, .redund)
    else (0, .valid)

/-- The variables that the next save reads: `gd->env_valid` and `env_flags`. -/
structure EnvGlobals where
  envValid : EnvValid
  envFlags : UInt8
deriving DecidableEq, Repr

section Loading

variable (charValue : UInt8 → UInt32) (policy : Policy) (defaultEnvironment : List UInt8)

/-- `env_set_default()`: the table afterwards. -/
def envSetDefault (htab : Option HTab) (flags : Nat) : Option HTab :=
  (himportR charValue policy htab defaultEnvironment 0 (flags ||| hDefault) false []).map Prod.snd

/-- `env_import()`: the return value and the table. -/
def envImport (htab : Option HTab) (ep : EnvT) (check : Bool) (flags : Nat) :
    Option (Int × HTab) :=
  if check && !ep.crcOk then
    (envSetDefault charValue policy defaultEnvironment htab 0).map fun htab => (-enomsg, htab)
  else
    match himportR charValue policy htab ep.data 0 flags false [] with
    | none => none
    | some (ret, htab) =>
      if ret ≠ 0 then some (0, htab)
      else
        (envSetDefault charValue policy defaultEnvironment (some htab) 0).map fun htab =>
          (-eio, htab)

/-- `env_import_redund()`: the variables, and the return value with the table. -/
def envImportRedund (htab : Option HTab) (buf1 : EnvT) (buf1ReadFail : Bool) (buf2 : EnvT)
    (buf2ReadFail : Bool) (flags : Nat) (gd : EnvGlobals) : EnvGlobals × Option (Int × HTab) :=
  let (ret, envValid) := envCheckRedund buf1 buf1ReadFail buf2 buf2ReadFail gd.envValid
  let gd := { gd with envValid }
  if ret = -eio ∨ ret = -enomsg then
    (gd, (envSetDefault charValue policy defaultEnvironment htab 0).map fun htab => (ret, htab))
  else
    let ep := if envValid = .valid then buf1 else buf2
    ({ gd with envFlags := ep.flags },
      envImport charValue policy defaultEnvironment htab ep false flags)

/-- `env_import_redund()` for two copies that could be read. -/
def envImportCopies (htab : Option HTab) (copies : Fin 2 → EnvT) (flags : Nat) (gd : EnvGlobals) :
    EnvGlobals × Option (Int × HTab) :=
  envImportRedund charValue policy defaultEnvironment htab (copies 0) false (copies 1) false flags
    gd

end Loading

/-! ### Saving -/

/-- `env_export()`: the copy to be written, unless the environment does not fit, and
`env_flags` after it. -/
def envExport (htab : HTab) (envSize : Nat) (envFlags : UInt8) : Option EnvT × UInt8 :=
  match hexportR htab 0 false (fun _ => true) envSize with
  | none => (none, envFlags)
  | some output =>
    let envFlags := envFlags + 1
    (some { crc := crc32 0 output.res, flags := envFlags, data := output.res }, envFlags)

/-- The stored copies together with the variables. -/
structure Device where
  copies : Fin 2 → EnvT
  gd : EnvGlobals

/-- What the storage does with a save: the device cannot be initialised, the write fails and
leaves the copy unchanged or damaged, or the copy is written. -/
inductive Storage where
  | missing
  | failed (left : Option DamagedCopy)
  | written
deriving DecidableEq

/-- The copy that `env_mmc_save()` writes. -/
def saveCopy (envValid : EnvValid) : Fin 2 := if envValid = .valid then 1 else 0

/-- `env_mmc_save()`: the return value, zero on success, and the device. -/
def envMmcSave (envSize : Nat) (htab : HTab) (storage : Storage) (device : Device) :
    Int × Device :=
  if storage = .missing then (1, device)
  else
    match envExport htab envSize device.gd.envFlags with
    | (none, envFlags) => (1, { device with gd := { device.gd with envFlags } })
    | (some envNew, envFlags) =>
      let copy := saveCopy device.gd.envValid
      match storage with
      | .written =>
        (0, { copies := Function.update device.copies copy envNew
              gd := { envValid := if device.gd.envValid = .redund then .valid else .redund
                      envFlags } })
      | .failed (some left) =>
        (1, { copies := Function.update device.copies copy left
              gd := { device.gd with envFlags } })
      | _ => (1, { device with gd := { device.gd with envFlags } })

abbrev otherCopy (copy : Fin 2) : Fin 2 := copy + 1

/-! ### Runs of saves and reboots -/

/-- One event in the life of a device. The table of a save is whatever the commands before it
made of it. -/
inductive EnvEvent where
  | save (htab : HTab) (storage : Storage)
  | reboot

/-- A device, and the last successful save: which copy it wrote, and what. -/
structure History where
  device : Device
  last : Option (Fin 2 × EnvT)

section Runs

variable (charValue : UInt8 → UInt32) (policy : Policy) (defaultEnvironment : List UInt8)
  (envSize : Nat)

/-- What a reboot loads: `env_init()` has set `gd->env_valid`, the static variables are zero, and
both copies can be read. -/
def envLoad (copies : Fin 2 → EnvT) : EnvGlobals × Option (Int × HTab) :=
  envImportRedund charValue policy defaultEnvironment none (copies 0) false (copies 1) false
    hExternal ⟨.valid, 0⟩

def envEvent (history : History) : EnvEvent → History
  | .reboot =>
    let copies := history.device.copies
    { history with
      device := { copies, gd := (envLoad charValue policy defaultEnvironment copies).1 } }
  | .save htab storage =>
    let copy := saveCopy history.device.gd.envValid
    let (ret, device) := envMmcSave envSize htab storage history.device
    { device, last := if ret = 0 then some (copy, device.copies copy) else history.last }

def firstBoot (copies : Fin 2 → EnvT) : History :=
  { device := { copies, gd := (envLoad charValue policy defaultEnvironment copies).1 }
    last := none }

/-- The value of `gd->env_valid` that stands for a copy. -/
def validOf (copy : Fin 2) : EnvValid := if copy = 0 then .valid else .redund

/-- A reboot finds the last successful save in the copy it wrote, and loads it. -/
def LoadsLastSave (history : History) : Prop :=
  ∀ copy env, history.last = some (copy, env) →
    history.device.copies copy = env ∧
    envLoad charValue policy defaultEnvironment history.device.copies =
      (⟨validOf copy, env.flags⟩,
        envImport charValue policy defaultEnvironment none env false hExternal)

end Runs

/-! ### The choice between the copies -/

/-- The copy that `env_check_redund()` chooses when both can be read. -/
def selected (copies : Fin 2 → EnvT) : EnvValid :=
  (envCheckRedund (copies 0) false (copies 1) false .valid).2

/-- The serial number `new` in the given copy is ranked above `old` in the other one. -/
def Outranks (copy : Fin 2) (new old : UInt8) : Prop :=
  (old < new ∧ ¬(old = 0 ∧ new = 255)) ∨ (old = 255 ∧ new = 0) ∨ (old = new ∧ copy = 0)

instance (copy : Fin 2) (new old : UInt8) : Decidable (Outranks copy new old) := by
  unfold Outranks
  infer_instance

/-- When both copies can be read, one of them is chosen unless both checksums are wrong. -/
theorem envCheckRedund_cases (buf1 buf2 : EnvT) (envValid : EnvValid) :
    (envCheckRedund buf1 false buf2 false envValid = (-enomsg, .invalid) ∧
        buf1.crcOk = false ∧ buf2.crcOk = false) ∨
      ∃ chosen, chosen ≠ .invalid ∧
        envCheckRedund buf1 false buf2 false envValid = (0, chosen) ∧
        (buf1.crcOk = true ∨ buf2.crcOk = true) := by
  unfold envCheckRedund
  cases buf1.crcOk with
  | false =>
    cases buf2.crcOk with
    | false => exact .inl ⟨rfl, rfl, rfl⟩
    | true => exact .inr ⟨.redund, nofun, rfl, .inr rfl⟩
  | true =>
    cases buf2.crcOk with
    | false => exact .inr ⟨.valid, nofun, rfl, .inl rfl⟩
    | true =>
      refine .inr ?_
      simp only [Bool.not_false, Bool.not_true, Bool.and_self, Bool.and_false, Bool.false_and,
        Bool.false_eq_true, if_false]
      -- the serial numbers decide
      split_ifs
      · exact ⟨.redund, nofun, rfl, .inl trivial⟩
      · exact ⟨.valid, nofun, rfl, .inl trivial⟩
      · exact ⟨.valid, nofun, rfl, .inl trivial⟩
      · exact ⟨.redund, nofun, rfl, .inl trivial⟩
      · exact ⟨.valid, nofun, rfl, .inl trivial⟩

theorem envCheckRedund_readable (copies : Fin 2 → EnvT) (envValid : EnvValid) :
    envCheckRedund (copies 0) false (copies 1) false envValid =
      (if selected copies = .invalid then -enomsg else 0, selected copies) := by
  have independent : envCheckRedund (copies 0) false (copies 1) false envValid =
      envCheckRedund (copies 0) false (copies 1) false .valid := rfl
  rw [independent, selected]
  rcases envCheckRedund_cases (copies 0) (copies 1) .valid with
    ⟨result, -, -⟩ | ⟨chosen, usable, result, -⟩
  · rw [result]
    rfl
  · rw [result, if_neg usable]

theorem validOf_ne_invalid (copy : Fin 2) : validOf copy ≠ .invalid := by
  unfold validOf
  split_ifs <;> simp

variable {copy : Fin 2} {copies : Fin 2 → EnvT} {htab : HTab}

theorem validOf_inj {other : Fin 2} : validOf copy = validOf other ↔ copy = other := by
  revert copy other
  decide

theorem validOf_succ_iff {envValid : EnvValid} (notInvalid : envValid ≠ .invalid) :
    envValid = validOf (copy + 1) ↔ envValid ≠ validOf copy := by
  revert copy
  cases envValid
  · exact absurd rfl notInvalid
  all_goals decide

theorem selected_eq (copies : Fin 2 → EnvT) (copy : Fin 2) :
    selected copies = validOf copy ↔
      (copies copy).crcOk ∧
        ((copies (copy + 1)).crcOk = false ∨
          Outranks copy (copies copy).flags (copies (copy + 1)).flags) := by
  unfold selected envCheckRedund validOf Outranks
  generalize copies = c
  obtain rfl | rfl : copy = 0 ∨ copy = 1 := by omega
  all_goals
    simp
    grind

theorem selected_eq_invalid (copies : Fin 2 → EnvT) :
    selected copies = .invalid ↔ ∀ copy, (copies copy).crcOk = false := by
  rw [Fin.forall_fin_two, selected]
  rcases envCheckRedund_cases (copies 0) (copies 1) .valid with
    ⟨result, damaged⟩ | ⟨chosen, usable, result, correct⟩
  · rw [result]
    exact iff_of_true rfl damaged
  · rw [result]
    refine iff_of_false usable fun damaged => ?_
    rcases correct with first | second
    · exact Bool.false_ne_true (damaged.1.symm.trans first)
    · exact Bool.false_ne_true (damaged.2.symm.trans second)

theorem selected_update_damaged (left : DamagedCopy) (spared : selected copies ≠ validOf copy) :
    selected (Function.update copies copy left) = selected copies := by
  have otherNe : copy + 1 ≠ copy := by omega
  by_cases invalid : selected copies = .invalid
  · rw [invalid, selected_eq_invalid]
    intro other
    by_cases same : other = copy
    · rw [same, Function.update_self]
      exact left.2
    · rw [Function.update_of_ne same]
      exact (selected_eq_invalid copies).mp invalid other
  · have other := (validOf_succ_iff invalid).mpr spared
    rw [other, selected_eq, Function.update_of_ne otherNe]
    have next : copy + 1 + 1 = copy := by omega
    rw [next, Function.update_self]
    exact ⟨((selected_eq copies (copy + 1)).mp other).1, .inl left.2⟩

section Loading

variable (charValue : UInt8 → UInt32) (policy : Policy) (defaultEnvironment : List UInt8)

theorem envLoad_envValid (copies : Fin 2 → EnvT) :
    (envLoad charValue policy defaultEnvironment copies).1.envValid = selected copies := by
  unfold envLoad envImportRedund
  rw [envCheckRedund_readable]
  dsimp only
  split_ifs <;> rfl

theorem envImportCopies_of_selected (chosen : selected copies = validOf copy) (htab : Option HTab)
    (flags : Nat) (gd : EnvGlobals) :
    envImportCopies charValue policy defaultEnvironment htab copies flags gd =
      (⟨validOf copy, (copies copy).flags⟩,
        envImport charValue policy defaultEnvironment htab (copies copy) false flags) := by
  have taken : (if validOf copy = .valid then copies 0 else copies 1) = copies copy := by
    obtain rfl | rfl : copy = 0 ∨ copy = 1 := by omega
    all_goals rfl
  unfold envImportCopies envImportRedund
  rw [envCheckRedund_readable, chosen, if_neg (validOf_ne_invalid copy)]
  simp only [taken]
  rfl

theorem envLoad_of_selected (chosen : selected copies = validOf copy) :
    envLoad charValue policy defaultEnvironment copies =
      (⟨validOf copy, (copies copy).flags⟩,
        envImport charValue policy defaultEnvironment none (copies copy) false hExternal) :=
  envImportCopies_of_selected charValue policy defaultEnvironment chosen none hExternal ⟨.valid, 0⟩

theorem loadsLastSave_iff {history : History} :
    LoadsLastSave charValue policy defaultEnvironment history ↔
      ∀ copy env, history.last = some (copy, env) →
        history.device.copies copy = env ∧ selected history.device.copies = validOf copy := by
  unfold LoadsLastSave
  refine forall₂_congr fun copy env => forall_congr' fun _ => and_congr_right fun stored => ?_
  constructor
  · intro loads
    rw [← envLoad_envValid charValue policy defaultEnvironment, loads]
  · intro chosen
    rw [envLoad_of_selected charValue policy defaultEnvironment chosen, stored]

end Loading

/-! ### What a save does -/

/-- The environment fits into a copy, so that `env_export()` succeeds. -/
def Fits (envSize : Nat) (htab : HTab) : Prop :=
  (hexportR htab 0 false (fun _ => true) envSize).isSome

instance (envSize : Nat) (htab : HTab) : Decidable (Fits envSize htab) := by
  unfold Fits
  infer_instance

theorem envExport_of_fits {envSize : Nat} (fits : Fits envSize htab) (envFlags : UInt8) :
    ∃ env, envExport htab envSize envFlags = (some env, envFlags + 1) ∧ env.crcOk = true ∧
      env.flags = envFlags + 1 := by
  obtain ⟨output, exported⟩ := Option.isSome_iff_exists.mp fits
  refine ⟨{ crc := crc32 0 output.res, flags := envFlags + 1, data := output.res }, ?_, ?_, rfl⟩
  · rw [envExport, exported]
  · exact beq_self_eq_true _

theorem envExport_of_not_fits {envSize : Nat} (fits : ¬Fits envSize htab) (envFlags : UInt8) :
    envExport htab envSize envFlags = (none, envFlags) := by
  have missing : hexportR htab 0 false (fun _ => true) envSize = none := by
    simpa [Fits] using fits
  rw [envExport, missing]

/-- What may go wrong with an event: a successful save whose serial number does not outrank the
one of a good other copy, and a write that damages the selected copy. -/
def Orderly (envSize : Nat) (history : History) : EnvEvent → Prop
  | .save htab .written =>
    Fits envSize htab →
      let copy := saveCopy history.device.gd.envValid
      let other := history.device.copies (copy + 1)
      other.crcOk = false ∨ Outranks copy (history.device.gd.envFlags + 1) other.flags
  | .save htab (.failed (some _)) =>
    Fits envSize htab →
      selected history.device.copies ≠ validOf (saveCopy history.device.gd.envValid)
  | _ => True

instance (envSize : Nat) (history : History) (event : EnvEvent) :
    Decidable (Orderly envSize history event) := by
  unfold Orderly
  split <;> infer_instance

/-- Until the first successful save the next one goes to a copy that is not selected. -/
def SparesSelected (history : History) : Prop :=
  history.last = none →
    selected history.device.copies ≠ validOf (saveCopy history.device.gd.envValid)

theorem validOf_saveCopy_ne (envValid : EnvValid) : envValid ≠ validOf (saveCopy envValid) := by
  cases envValid <;> decide

section Events

variable (charValue : UInt8 → UInt32) (policy : Policy) (defaultEnvironment : List UInt8)
  (envSize : Nat)

section

variable {envSize : Nat} (fits : Fits envSize htab)

include fits

theorem envMmcSave_written (device : Device) :
    ∃ env, env.crcOk = true ∧ env.flags = device.gd.envFlags + 1 ∧
      envMmcSave envSize htab .written device =
        (0, { copies := Function.update device.copies (saveCopy device.gd.envValid) env
              gd := { envValid := if device.gd.envValid = .redund then .valid else .redund
                      envFlags := device.gd.envFlags + 1 } }) := by
  obtain ⟨env, exported, good, serial⟩ := envExport_of_fits fits device.gd.envFlags
  exact ⟨env, good, serial, by simp [envMmcSave, exported]⟩

theorem envMmcSave_damaged (left : DamagedCopy) (device : Device) :
    envMmcSave envSize htab (.failed (some left)) device =
      (1, { copies := Function.update device.copies (saveCopy device.gd.envValid) left
            gd := { device.gd with envFlags := device.gd.envFlags + 1 } }) := by
  obtain ⟨env, exported, -⟩ := envExport_of_fits fits device.gd.envFlags
  simp [envMmcSave, exported]

/-- A write that fails and leaves the copy alone has still used up a serial number. -/
theorem envMmcSave_unchanged (device : Device) :
    envMmcSave envSize htab (.failed none) device =
      (1, { device with gd := { device.gd with envFlags := device.gd.envFlags + 1 } }) := by
  obtain ⟨env, exported, -⟩ := envExport_of_fits fits device.gd.envFlags
  simp [envMmcSave, exported]

end

theorem envMmcSave_of_not_fits {envSize : Nat} (fits : ¬Fits envSize htab) (storage : Storage)
    (device : Device) :
    envMmcSave envSize htab storage device = (1, device) := by
  have exported := envExport_of_not_fits fits device.gd.envFlags
  by_cases missing : storage = .missing <;> simp [envMmcSave, exported, missing]

/-- A save leaves the copies alone, or writes the inactive one and damages it or not. -/
theorem envMmcSave_cases (htab : HTab) (storage : Storage) (device : Device) :
    (∃ envFlags, envMmcSave envSize htab storage device =
        (1, { device with gd := { device.gd with envFlags } }) ∧
      ∀ last, Orderly envSize ⟨device, last⟩ (.save htab storage)) ∨
    (Fits envSize htab ∧ ∃ left, storage = .failed (some left)) ∨
    (Fits envSize htab ∧ storage = .written) := by
  by_cases fits : Fits envSize htab
  · rcases storage with _ | (_ | left) | _
    · exact .inl ⟨device.gd.envFlags, rfl, fun _ => trivial⟩
    · exact .inl ⟨device.gd.envFlags + 1, envMmcSave_unchanged fits device, fun _ => trivial⟩
    · exact .inr (.inl ⟨fits, left, rfl⟩)
    · exact .inr (.inr ⟨fits, rfl⟩)
  · refine .inl ⟨device.gd.envFlags, envMmcSave_of_not_fits fits storage device, ?_⟩
    intro last
    rcases storage with _ | (_ | left) | _
    · trivial
    · trivial
    · exact fun doesFit => absurd doesFit fits
    · exact fun doesFit => absurd doesFit fits

theorem sparesSelected_envEvent (history : History) (event : EnvEvent)
    (spares : SparesSelected history) :
    SparesSelected (envEvent charValue policy defaultEnvironment envSize history event) := by
  obtain ⟨device, last⟩ := history
  intro noSave
  cases event with
  | reboot =>
    show selected device.copies ≠
      validOf (saveCopy (envLoad charValue policy defaultEnvironment device.copies).1.envValid)
    rw [envLoad_envValid]
    exact validOf_saveCopy_ne _
  | save htab storage =>
    rcases envMmcSave_cases envSize htab storage device with
      ⟨envFlags, saved, _⟩ | ⟨fits, left, rfl⟩ | ⟨fits, rfl⟩
    · simp only [envEvent, saved] at noSave ⊢
      exact spares noSave
    · simp only [envEvent, envMmcSave_damaged fits] at noSave ⊢
      rw [selected_update_damaged left (spares noSave)]
      exact spares noSave
    · obtain ⟨env, -, -, saved⟩ := envMmcSave_written fits device
      simp [envEvent, saved] at noSave

/-- An event keeps the last successful save the one a reboot loads exactly when it is orderly. -/
theorem orderly_iff_loadsLastSave (history : History) (event : EnvEvent)
    (spares : SparesSelected history)
    (loads : LoadsLastSave charValue policy defaultEnvironment history) :
    Orderly envSize history event ↔
      LoadsLastSave charValue policy defaultEnvironment
        (envEvent charValue policy defaultEnvironment envSize history event) := by
  obtain ⟨device, last⟩ := history
  rw [loadsLastSave_iff] at loads ⊢
  cases event with
  | reboot => exact ⟨fun _ => loads, fun _ => trivial⟩
  | save htab storage =>
    rcases envMmcSave_cases envSize htab storage device with
      ⟨envFlags, saved, orderly⟩ | ⟨fits, left, rfl⟩ | ⟨fits, rfl⟩
    · simp only [envEvent, saved]
      exact ⟨fun _ => loads, fun _ => orderly last⟩
    · simp only [envEvent, envMmcSave_damaged fits, Orderly, fits, true_implies]
      constructor
      · intro spared copy env lastSave
        obtain ⟨stored, chosen⟩ := loads copy env lastSave
        refine ⟨?_, (selected_update_damaged left spared).trans chosen⟩
        have different : copy ≠ saveCopy device.gd.envValid := by
          rintro rfl
          exact spared chosen
        rw [Function.update_of_ne different]
        exact stored
      · intro kept
        cases last with
        | none => exact spares rfl
        | some lastSave =>
          -- a damaged copy is not selected, so it cannot be the one of the last save
          have chosen := (kept lastSave.1 lastSave.2 rfl).2
          have goodCopy := ((selected_eq _ _).mp chosen).1
          have before := (loads lastSave.1 lastSave.2 rfl).2
          show selected device.copies ≠ _
          intro same
          have sameCopy : lastSave.1 = saveCopy device.gd.envValid :=
            validOf_inj.mp (before.symm.trans same)
          rw [sameCopy, Function.update_self, left.2] at goodCopy
          exact Bool.false_ne_true goodCopy
    · obtain ⟨env, good, serial, saved⟩ := envMmcSave_written fits device
      have otherNe : saveCopy device.gd.envValid + 1 ≠ saveCopy device.gd.envValid := by omega
      have chosen_iff := selected_eq
        (Function.update device.copies (saveCopy device.gd.envValid) env)
        (saveCopy device.gd.envValid)
      rw [Function.update_self, Function.update_of_ne otherNe, serial] at chosen_iff
      simp only [envEvent, saved, Orderly, fits, true_implies]
      constructor
      · rintro outranks copy other ⟨⟩
        exact ⟨rfl, chosen_iff.mpr ⟨good, outranks⟩⟩
      · intro kept
        exact (chosen_iff.mp (kept _ _ rfl).2).2

theorem sparesSelected_firstBoot (copies : Fin 2 → EnvT) :
    SparesSelected (firstBoot charValue policy defaultEnvironment copies) := by
  intro _
  show selected copies ≠
    validOf (saveCopy (envLoad charValue policy defaultEnvironment copies).1.envValid)
  rw [envLoad_envValid]
  exact validOf_saveCopy_ne _

theorem loadsLastSave_firstBoot (copies : Fin 2 → EnvT) :
    LoadsLastSave charValue policy defaultEnvironment
      (firstBoot charValue policy defaultEnvironment copies) := by
  rintro copy env ⟨⟩

/-- Along every run of saves and reboots of a device with any stored copies, a reboot loads what
the last successful save stored exactly when all the events are orderly. -/
theorem loadsLastSave_iff_orderly (copies : Fin 2 → EnvT) (events : List EnvEvent) :
    (∀ before, before <+: events →
      LoadsLastSave charValue policy defaultEnvironment
        (runSteps (envEvent charValue policy defaultEnvironment envSize)
          (firstBoot charValue policy defaultEnvironment copies) before)) ↔
      Admissible (Orderly envSize) (envEvent charValue policy defaultEnvironment envSize)
        (firstBoot charValue policy defaultEnvironment copies) events := by
  exact (admissible_iff_always
    (sparesSelected_envEvent charValue policy defaultEnvironment envSize)
    (orderly_iff_loadsLastSave charValue policy defaultEnvironment envSize)
    (sparesSelected_firstBoot charValue policy defaultEnvironment copies)
    (loadsLastSave_firstBoot charValue policy defaultEnvironment copies) events).symm

end Events

/-! ### Saves that are lost -/

/-- An empty table. -/
def noVariables : HTab := { size := 5, filled := 0, table := fun _ => .free }

/-- A copy of an environment area of the given size with a bad checksum. -/
def blankCopy (envSize : Nat) : DamagedCopy :=
  ⟨{ crc := crc32 0 (List.replicate envSize 255) + 1, flags := 255
     data := List.replicate envSize 255 }, by
    simp [EnvT.crcOk]⟩

/-- A copy with the given serial number and a good checksum. -/
def goodCopy (envSize : Nat) (flags : UInt8) : EnvT :=
  { crc := crc32 0 (List.replicate envSize 0), flags, data := List.replicate envSize 0 }

theorem crcOk_goodCopy (envSize : Nat) (flags : UInt8) : (goodCopy envSize flags).crcOk = true :=
  beq_self_eq_true _

/-- A device without a good copy. -/
def blankDevice (envSize : Nat) : History :=
  firstBoot UInt8.toUInt32 allowAll [0] fun _ => blankCopy envSize

/-- A device whose active copy has the serial number 254. -/
def usedDevice (envSize : Nat) : History :=
  firstBoot UInt8.toUInt32 allowAll [0] ![goodCopy envSize 254, blankCopy envSize]

/-- A save that succeeds, and one whose write is cut. -/
def cutSecondSave (envSize : Nat) : List EnvEvent :=
  [.save noVariables .written, .save noVariables (.failed (some (blankCopy envSize)))]

/-- A save that fails without a trace, and one that succeeds. -/
def saveAfterFailure : List EnvEvent :=
  [.save noVariables (.failed none), .save noVariables .written]

theorem blankDevice_envValid (envSize : Nat) :
    (blankDevice envSize).device.gd.envValid = .invalid := by
  have noCopy : selected (fun _ => (blankCopy envSize).1) = .invalid :=
    (selected_eq_invalid _).mpr fun _ => (blankCopy envSize).2
  rw [← noCopy]
  exact envLoad_envValid UInt8.toUInt32 allowAll [0] _

theorem usedDevice_gd (envSize : Nat) : (usedDevice envSize).device.gd = ⟨.valid, 254⟩ := by
  have chosen : selected ![goodCopy envSize 254, (blankCopy envSize).1] = validOf 0 :=
    (selected_eq _ 0).mpr ⟨crcOk_goodCopy envSize 254, .inl (blankCopy envSize).2⟩
  exact congrArg Prod.fst (envLoad_of_selected UInt8.toUInt32 allowAll [0] chosen)

/-- The first save of a device without a good copy goes to the first copy, and so does the next
one. -/
theorem cutSecondSave_lost {envSize : Nat} (fits : Fits envSize noVariables) :
    ¬LoadsLastSave UInt8.toUInt32 allowAll [0]
      (runSteps (envEvent UInt8.toUInt32 allowAll [0] envSize) (blankDevice envSize)
        (cutSecondSave envSize)) := by
  obtain ⟨env, -, -, saved⟩ := envMmcSave_written fits (blankDevice envSize).device
  rw [blankDevice_envValid] at saved
  rw [loadsLastSave_iff]
  intro loads
  have damaged := ((selected_eq _ 0).mp (loads 0 env (by
    simp [cutSecondSave, runSteps, envEvent, saved, envMmcSave_damaged fits,
      blankDevice_envValid, saveCopy])).2).1
  simp [cutSecondSave, runSteps, envEvent, saved, envMmcSave_damaged fits, saveCopy,
    (blankCopy envSize).2] at damaged

/-- A failed save at the end of the serial numbers makes the next one wrap around, and the old
copy is ranked above the new one. -/
theorem saveAfterFailure_lost {envSize : Nat} (fits : Fits envSize noVariables) :
    ¬LoadsLastSave UInt8.toUInt32 allowAll [0]
      (runSteps (envEvent UInt8.toUInt32 allowAll [0] envSize) (usedDevice envSize)
        saveAfterFailure) := by
  have booted : (usedDevice envSize).device =
      { copies := ![goodCopy envSize 254, blankCopy envSize], gd := ⟨.valid, 254⟩ } := by
    rw [← usedDevice_gd envSize]
    rfl
  obtain ⟨env, -, serial, saved⟩ := envMmcSave_written fits
    { copies := ![goodCopy envSize 254, blankCopy envSize], gd := ⟨.valid, 255⟩ }
  rw [loadsLastSave_iff]
  intro loads
  have chosen := (selected_eq _ 1).mp (loads 1 env (by
    simp [saveAfterFailure, runSteps, envEvent, booted, envMmcSave_unchanged fits, saved,
      saveCopy])).2
  have wrapped : env.flags = 0 := serial.trans (show (255 : UInt8) + 1 = 0 by decide)
  simp [saveAfterFailure, runSteps, envEvent, booted, envMmcSave_unchanged fits, saved, saveCopy,
    wrapped, crcOk_goodCopy] at chosen
  have outranked : ¬Outranks 1 0 254 := by decide
  exact outranked chosen.2

/-- `ENV_SIZE` with the default `CONFIG_ENV_SIZE`. -/
def defaultEnvSize : Nat := 0x1f000 - 5

theorem noVariables_fits : Fits defaultEnvSize noVariables := by decide

theorem lastSave_not_loaded :
    ¬LoadsLastSave UInt8.toUInt32 allowAll [0]
        (runSteps (envEvent UInt8.toUInt32 allowAll [0] defaultEnvSize)
          (blankDevice defaultEnvSize) (cutSecondSave defaultEnvSize)) ∧
      ¬LoadsLastSave UInt8.toUInt32 allowAll [0]
        (runSteps (envEvent UInt8.toUInt32 allowAll [0] defaultEnvSize)
          (usedDevice defaultEnvSize) saveAfterFailure) :=
  ⟨cutSecondSave_lost noVariables_fits, saveAfterFailure_lost noVariables_fits⟩

end TachyonBoot.Env
