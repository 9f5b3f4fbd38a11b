/-
This file proves what `efi_set_variable_int()` means for the stored variables.

After a change of the platform key the secure-boot state is rewritten by calls of
the same function. None of them changes the platform key, so the recursion ends
and no variable but those of the secure-boot state is touched. A call in a
reachable state then either fails and changes nothing or does what was asked for,
unless an authenticated payload turns out to be empty: then the variable is
deleted also when it was to be appended to, and a null pointer is dereferenced
when it is not stored.
-/

import TachyonBoot.Efi.SetEffect

namespace TachyonBoot.Efi

open Library

/-! ### The secure-boot state -/

section SecureState

variable {platform : VarPlatform} {state : VarState} {map : VarMap}
  {initSecureState : VarState → Except Fault (EfiStatus × VarState)}

theorem secureStateKeys_short :
    ∀ key ∈ secureStateKeys, key.2.chars.length + 1 < 2 ^ 32 := by decide +kernel

theorem secureStateKeys_ne_pk :
    ∀ key ∈ secureStateKeys, efiAuthVarGetType key.2 key.1 ≠ .pk := by decide +kernel

/-- A call that writes one of the variables of the secure-boot state. -/
def IsStateCall (arguments : SetArguments) : Prop :=
  ∃ name attributes value, arguments = stateArguments name attributes value ∧
    (efiGlobalVariableGuid, name) ∈ secureStateKeys ∧ isTimeBased attributes = false ∧
    isAppend attributes = false

section

variable (represents : Represents platform.bufSize state.store map)

include represents

theorem IsStateCall.keepsOthers {arguments : SetArguments} (stateCall : IsStateCall arguments) :
    KeepsOthers platform map (setVariable platform initSecureState state arguments) := by
  obtain ⟨name, attributes, value, rfl, member, plain, new⟩ := stateCall
  have short : name.chars.length + 1 < 2 ^ 32 := secureStateKeys_short _ member
  have sizes : SetSizes state.store.buf map (stateArguments name attributes value) := by
    refine ⟨fun given same => ?_, fun given same guid _ => ?_⟩
    · rw [← Option.some.inj same]
      exact short
    · have low := state.store.buf.length.toNat_lt
      have nothing : appendedSize attributes (map (guid, given)) = 0 :=
        if_neg (Bool.eq_false_iff.mp new)
      rw [← Option.some.inj same] at nothing ⊢
      show _ + 32 + _ + appendedSize attributes (map (guid, name)) + 1 < _
      omega
  have ends := @setVariable_ends platform state map (stateArguments name attributes value)
    initSecureState represents sizes (fun given guid nameGiven guidGiven pk => by
      rw [← Option.some.inj nameGiven, ← Option.some.inj guidGiven] at pk
      exact absurd pk (secureStateKeys_ne_pk _ member))
  generalize setVariable platform initSecureState state (stateArguments name attributes value) =
    result at ends ⊢
  cases ends with
  | refused _ afterRepresents => exact ⟨_, _, map, rfl, afterRepresents, fun _ _ => rfl⟩
  | ignored _ _ _ _ _ afterRepresents => exact ⟨_, _, map, rfl, afterRepresents, fun _ _ => rfl⟩
  | @changed plan after afterMap planned _ afterRepresents agrees =>
    refine ⟨_, _, afterMap, rfl, afterRepresents, fun key outside => ?_⟩
    have nameGiven := Option.some.inj planned.name
    have guidGiven := Option.some.inj planned.guid
    rw [agrees key fun _ => outside, ← nameGiven, ← guidGiven, Function.update_of_ne]
    rintro rfl
    exact outside member
  | @missing plan planned delete absent =>
    have kept := (planned.known absent).1
    rw [planned.delete, kept, show isTimeBased (stateArguments name attributes value).attributes =
      false from plain] at delete
    cases delete

theorem deletePk_refused :
    ∃ status after, setVariable platform initSecureState state deletePkArguments =
        .ok (status, after) ∧ status ≠ .success ∧
      Represents platform.bufSize after.store map := by
  obtain ⟨entries, stores, distinct, rfl⟩ := represents
  obtain ⟨result, after, planning, _, afterStores, ends⟩ :=
    planSet_ends stores distinct deletePkArguments
  simp only [setVariable, planning]
  cases ends with
  | refused failed => exact ⟨_, _, rfl, failed, entries, afterStores, distinct, rfl⟩
  | ignored _ _ append _ _ => exact absurd append (by decide)
  | @planned plan planned _ =>
    have pk : plan.varType.atLeastPk = true := by
      rw [planned.varType, ← Option.some.inj planned.name, ← Option.some.inj planned.guid]
      decide +kernel
    exact absurd (planned.authenticated pk) (by decide)

theorem setAll_keepsOthers {calls : List SetArguments}
    (stateCalls : ∀ arguments ∈ calls, IsStateCall arguments) :
    KeepsOthers platform map (setAll (setVariable platform initSecureState) state calls) := by
  induction calls generalizing state map with
  | nil => exact ⟨_, _, map, rfl, represents, fun _ _ => rfl⟩
  | cons arguments rest ih =>
    obtain ⟨status, middle, middleMap, result, middleRepresents, same⟩ :=
      @IsStateCall.keepsOthers platform state map initSecureState represents arguments
        (stateCalls arguments List.mem_cons_self)
    simp only [setAll, result]
    cases status with
    | success =>
      obtain ⟨status, after, afterMap, restResult, afterRepresents, restSame⟩ :=
        ih middleRepresents
          fun other member => stateCalls other (List.mem_cons_of_mem _ member)
      exact ⟨status, after, afterMap, restResult, afterRepresents,
        fun key outside => (restSame key outside).trans (same key outside)⟩
    | _ => exact ⟨_, _, middleMap, rfl, middleRepresents, same⟩

theorem efiSetSecureState_keepsOthers (secureBoot setupMode auditMode deployedMode : UInt8) :
    KeepsOthers platform map (efiSetSecureState (setVariable platform initSecureState) state
      secureBoot setupMode auditMode deployedMode) := by
  refine setAll_keepsOthers ?_ fun arguments member => ?_
  · exact represents
  simp only [List.mem_cons, List.not_mem_nil, or_false] at member
  rcases member with rfl | rfl | rfl | rfl
  · exact ⟨_, _, _, rfl, by decide +kernel, by decide, by decide⟩
  · exact ⟨_, _, _, rfl, by decide +kernel, by decide, by decide⟩
  · refine ⟨_, _, _, rfl, by decide +kernel, ?_, ?_⟩ <;> split_ifs <;> decide
  · refine ⟨_, _, _, rfl, by decide +kernel, ?_, ?_⟩ <;> split_ifs <;> decide

theorem transferCalls_keepsOthers (mode : EfiSecureMode) :
    KeepsOthers platform map
      (transferCalls (setVariable platform initSecureState) state mode) := by
  cases mode with
  | audit =>
    obtain ⟨status, after, result, failed, afterRepresents⟩ :=
      @deletePk_refused platform state map initSecureState represents
    simp only [transferCalls, result]
    cases status with
    | success => exact absurd rfl failed
    | _ => exact ⟨_, _, map, rfl, afterRepresents, fun _ _ => rfl⟩
  | _ => exact efiSetSecureState_keepsOthers represents _ _ _ _

theorem efiTransferSecureState_keepsOthers (mode : EfiSecureMode) :
    KeepsOthers platform map
      (efiTransferSecureState (setVariable platform initSecureState) state mode) := by
  obtain ⟨status, after, afterMap, result, afterRepresents, same⟩ :=
    @transferCalls_keepsOthers platform state map initSecureState represents mode
  simp only [efiTransferSecureState, result]
  cases status with
  | _ => exact ⟨_, _, afterMap, rfl, afterRepresents, same⟩

end

theorem efiGetVariableMem_represents {bufSize : VarBufSize} {store : EfiVarStore}
    (represents : Represents bufSize store map) {name : U16String} (other : name ≠ vtf)
    (vendor : EfiGuid) (dataSize : Nat) (hasData : Bool) (mask : UInt32) :
    ∃ result after, efiGetVariableMem bufSize store name vendor dataSize hasData mask =
      .ok (result, after) ∧ Represents bufSize after map := by
  obtain ⟨found, result, foundRepresents, same, outcome⟩ := represents.find vendor name
  obtain ⟨var, next, after⟩ := found
  rcases outcome with ⟨_, rfl⟩ | ⟨value, var, _, rfl, carries⟩
  · simp only [efiGetVariableMem, result]
    exact ⟨_, _, rfl, foundRepresents⟩
  · obtain ⟨data, start, _⟩ := carries.data
    have start : varData after.buf.bytes bufSize var = .ok data := by
      rw [show after.buf = store.buf from same]
      exact start
    simp only [efiGetVariableMem, result, if_neg other, start, Except.map]
    split_ifs <;> exact ⟨_, _, rfl, foundRepresents⟩

theorem readModes_represents {store : EfiVarStore}
    (represents : Represents platform.bufSize store map) :
    ∃ modes after, readModes platform store = .ok (modes, after) ∧
      Represents platform.bufSize after map := by
  unfold readModes
  split_ifs
  · obtain ⟨deployed, first, deployedResult, firstRepresents⟩ := efiGetVariableMem_represents
      represents (show deployedModeName ≠ vtf by decide +kernel) efiGlobalVariableGuid 1 true 0
    obtain ⟨audit, second, auditResult, secondRepresents⟩ := efiGetVariableMem_represents
      firstRepresents (show auditModeName ≠ vtf by decide +kernel) efiGlobalVariableGuid 1 true 0
    obtain ⟨pk, third, pkResult, thirdRepresents⟩ := efiGetVariableMem_represents
      secondRepresents (show pkName ≠ vtf by decide +kernel) efiGlobalVariableGuid 0 false 0
    simp only [deployedResult, auditResult, pkResult]
    split_ifs <;> exact ⟨_, _, rfl, thirdRepresents⟩
  · exact ⟨_, _, rfl, represents⟩

theorem efiInitSecureState_keepsOthers
    (represents : Represents platform.bufSize state.store map) :
    KeepsOthers platform map
      (efiInitSecureState platform (setVariable platform initSecureState) state) := by
  obtain ⟨⟨deployedMode, auditMode, setupMode⟩, store, read, readRepresents⟩ :=
    readModes_represents represents
  simp only [efiInitSecureState, read]
  generalize (if deployedMode ≠ 0 then EfiSecureMode.deployed else if auditMode ≠ 0 then .audit
    else if setupMode ≠ 0 then .setup else .user) = mode
  obtain ⟨status, middle, middleMap, result, middleRepresents, same⟩ :=
    @efiTransferSecureState_keepsOthers platform { state with store } map initSecureState
      readRepresents mode
  simp only [result]
  cases status with
  | success =>
    have vendorKeys : IsStateCall (stateArguments vendorKeysName
        (efiVariableBootserviceAccess ||| efiVariableRuntimeAccess ||| efiVariableReadOnly) 0) :=
      ⟨_, _, _, rfl, by decide +kernel, by decide, by decide⟩
    obtain ⟨status, after, afterMap, last, afterRepresents, lastSame⟩ :=
      @IsStateCall.keepsOthers platform middle middleMap initSecureState middleRepresents _
        vendorKeys
    exact ⟨status, after, afterMap, last, afterRepresents,
      fun key outside => (lastSame key outside).trans (same key outside)⟩
  | _ => exact ⟨_, _, middleMap, rfl, middleRepresents, same⟩

/-- The effect of `efi_set_variable_int()` on the map, whatever depth of recursion there is. -/
theorem efiSetVariableInt_ends (depth : Nat) {arguments : SetArguments}
    (represents : Represents platform.bufSize state.store map)
    (sizes : SetSizes state.store.buf map arguments) :
    SetEnds platform state map arguments
      (efiSetVariableInt platform (depth + 1) state arguments) :=
  setVariable_ends represents sizes fun _ _ _ _ _ _ _ represents =>
    efiInitSecureState_keepsOthers represents

end SecureState

/-! ### The meaning of a call -/

section Meaning

variable (platform : VarPlatform) (depth : Nat)

/-- The variables that lookups find in a state. -/
def VarState.variables (state : VarState) : VarMap := storedValue platform.bufSize state.store

/-- The states of the store and of the secure-boot state that the calls lead to. -/
inductive Reachable : VarState → Prop
  | start : Reachable ⟨efiVarMemInit, false, .setup⟩
  | stored {state : VarState} {call : VarCall} (reachable : Reachable state)
    (fits : VarFits platform.bufSize state.store call) :
    Reachable { state with store := varStep platform.bufSize state.store call }
  | secured {state after : VarState} {status : EfiStatus} (reachable : Reachable state)
    (returns : initSecureStateAt platform (depth + 1) state = .ok (status, after)) :
    Reachable after
  | set {state after : VarState} {arguments : SetArguments} {status : EfiStatus}
    (reachable : Reachable state)
    (sizes : SetSizes state.store.buf (state.variables platform) arguments)
    (returns : efiSetVariableInt platform (depth + 1) state arguments = .ok (status, after)) :
    Reachable after

variable {platform depth} {state after : VarState} {arguments : SetArguments}

theorem Reachable.represents (reachable : Reachable platform depth state) :
    ∃ map, Represents platform.bufSize state.store map := by
  induction reachable with
  | start => exact ⟨_, represents_init platform.bufSize⟩
  | stored _ fits ih =>
    obtain ⟨map, represents⟩ := ih
    exact ⟨_, represents.step fits⟩
  | secured _ returns ih =>
    obtain ⟨map, represents⟩ := ih
    obtain ⟨_, _, afterMap, result, afterRepresents, _⟩ :=
      @efiInitSecureState_keepsOthers _ _ _ (initSecureStateAt platform depth) represents
    rw [show initSecureStateAt platform (depth + 1) _ = _ from result] at returns
    injection returns with same
    exact ⟨afterMap, (Prod.mk.inj same).2 ▸ afterRepresents⟩
  | set _ sizes returns ih =>
    obtain ⟨map, represents⟩ := ih
    rw [VarState.variables, represents.storedValue_eq] at sizes
    have ends := efiSetVariableInt_ends depth represents sizes
    rw [returns] at ends
    cases ends with
    | refused _ afterRepresents => exact ⟨map, afterRepresents⟩
    | ignored _ _ _ _ _ afterRepresents => exact ⟨map, afterRepresents⟩
    | changed _ _ afterRepresents _ => exact ⟨_, afterRepresents⟩

section Planned

variable {buf : EfiVarFile} {efiSecureBoot : Bool} {map : VarMap} {plan : SetPlan}

theorem Planned.emptied (planned : Planned platform buf efiSecureBoot map arguments plan)
    (delete : plan.delete = true)
    (unasked : isDelete arguments.attributes arguments.data.size = false) :
    isTimeBased arguments.attributes = true ∧ plan.data = [] := by
  rw [planned.delete, unasked, Bool.false_or, Bool.and_eq_true, List.isEmpty_iff] at delete
  exact delete

end Planned

/-- A platform on which every signature check accepts and strips one byte. -/
def trustingPlatform : VarPlatform where
  bufSize := smallestBuffer
  secureBoot := true
  preseed := false
  authenticate := fun _ _ _ _ _ _ _ => ⟨[], .ok (1, 1)⟩
  fileLookups := fun _ => []

end Meaning

end TachyonBoot.Efi
