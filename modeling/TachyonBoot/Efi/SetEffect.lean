/-
This file proves what `efi_set_variable_int()` does to the map of variables.

A call is followed through its three parts. The plan leaves the buffer alone and
says which variable is meant, what is to be stored and whether it is deleted. The
change replaces the variable's entry in the map by what was planned, is refused
for lack of room, or dereferences a null pointer when it deletes a variable that
is not stored. What follows a change of the platform key rewrites the variables
of the secure-boot state and no others.
-/

import TachyonBoot.Efi.SetVariable
import TachyonBoot.Efi.VarRefinement

namespace TachyonBoot.Efi

open Library

/-! ### Lookups and the plan -/

variable {name : U16String} {guid : EfiGuid} {attributes : UInt32}

section Plan

variable {bufSize : VarBufSize} {store : EfiVarStore} {entries : List VarEntry}

theorem Stores.lookups (stores : Stores bufSize store entries)
    (keys : List (EfiGuid × U16String)) :
    ∃ after, runLookups bufSize store keys = .ok after ∧ after.buf = store.buf ∧
      Stores bufSize after entries := by
  induction keys generalizing store with
  | nil => exact ⟨store, rfl, rfl, stores⟩
  | cons key rest ih =>
    obtain ⟨guid, name⟩ := key
    rw [runLookups]
    rcases stores.find guid name with ⟨before, entry, after, split, _, result⟩ | ⟨_, _, result⟩
    · rw [result]
      exact ih (stores.remember split)
    · rw [result]
      exact ih stores

/-- The pointer is the place of the entry with the key, or null when there is none. -/
def PointsTo (entries : List VarEntry) (key : EfiGuid × U16String) (var : Option Nat) : Prop :=
  (∃ before entry after, entries = before ++ entry :: after ∧ entry.key = key ∧
    var = some (entriesEnd varFileSize before)) ∨
  ((∀ entry ∈ entries, entry.key ≠ key) ∧ var = none)

/-- The time of a stored value. -/
def timeOf : Option VarValue → UInt64
  | some value => value.time
  | none => 0

/-- What a plan says about the call it was made for. -/
structure Planned (platform : VarPlatform) (buf : EfiVarFile) (efiSecureBoot : Bool)
    (map : VarMap) (arguments : SetArguments) (plan : SetPlan) : Prop where
  name : arguments.variableName = some plan.name
  guid : arguments.vendor = some plan.guid
  named : plan.name.chars ≠ []
  varType : plan.varType = efiAuthVarGetType plan.name plan.guid
  authenticated : plan.varType.atLeastPk → isTimeBased arguments.attributes
  known : map (plan.guid, plan.name) = none →
    isDelete arguments.attributes arguments.data.size = false ∧ arguments.data.size ≠ 0
  payload : authenticatedPayload platform buf efiSecureBoot plan.name plan.guid
    arguments.attributes arguments.data.contents (timeOf (map (plan.guid, plan.name))) =
      .ok (plan.data, plan.time)
  delete : plan.delete = (isDelete arguments.attributes arguments.data.size ||
    isTimeBased arguments.attributes && plan.data.isEmpty)

/-- How the plan can end: with an error, with nothing to append to a missing variable, or with
a plan. -/
inductive PlanEnds (platform : VarPlatform) (buf : EfiVarFile) (efiSecureBoot : Bool)
    (entries : List VarEntry) (arguments : SetArguments) : Except EfiStatus SetPlan → Prop
  | refused {status : EfiStatus} (failed : status ≠ .success) :
    PlanEnds platform buf efiSecureBoot entries arguments (.error status)
  | ignored {name : U16String} {guid : EfiGuid} (nameGiven : arguments.variableName = some name)
    (guidGiven : arguments.vendor = some guid) (append : isAppend arguments.attributes = true)
    (nothing : arguments.data.size = 0) (missing : entriesMap entries (guid, name) = none) :
    PlanEnds platform buf efiSecureBoot entries arguments (.error .success)
  | planned {plan : SetPlan}
    (planned : Planned platform buf efiSecureBoot (entriesMap entries) arguments plan)
    (points : PointsTo entries (plan.guid, plan.name) plan.var) :
    PlanEnds platform buf efiSecureBoot entries arguments (.ok plan)

variable {arguments : SetArguments} {platform : VarPlatform}

theorem setvariableAllowed_ok (allowed : setvariableAllowed arguments = .ok (name, guid)) :
    arguments.variableName = some name ∧ arguments.vendor = some guid ∧ name.chars ≠ [] := by
  unfold setvariableAllowed at allowed
  split at allowed
  · rename_i givenName givenGuid nameGiven guidGiven
    split_ifs at allowed with empty
    split at allowed
    · injection allowed with same
      obtain ⟨rfl, rfl⟩ := Prod.mk.inj same
      exact ⟨nameGiven, guidGiven, empty⟩
    · cases allowed
  · cases allowed

theorem setvariableAllowed_error {status : EfiStatus}
    (refused : setvariableAllowed arguments = .error status) : status ≠ .success := by
  unfold setvariableAllowed at refused
  split at refused
  · split_ifs at refused
    · injection refused with same
      rw [← same]
      exact EfiStatus.noConfusion
    · injection refused with same
      rw [← same]
      exact EfiStatus.noConfusion
    · split at refused
      · cases refused
      · rename_i failed
        injection refused with same
        rw [← same]
        exact failed
  · injection refused with same
    rw [← same]
    exact EfiStatus.noConfusion

theorem checkStored_ne_success {mem : Memory} {var : Nat} {varType : EfiAuthVarType}
    {delete roCheck : Bool} :
    checkStored platform mem var varType delete attributes roCheck ≠ some .success := by
  unfold checkStored
  split_ifs <;> simp

theorem checkMissing_none {dataSize : Nat}
    (check : checkMissing (isAppend attributes) (isDelete attributes dataSize) dataSize = none) :
    isDelete attributes dataSize = false ∧ dataSize ≠ 0 := by
  rw [checkMissing] at check
  split_ifs at check with nothing delete
  refine ⟨Bool.eq_false_iff.mpr delete, ?_⟩
  rintro rfl
  cases append : isAppend attributes with
  | true => exact nothing ⟨append, rfl⟩
  | false =>
    refine delete ?_
    rw [isDelete, append]
    rfl

theorem authenticatedPayload_error {buf : EfiVarFile} {efiSecureBoot : Bool} {data : List UInt8}
    {time : UInt64} {status : EfiStatus}
    (refused : authenticatedPayload platform buf efiSecureBoot name guid attributes data time =
      .error status) : status ≠ .success := by
  unfold authenticatedPayload at refused
  split_ifs at refused
  · split at refused
    · rename_i error _
      injection refused with same
      rw [← same]
      exact error.failed
    · cases refused
  · injection refused with same
    rw [← same]
    exact EfiStatus.noConfusion

/-- The authentication ends with an error or a plan and leaves the buffer alone. -/
theorem authenticateSet_ends {state : VarState}
    (stores : Stores platform.bufSize state.store entries) {var : Option Nat}
    (nameGiven : arguments.variableName = some name) (guidGiven : arguments.vendor = some guid)
    (named : name.chars ≠ [])
    (known : entriesMap entries (guid, name) = none →
      isDelete arguments.attributes arguments.data.size = false ∧ arguments.data.size ≠ 0)
    (points : PointsTo entries (guid, name) var) :
    ∃ result after, authenticateSet platform state arguments name guid var
        (timeOf (entriesMap entries (guid, name))) = .ok (result, after) ∧
      after.store.buf = state.store.buf ∧ Stores platform.bufSize after.store entries ∧
      PlanEnds platform state.store.buf state.efiSecureBoot entries arguments result := by
  simp only [authenticateSet]
  generalize authenticationLookups platform state.store.buf state.efiSecureBoot name guid
    arguments.attributes arguments.data.contents (timeOf (entriesMap entries (guid, name))) = keys
  by_cases mandatory : (efiAuthVarGetType name guid).atLeastPk = true ∧
      ¬ isTimeBased arguments.attributes = true
  · exact ⟨_, _, if_pos mandatory, rfl, stores, .refused EfiStatus.noConfusion⟩
  obtain ⟨store, result, same, afterStores⟩ := stores.lookups keys
  rw [if_neg mandatory, result]
  cases payload : authenticatedPayload platform state.store.buf state.efiSecureBoot name guid
      arguments.attributes arguments.data.contents (timeOf (entriesMap entries (guid, name))) with
  | error status =>
    exact ⟨_, _, rfl, same, afterStores, .refused (authenticatedPayload_error payload)⟩
  | ok accepted =>
    obtain ⟨data, time⟩ := accepted
    refine ⟨_, _, rfl, same, afterStores, .planned ?_ points⟩
    exact ⟨nameGiven, guidGiven, named, rfl,
      fun atLeastPk => not_not.mp fun plain => mandatory ⟨atLeastPk, plain⟩, known, payload, rfl⟩

theorem planSet_ends {state : VarState} (stores : Stores platform.bufSize state.store entries)
    (distinct : (entries.map VarEntry.key).Nodup) (arguments : SetArguments) :
    ∃ result after, planSet platform state arguments = .ok (result, after) ∧
      after.store.buf = state.store.buf ∧ Stores platform.bufSize after.store entries ∧
      PlanEnds platform state.store.buf state.efiSecureBoot entries arguments result := by
  unfold planSet
  cases allowed : setvariableAllowed arguments with
  | error status =>
    exact ⟨_, _, rfl, rfl, stores, .refused (setvariableAllowed_error allowed)⟩
  | ok given =>
    obtain ⟨name, guid⟩ := given
    obtain ⟨nameGiven, guidGiven, named⟩ := setvariableAllowed_ok allowed
    rcases stores.find guid name with ⟨before, entry, after, split, key, found⟩ | ⟨absent, _, found⟩
    · have remembered := stores.remember split
      have value := entriesMap_split (split ▸ distinct)
      rw [← split, key] at value
      have time : varTime state.store.buf.bytes (entriesEnd varFileSize before) =
          timeOf (entriesMap entries (guid, name)) := by
        rw [value, (stores.entryAt split).varTime]
        rfl
      simp only [found, time]
      split
      · rename_i status check
        refine ⟨_, _, rfl, rfl, remembered, .refused fun success => ?_⟩
        exact checkStored_ne_success (success ▸ check)
      · exact @authenticateSet_ends name guid _ arguments platform { state with store := _ }
          remembered _ nameGiven guidGiven named
          (fun missing => by rw [value] at missing; cases missing)
          (.inl ⟨before, entry, _, split, key, rfl⟩)
    · have missing := entriesMap_eq_none.mpr absent
      simp only [found]
      split
      · rename_i status check
        by_cases success : status = .success
        · subst success
          rw [checkMissing] at check
          split_ifs at check with nothing
          · exact ⟨_, _, rfl, rfl, stores, .ignored nameGiven guidGiven nothing.1 nothing.2 missing⟩
          · cases check
        · exact ⟨_, _, rfl, rfl, stores, .refused success⟩
      · rename_i check
        have known := checkMissing_none check
        have time : (0 : UInt64) = timeOf (entriesMap entries (guid, name)) := by
          rw [missing]
          rfl
        rw [time]
        exact authenticateSet_ends stores nameGiven guidGiven named (fun _ => known)
          (.inr ⟨absent, rfl⟩)

end Plan

/-! ### The change -/

section Change

variable {bufSize : VarBufSize} {store : EfiVarStore} {entries : List VarEntry}

/-- What is stored for the variable after the change. -/
def SetPlan.newValue (plan : SetPlan) (attributes : UInt32) (old : Option VarValue) :
    Option VarValue :=
  if plan.delete then none
  else
    match isAppend attributes, old with
    | true, some value =>
      some ⟨attributes &&& ~~~efiVariableAppendWrite, plan.time, value.data ++ plan.data⟩
    | _, _ => some ⟨attributes, plan.time, plan.data⟩

variable {plan : SetPlan}

theorem SetPlan.newValue_delete (delete : plan.delete = true) (attributes : UInt32)
    (old : Option VarValue) : plan.newValue attributes old = none :=
  if_pos delete

/-- A write that does not append, or has nothing to append to, stores the data alone. -/
theorem SetPlan.newValue_plain (kept : plan.delete = false) {old : Option VarValue}
    (plain : isAppend attributes = false ∨ old = none) :
    plan.newValue attributes old = some ⟨attributes, plan.time, plan.data⟩ := by
  unfold newValue
  rw [kept, if_neg Bool.false_ne_true]
  rcases plain with plain | rfl
  · rw [plain]
  · cases isAppend attributes <;> rfl

theorem SetPlan.newValue_append (kept : plan.delete = false) (append : isAppend attributes = true)
    (value : VarValue) :
    plan.newValue attributes (some value) =
      some ⟨attributes &&& ~~~efiVariableAppendWrite, plan.time, value.data ++ plan.data⟩ := by
  unfold newValue
  rw [kept, if_neg Bool.false_ne_true, append]

theorem insertPlanned_plain (kept : plan.delete = false)
    (plain : isAppend attributes = false ∨ plan.var = none) :
    insertPlanned bufSize store attributes plan =
      .ok (((efiVarMemIns bufSize store plan.name plan.guid attributes plan.data [] plan.time).1,
        attributes),
        (efiVarMemIns bufSize store plan.name plan.guid attributes plan.data [] plan.time).2) := by
  unfold insertPlanned
  rw [kept, if_neg Bool.false_ne_true]
  rcases plain with plain | missing
  · rw [plain]
  · rw [missing]
    cases isAppend attributes <;> rfl

/-- The number of bytes that a call which appends copies from the old value. -/
def appendedSize (attributes : UInt32) (old : Option VarValue) : Nat :=
  if isAppend attributes then (old.map (·.data.length)).getD 0 else 0

/-- Deleting the old entry behind which a new one was inserted replaces the value. -/
theorem Stores.deleteOld {longer : EfiVarStore} {new : VarEntry} {key : EfiGuid × U16String}
    {var : Option Nat} (stores : Stores bufSize longer (entries ++ [new]))
    (distinct : (entries.map VarEntry.key).Nodup) (newKey : new.key = key)
    (points : PointsTo entries key var) :
    ∃ after, efiVarMemDel bufSize longer var = .ok after ∧
      Represents bufSize after
        (Function.update (entriesMap entries) key (some new.value)) := by
  subst newKey
  rcases points with ⟨before, entry, rest, rfl, same, rfl⟩ | ⟨absent, rfl⟩
  · have split : before ++ entry :: rest ++ [new] = before ++ entry :: (rest ++ [new]) := by
      rw [List.append_assoc, List.cons_append]
    obtain ⟨after, deleted, afterStores⟩ := stores.del split
    have others := other_keys_ne distinct
    rw [same] at others
    refine ⟨after, deleted, (before ++ rest) ++ [new], ?_, ?_, ?_⟩
    · rw [List.append_assoc]
      exact afterStores
    · exact distinct_concat (distinct_remove distinct) others
    · rw [entriesMap_concat others, entriesMap_remove distinct, same, Function.update_idem]
  · exact ⟨longer, rfl, entries ++ [new], stores, distinct_concat distinct absent,
      entriesMap_concat absent⟩

/-- How the change can end. -/
inductive ChangeEnds (bufSize : VarBufSize) (store : EfiVarStore) (map : VarMap)
    (attributes : UInt32) (plan : SetPlan) :
    Except Fault ((EfiStatus × UInt32) × EfiVarStore) → Prop
  | missing (delete : plan.delete = true) (absent : map (plan.guid, plan.name) = none) :
    ChangeEnds bufSize store map attributes plan (.error .nullDereference)
  | refused {status : EfiStatus} {attr : UInt32} (failed : status ≠ .success) :
    ChangeEnds bufSize store map attributes plan (.ok ((status, attr), store))
  | changed {attr : UInt32} {after : EfiVarStore}
    (stored : plan.delete = true → map (plan.guid, plan.name) ≠ none)
    (represents : Represents bufSize after (Function.update map (plan.guid, plan.name)
      (plan.newValue attributes (map (plan.guid, plan.name))))) :
    ChangeEnds bufSize store map attributes plan (.ok ((.success, attr), after))

theorem Stores.replace (stores : Stores bufSize store entries)
    (distinct : (entries.map VarEntry.key).Nodup) {attr : UInt32} {data1 data2 : List UInt8}
    (named : plan.name.chars ≠ []) (short : plan.name.chars.length + 1 < 2 ^ 32)
    (noWrap : insertEnd store plan.name data1 data2 < 2 ^ 64)
    (points : PointsTo entries (plan.guid, plan.name) plan.var) (kept : plan.delete = false)
    (value : plan.newValue attributes (entriesMap entries (plan.guid, plan.name)) =
      some ⟨attr, plan.time, data1 ++ data2⟩)
    (inserted : insertPlanned bufSize store attributes plan =
      .ok (((efiVarMemIns bufSize store plan.name plan.guid attr data1 data2 plan.time).1,
        attributes),
        (efiVarMemIns bufSize store plan.name plan.guid attr data1 data2 plan.time).2)) :
    ChangeEnds bufSize store (entriesMap entries) attributes plan
      (changeStore bufSize store attributes plan) := by
  rw [changeStore, inserted]
  rcases stores.ins named short noWrap plan.guid attr plan.time with
    ⟨_, refused⟩ | ⟨_, new, longer, newKey, newValue, result, _, longerStores⟩
  · rw [refused]
    exact .refused EfiStatus.noConfusion
  · rw [result]
    obtain ⟨after, deleted, represents⟩ := longerStores.deleteOld distinct newKey points
    simp only [deleted, Except.map]
    refine .changed (fun delete => ?_) ?_
    · rw [kept] at delete
      cases delete
    · rw [value, ← newValue]
      exact represents

/-- The change replaces the value, is refused, or deletes a variable that is not stored. -/
theorem changeStore_ends (stores : Stores bufSize store entries)
    (distinct : (entries.map VarEntry.key).Nodup) (attributes : UInt32)
    (named : plan.name.chars ≠ []) (short : plan.name.chars.length + 1 < 2 ^ 32)
    (noWrap : store.buf.length.toNat + varEntrySize + 2 * (plan.name.chars.length + 1) +
      appendedSize attributes (entriesMap entries (plan.guid, plan.name)) + plan.data.length <
        2 ^ 64) (points : PointsTo entries (plan.guid, plan.name) plan.var) :
    ChangeEnds bufSize store (entriesMap entries) attributes plan
      (changeStore bufSize store attributes plan) := by
  cases delete : plan.delete with
  | true =>
    rcases id points with ⟨before, entry, rest, split, same, var⟩ | ⟨absent, var⟩
    · obtain ⟨after, deleted, afterStores⟩ := stores.del split
      have inserted : insertPlanned bufSize store attributes plan = .ok ((.success,
          varAttr store.buf.bytes (entriesEnd varFileSize before)), store) := by
        simp only [insertPlanned, delete, if_true, var]
      rw [← var] at deleted
      simp only [changeStore, inserted, deleted, Except.map]
      subst split
      refine .changed (fun _ => ?_) ?_
      · rw [← same, entriesMap_split distinct]
        exact Option.some_ne_none _
      · rw [SetPlan.newValue_delete delete]
        refine ⟨before ++ rest, afterStores, distinct_remove distinct, ?_⟩
        rw [entriesMap_remove distinct, same]
    · have inserted : insertPlanned bufSize store attributes plan = .error .nullDereference := by
        simp only [insertPlanned, delete, if_true, var]
      rw [changeStore, inserted]
      exact .missing delete (entriesMap_eq_none.mpr absent)
  | false =>
    by_cases plain : isAppend attributes = false ∨ plan.var = none
    · have alone : insertEnd store plan.name plan.data [] < 2 ^ 64 := by
        rw [insertEnd, List.length_nil]
        omega
      refine stores.replace distinct named short alone points delete ?_
        (insertPlanned_plain delete plain)
      rw [List.append_nil]
      refine SetPlan.newValue_plain delete (plain.imp_right fun missing => ?_)
      rcases points with ⟨before, entry, rest, _, _, var⟩ | ⟨absent, _⟩
      · rw [missing] at var
        cases var
      · exact entriesMap_eq_none.mpr absent
    · obtain ⟨append, stored⟩ := not_or.mp plain
      rw [Bool.not_eq_false] at append
      rcases id points with ⟨before, entry, rest, rfl, same, var⟩ | ⟨_, var⟩
      · have held := stores.entryAt rfl
        have data := held.varData (stores.entry_inside rfl)
        have old := held.data.read
        rw [← held.varLength] at old
        have both : insertEnd store plan.name entry.data plan.data < 2 ^ 64 := by
          rw [appendedSize, if_pos append, ← same, entriesMap_split distinct] at noWrap
          exact noWrap
        have value := SetPlan.newValue_append delete append entry.value
        rw [← entriesMap_split distinct, same] at value
        refine stores.replace distinct named short both points delete value ?_
        simp only [insertPlanned, delete, Bool.false_eq_true, if_false, append, var, data, old]
      · exact absurd var stored

end Change

/-! ### The call as a whole -/

/-- The variables that show the secure-boot state. -/
def secureStateKeys : List (EfiGuid × U16String) :=
  [secureBootName, setupModeName, auditModeName, deployedModeName, vendorKeysName].map
    fun name => (efiGlobalVariableGuid, name)

section Call

variable {platform : VarPlatform} {state : VarState} {map : VarMap} {arguments : SetArguments}

theorem Represents.lookups {bufSize : VarBufSize} {store : EfiVarStore}
    (represents : Represents bufSize store map) (keys : List (EfiGuid × U16String)) :
    ∃ after, runLookups bufSize store keys = .ok after ∧ Represents bufSize after map := by
  obtain ⟨entries, stores, distinct, same⟩ := represents
  obtain ⟨after, result, _, afterStores⟩ := stores.lookups keys
  exact ⟨after, result, entries, afterStores, distinct, same⟩

/-- The calls return and change no variable but those of the secure-boot state. -/
def KeepsOthers (platform : VarPlatform) (map : VarMap)
    (result : Except Fault (EfiStatus × VarState)) : Prop :=
  ∃ status after afterMap, result = .ok (status, after) ∧
    Represents platform.bufSize after.store afterMap ∧
    ∀ key, key ∉ secureStateKeys → afterMap key = map key

/-- What follows a change succeeds, and changes other variables after a change of the platform key
only. -/
theorem finishSet_ends {initSecureState : VarState → Except Fault (EfiStatus × VarState)}
    (represents : Represents platform.bufSize state.store map) {varType : EfiAuthVarType}
    (keeps : varType = .pk → KeepsOthers platform map (initSecureState state))
    (attributes : UInt32) :
    ∃ after afterMap, finishSet platform initSecureState state varType attributes =
        .ok (.success, after) ∧
      Represents platform.bufSize after.store afterMap ∧
      ∀ key, (varType = .pk → key ∉ secureStateKeys) → afterMap key = map key := by
  unfold finishSet
  by_cases pk : varType = .pk
  · obtain ⟨status, middle, middleMap, result, middleRepresents, same⟩ := keeps pk
    simp only [if_pos pk, result, Except.map]
    generalize (if attributes &&& efiVariableNonVolatile ≠ 0 then
      platform.fileLookups middle.store.buf else []) = keys
    obtain ⟨store, written, afterRepresents⟩ := middleRepresents.lookups keys
    rw [written]
    exact ⟨_, _, rfl, afterRepresents, fun key outside => same key (outside pk)⟩
  · simp only [if_neg pk]
    generalize (if attributes &&& efiVariableNonVolatile ≠ 0 then
      platform.fileLookups state.store.buf else []) = keys
    obtain ⟨store, written, afterRepresents⟩ := represents.lookups keys
    rw [written]
    exact ⟨_, _, rfl, afterRepresents, fun _ _ => rfl⟩

/-- The sizes of a call do not wrap around: the length of the name in 32 bits, and in 64 bits the
place where its data would end in the buffer. -/
structure SetSizes (buf : EfiVarFile) (map : VarMap) (arguments : SetArguments) : Prop where
  short : ∀ name ∈ arguments.variableName, name.chars.length + 1 < 2 ^ 32
  noWrap : ∀ name ∈ arguments.variableName, ∀ guid ∈ arguments.vendor,
    buf.length.toNat + varEntrySize + 2 * (name.chars.length + 1) +
      appendedSize arguments.attributes (map (guid, name)) + arguments.data.size < 2 ^ 64

theorem authenticatedPayload_suffix {buf : EfiVarFile} {efiSecureBoot : Bool}
    {data payload : List UInt8} {time signed : UInt64}
    (accepted : authenticatedPayload platform buf efiSecureBoot name guid attributes data time =
      .ok (payload, signed)) : payload <:+ data := by
  unfold authenticatedPayload at accepted
  split_ifs at accepted
  · split at accepted
    · cases accepted
    · injection accepted with same
      obtain ⟨rfl, _⟩ := Prod.mk.inj same
      exact List.drop_suffix _ _
  · injection accepted with same
    obtain ⟨rfl, _⟩ := Prod.mk.inj same
    exact List.suffix_refl _

theorem VarData.length_contents (data : VarData) : data.contents.length ≤ data.size := by
  cases data with
  | null size => exact Nat.zero_le size
  | bytes data => exact le_rfl

/-- How a call can end: with an error that changes nothing, with nothing to append to a missing
variable, with the planned change, or with a null pointer that is dereferenced. -/
inductive SetEnds (platform : VarPlatform) (state : VarState) (map : VarMap)
    (arguments : SetArguments) : Except Fault (EfiStatus × VarState) → Prop
  | refused {status : EfiStatus} {after : VarState} (failed : status ≠ .success)
    (represents : Represents platform.bufSize after.store map) :
    SetEnds platform state map arguments (.ok (status, after))
  | ignored {name : U16String} {guid : EfiGuid} {after : VarState}
    (nameGiven : arguments.variableName = some name) (guidGiven : arguments.vendor = some guid)
    (append : isAppend arguments.attributes = true) (nothing : arguments.data.size = 0)
    (missing : map (guid, name) = none)
    (represents : Represents platform.bufSize after.store map) :
    SetEnds platform state map arguments (.ok (.success, after))
  | changed {plan : SetPlan} {after : VarState} {afterMap : VarMap}
    (planned : Planned platform state.store.buf state.efiSecureBoot map arguments plan)
    (stored : plan.delete = true → map (plan.guid, plan.name) ≠ none)
    (represents : Represents platform.bufSize after.store afterMap)
    (agrees : ∀ key, (plan.varType = .pk → key ∉ secureStateKeys) →
      afterMap key = Function.update map (plan.guid, plan.name)
        (plan.newValue arguments.attributes (map (plan.guid, plan.name))) key) :
    SetEnds platform state map arguments (.ok (.success, after))
  | missing {plan : SetPlan}
    (planned : Planned platform state.store.buf state.efiSecureBoot map arguments plan)
    (delete : plan.delete = true) (absent : map (plan.guid, plan.name) = none) :
    SetEnds platform state map arguments (.error .nullDereference)

theorem setVariable_ends {initSecureState : VarState → Except Fault (EfiStatus × VarState)}
    (represents : Represents platform.bufSize state.store map)
    (sizes : SetSizes state.store.buf map arguments)
    (keeps : ∀ name guid, arguments.variableName = some name → arguments.vendor = some guid →
      efiAuthVarGetType name guid = .pk → ∀ state map,
        Represents platform.bufSize state.store map →
          KeepsOthers platform map (initSecureState state)) :
    SetEnds platform state map arguments
      (setVariable platform initSecureState state arguments) := by
  obtain ⟨entries, stores, distinct, rfl⟩ := represents
  obtain ⟨result, middle, planning, same, middleStores, ends⟩ :=
    planSet_ends stores distinct arguments
  have middleRepresents : Represents platform.bufSize middle.store (entriesMap entries) :=
    ⟨entries, middleStores, distinct, rfl⟩
  simp only [setVariable, planning]
  cases ends with
  | refused failed => exact .refused failed middleRepresents
  | ignored nameGiven guidGiven append nothing missing =>
    exact .ignored nameGiven guidGiven append nothing missing middleRepresents
  | @planned plan planned points =>
    dsimp only
    have noWrap := sizes.noWrap plan.name planned.name plan.guid planned.guid
    have part := (authenticatedPayload_suffix planned.payload).length_le
    have whole := arguments.data.length_contents
    rw [← same] at noWrap
    have change := changeStore_ends middleStores distinct arguments.attributes planned.named
      (sizes.short plan.name planned.name) (by omega) points
    generalize changeStore platform.bufSize middle.store arguments.attributes plan = outcome
      at change ⊢
    cases change with
    | missing delete absent => exact .missing planned delete absent
    | @refused status attr failed =>
      cases status with
      | success => exact absurd rfl failed
      | _ => exact .refused nofun middleRepresents
    | @changed attr store stored changedRepresents =>
      obtain ⟨after, afterMap, finished, afterRepresents, agrees⟩ :=
        @finishSet_ends platform { middle with store } _ initSecureState changedRepresents
          plan.varType (fun pk => keeps plan.name plan.guid planned.name planned.guid
            (planned.varType ▸ pk) _ _ changedRepresents) attr
      dsimp only
      rw [finished]
      exact .changed planned stored afterRepresents agrees

end Call

end TachyonBoot.Efi
