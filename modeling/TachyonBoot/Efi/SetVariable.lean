/-
This file models `efi_set_variable_int()` of `lib/efi_loader/efi_variable.c` and
the secure-boot state of `lib/efi_loader/efi_var_common.c`.

A call checks its arguments and the attributes of the stored variable, has an
authenticated payload checked, inserts the new entry, deletes the old one, and
after a change of the platform key rewrites the variables that show the
secure-boot state, which are calls of the same function. The recursion is given
a depth. What lies outside is a parameter: the configuration, the verdict of the
signature check, and which variables the signature check and the writing of the
variable file look up.
-/

import TachyonBoot.Efi.VarStore

namespace TachyonBoot.Efi

open Library

/-! ### Attributes, names and types -/

def efiVariableNonVolatile : UInt32 := 0x1

def efiVariableBootserviceAccess : UInt32 := 0x2

def efiVariableRuntimeAccess : UInt32 := 0x4

def efiVariableHardwareErrorRecord : UInt32 := 0x8

def efiVariableAuthenticatedWriteAccess : UInt32 := 0x10

def efiVariableTimeBasedAuthenticatedWriteAccess : UInt32 := 0x20

def efiVariableAppendWrite : UInt32 := 0x40

def efiVariableEnhancedAuthenticatedAccess : UInt32 := 0x80

def efiVariableMask : UInt32 :=
  efiVariableNonVolatile ||| efiVariableBootserviceAccess ||| efiVariableRuntimeAccess |||
    efiVariableHardwareErrorRecord ||| efiVariableAuthenticatedWriteAccess |||
    efiVariableTimeBasedAuthenticatedWriteAccess ||| efiVariableAppendWrite |||
    efiVariableEnhancedAuthenticatedAccess

def efiVariableReadOnly : UInt32 := 0x80000000

def efiGuid (a b c : Nat) (d : List UInt8) (size : d.length = 8) : EfiGuid :=
  ⟨littleEndian 4 a ++ littleEndian 2 b ++ littleEndian 2 c ++ d, by
    simp only [List.length_append, length_littleEndian, size]⟩

def efiGlobalVariableGuid : EfiGuid :=
  efiGuid 0x8be4df61 0x93ca 0x11d2 [0xaa, 0x0d, 0x00, 0xe0, 0x98, 0x03, 0x2b, 0x8c] rfl

/-- `EFI_IMAGE_SECURITY_DATABASE_GUID`. -/
def efiGuidImageSecurityDatabase : EfiGuid :=
  efiGuid 0xd719b2cb 0x3d3a 0x4596 [0xa3, 0xbc, 0xda, 0xd0, 0x0e, 0x67, 0x65, 0x6f] rfl

/-- The UTF-16 string of ASCII characters. -/
def u16String (text : List Char) (noNul : 0 ∉ text.map (·.toNat.toUInt16)) : U16String :=
  ⟨text.map (·.toNat.toUInt16), noNul⟩

def pkName : U16String := u16String ['P', 'K'] (by decide)

def dbName : U16String := u16String ['d', 'b'] (by decide)

def secureBootName : U16String :=
  u16String ['S', 'e', 'c', 'u', 'r', 'e', 'B', 'o', 'o', 't'] (by decide)

def setupModeName : U16String :=
  u16String ['S', 'e', 't', 'u', 'p', 'M', 'o', 'd', 'e'] (by decide)

def auditModeName : U16String :=
  u16String ['A', 'u', 'd', 'i', 't', 'M', 'o', 'd', 'e'] (by decide)

def deployedModeName : U16String :=
  u16String ['D', 'e', 'p', 'l', 'o', 'y', 'e', 'd', 'M', 'o', 'd', 'e'] (by decide)

def vendorKeysName : U16String :=
  u16String ['V', 'e', 'n', 'd', 'o', 'r', 'K', 'e', 'y', 's'] (by decide)

inductive EfiAuthVarType where
  | none
  | mode
  | pk
  | kek
  | db
  | dbx
  | dbt
  | dbr
deriving DecidableEq, Repr

/-- `var_type >= EFI_AUTH_VAR_PK`. -/
def EfiAuthVarType.atLeastPk : EfiAuthVarType → Bool
  | .none | .mode => false
  | .pk | .kek | .db | .dbx | .dbt | .dbr => true

/-- The table `name_type`. -/
def nameType : List ((U16String × EfiGuid) × EfiAuthVarType) :=
  [((pkName, efiGlobalVariableGuid), .pk),
    ((u16String ['K', 'E', 'K'] (by decide), efiGlobalVariableGuid), .kek),
    ((dbName, efiGuidImageSecurityDatabase), .db),
    ((u16String ['d', 'b', 'x'] (by decide), efiGuidImageSecurityDatabase), .dbx),
    ((u16String ['d', 'b', 't'] (by decide), efiGuidImageSecurityDatabase), .dbt),
    ((u16String ['d', 'b', 'r'] (by decide), efiGuidImageSecurityDatabase), .dbr),
    ((auditModeName, efiGlobalVariableGuid), .mode),
    ((deployedModeName, efiGlobalVariableGuid), .mode)]

def efiAuthVarGetType (name : U16String) (guid : EfiGuid) : EfiAuthVarType :=
  (nameType.lookup (name, guid)).getD .none

/-! ### The checks before a change -/

inductive EfiSecureMode where
  | setup
  | user
  | audit
  | deployed
deriving DecidableEq, Repr

/-- The store and the static variables `efi_secure_boot` and `efi_secure_mode`. -/
structure VarState where
  store : EfiVarStore
  efiSecureBoot : Bool
  efiSecureMode : EfiSecureMode

/-- A status that is an error. -/
structure EfiError where
  status : EfiStatus
  failed : status ≠ .success

/-- The outcome of `efi_variable_authenticate()`: an error, or how many bytes of the data the
header takes and the signed time; and the variables looked up on the way. -/
structure AuthResult where
  lookups : List (EfiGuid × U16String)
  outcome : Except EfiError (Nat × UInt64)

/-- The configuration and what lies outside. -/
structure VarPlatform where
  bufSize : VarBufSize
  /-- `CONFIG_EFI_SECURE_BOOT`. -/
  secureBoot : Bool
  /-- `CONFIG_EFI_VARIABLES_PRESEED`. -/
  preseed : Bool
  /-- `efi_variable_authenticate()` for the variables in the buffer, the value of
  `efi_secure_boot`, the name, the GUID, the data, the attributes and the time stored so far. -/
  authenticate : EfiVarFile → Bool → U16String → EfiGuid → List UInt8 → UInt32 → UInt64 → AuthResult
  /-- The variables that `efi_var_to_file()` looks up. -/
  fileLookups : EfiVarFile → List (EfiGuid × U16String)

/-- The data argument: a null pointer with a size, or a buffer. -/
inductive VarData where
  | null (size : Nat)
  | bytes (data : List UInt8)

/-- `data_size`. -/
def VarData.size : VarData → Nat
  | .null size => size
  | .bytes data => data.length

/-- What the data argument points to. -/
def VarData.contents : VarData → List UInt8
  | .null _ => []
  | .bytes data => data

/-- `!data`. -/
def VarData.isNull : VarData → Bool
  | .null _ => true
  | .bytes _ => false

/-- The arguments of `efi_set_variable_int()`. -/
structure SetArguments where
  variableName : Option U16String
  vendor : Option EfiGuid
  attributes : UInt32
  data : VarData
  roCheck : Bool

/-- The part of `setvariable_allowed()` that looks at the attributes. -/
def attributesAllowed (attributes : UInt32) : EfiStatus :=
  if attributes &&& (efiVariableAuthenticatedWriteAccess |||
      efiVariableEnhancedAuthenticatedAccess) ≠ 0 then .unsupported
  else if attributes &&& (efiVariableRuntimeAccess ||| efiVariableBootserviceAccess) =
      efiVariableRuntimeAccess then .invalidParameter
  else if attributes &&& efiVariableMask = efiVariableNonVolatile then .invalidParameter
  else if attributes &&& efiVariableHardwareErrorRecord ≠ 0 ∧
      (attributes &&& efiVariableNonVolatile = 0 ∨ attributes &&& efiVariableRuntimeAccess = 0 ∨
        attributes &&& efiVariableBootserviceAccess = 0) then .invalidParameter
  else .success

/-- `setvariable_allowed()`: the name and the vendor when they are there, or the status. -/
def setvariableAllowed (arguments : SetArguments) : Except EfiStatus (U16String × EfiGuid) :=
  match arguments.variableName, arguments.vendor with
  | some name, some guid =>
    if name.chars = [] then .error .invalidParameter
    else if arguments.data.size ≠ 0 ∧ arguments.data.isNull then .error .invalidParameter
    else
      match attributesAllowed arguments.attributes with
      | .success => .ok (name, guid)
      | status => .error status
  | _, _ => .error .invalidParameter

section SetVariable

variable (platform : VarPlatform)

/-- The checks of `efi_set_variable_int()` on a stored variable, with the status to return. -/
def checkStored (mem : Memory) (var : Nat) (varType : EfiAuthVarType) (delete : Bool)
    (attributes : UInt32) (roCheck : Bool) : Option EfiStatus :=
  if roCheck ∧ varAttr mem var &&& efiVariableReadOnly ≠ 0 then some .writeProtected
  else if platform.preseed ∧ varType.atLeastPk then some .writeProtected
  else if ¬ delete ∧
      ((roCheck ∧ varAttr mem var ≠ attributes &&& ~~~efiVariableAppendWrite) ∨
        (¬ roCheck ∧ varAttr mem var &&& ~~~efiVariableReadOnly ≠
          attributes &&& ~~~efiVariableReadOnly)) then some .invalidParameter
  else none

/-- The checks of `efi_set_variable_int()` when the variable is not stored. -/
def checkMissing (append delete : Bool) (dataSize : Nat) : Option EfiStatus :=
  if append ∧ dataSize = 0 then some .success
  else if delete then some .notFound
  else none

/-- `append` in `efi_set_variable_int()`. -/
def isAppend (attributes : UInt32) : Bool := attributes &&& efiVariableAppendWrite ≠ 0

/-- `delete` in `efi_set_variable_int()`, before the authentication. -/
def isDelete (attributes : UInt32) (dataSize : Nat) : Bool :=
  !isAppend attributes && (dataSize == 0 || attributes == 0)

/-- The attributes ask for an authenticated write. -/
def isTimeBased (attributes : UInt32) : Bool :=
  attributes &&& efiVariableTimeBasedAuthenticatedWriteAccess ≠ 0

/-- The data to store and its time, after the authentication of a write that asks for it. -/
def authenticatedPayload (buf : EfiVarFile) (efiSecureBoot : Bool) (name : U16String)
    (guid : EfiGuid) (attributes : UInt32) (data : List UInt8) (time : UInt64) :
    Except EfiStatus (List UInt8 × UInt64) :=
  if isTimeBased attributes then
    if platform.secureBoot then
      match (platform.authenticate buf efiSecureBoot name guid data attributes time).outcome with
      | .error error => .error error.status
      | .ok (header, time) => .ok (data.drop header, time)
    else .error .invalidParameter
  else .ok (data, time)

/-- The variables that the authentication looks up. -/
def authenticationLookups (buf : EfiVarFile) (efiSecureBoot : Bool) (name : U16String)
    (guid : EfiGuid) (attributes : UInt32) (data : List UInt8) (time : UInt64) :
    List (EfiGuid × U16String) :=
  if isTimeBased attributes ∧ platform.secureBoot then
    (platform.authenticate buf efiSecureBoot name guid data attributes time).lookups
  else []

/-- Lookups made one after the other. -/
def runLookups (bufSize : VarBufSize) : EfiVarStore → List (EfiGuid × U16String) →
    Except Fault EfiVarStore
  | store, [] => .ok store
  | store, (guid, name) :: rest =>
    match efiVarMemFind bufSize store guid name with
    | .error fault => .error fault
    | .ok found => runLookups bufSize found.store rest

/-- What `efi_set_variable_int()` has decided before it changes the store. -/
structure SetPlan where
  name : U16String
  guid : EfiGuid
  varType : EfiAuthVarType
  var : Option Nat
  delete : Bool
  data : List UInt8
  time : UInt64

/-- The authentication in `efi_set_variable_int()`, with the time stored so far. -/
def authenticateSet (state : VarState) (arguments : SetArguments) (name : U16String)
    (guid : EfiGuid) (var : Option Nat) (time : UInt64) :
    Except Fault (Except EfiStatus SetPlan × VarState) :=
  let attributes := arguments.attributes
  let data := arguments.data.contents
  let varType := efiAuthVarGetType name guid
  -- authentication is mandatory for these
  if varType.atLeastPk ∧ ¬ isTimeBased attributes then .ok (.error .invalidParameter, state)
  else
    match runLookups platform.bufSize state.store (authenticationLookups platform state.store.buf
      state.efiSecureBoot name guid attributes data time) with
    | .error fault => .error fault
    | .ok store =>
      match authenticatedPayload platform state.store.buf state.efiSecureBoot name guid attributes
        data time with
      | .error status => .ok (.error status, { state with store })
      | .ok (data, time) =>
        -- the last chance to check for a deletion
        let delete := isDelete attributes arguments.data.size ||
          isTimeBased attributes && data.isEmpty
        .ok (.ok ⟨name, guid, varType, var, delete, data, time⟩, { state with store })

/-- `efi_set_variable_int()` up to the point where it changes the store: the plan, or the status
that it returns. -/
def planSet (state : VarState) (arguments : SetArguments) :
    Except Fault (Except EfiStatus SetPlan × VarState) :=
  match setvariableAllowed arguments with
  | .error status => .ok (.error status, state)
  | .ok (name, guid) =>
    let attributes := arguments.attributes
    let delete := isDelete attributes arguments.data.size
    match efiVarMemFind platform.bufSize state.store guid name with
    | .error fault => .error fault
    | .ok ⟨some var, _, store⟩ =>
      match checkStored platform store.buf.bytes var (efiAuthVarGetType name guid) delete attributes
        arguments.roCheck with
      | some status => .ok (.error status, { state with store })
      | none => authenticateSet platform { state with store } arguments name guid (some var)
          (varTime store.buf.bytes var)
    | .ok ⟨none, _, store⟩ =>
      match checkMissing (isAppend attributes) delete arguments.data.size with
      | some status => .ok (.error status, { state with store })
      | none => authenticateSet platform { state with store } arguments name guid none 0

/-! ### The change -/

/-- The branches of `efi_set_variable_int()` that insert the new entry: the status, the attributes
of the variable that is written or deleted, and the store. -/
def insertPlanned (bufSize : VarBufSize) (store : EfiVarStore) (attributes : UInt32)
    (plan : SetPlan) : Except Fault ((EfiStatus × UInt32) × EfiVarStore) :=
  if plan.delete then
    match plan.var with
    | none => .error .nullDereference
    | some var => .ok ((.success, varAttr store.buf.bytes var), store)
  else
    match isAppend attributes, plan.var with
    | true, some var =>
      match varData store.buf.bytes bufSize var with
      | .error fault => .error fault
      | .ok oldData =>
        let old := store.buf.bytes.read oldData (varLength store.buf.bytes var).toNat
        let (status, store) := efiVarMemIns bufSize store plan.name plan.guid
          (attributes &&& ~~~efiVariableAppendWrite) old plan.data plan.time
        .ok ((status, attributes), store)
    | _, _ =>
      let (status, store) := efiVarMemIns bufSize store plan.name plan.guid attributes plan.data []
        plan.time
      .ok ((status, attributes), store)

/-- The change itself: the new entry is inserted, then the old one is deleted. -/
def changeStore (bufSize : VarBufSize) (store : EfiVarStore) (attributes : UInt32)
    (plan : SetPlan) : Except Fault ((EfiStatus × UInt32) × EfiVarStore) :=
  match insertPlanned bufSize store attributes plan with
  | .error fault => .error fault
  | .ok ((.success, attributes), store) =>
    (efiVarMemDel bufSize store plan.var).map fun store => ((.success, attributes), store)
  | .ok (failed, store) => .ok (failed, store)

/-- What follows a change: the secure-boot state after a change of the platform key, whose status
is overwritten, and the variable file. -/
def finishSet (initSecureState : VarState → Except Fault (EfiStatus × VarState))
    (state : VarState) (varType : EfiAuthVarType) (attributes : UInt32) :
    Except Fault (EfiStatus × VarState) :=
  match (if varType = .pk then (initSecureState state).map Prod.snd else .ok state) with
  | .error fault => .error fault
  | .ok state =>
    (runLookups platform.bufSize state.store
      (if attributes &&& efiVariableNonVolatile ≠ 0 then platform.fileLookups state.store.buf
        else [])).map fun store => (.success, { state with store })

/-- `efi_set_variable_int()`, with what it calls after a change of the platform key. -/
def setVariable (initSecureState : VarState → Except Fault (EfiStatus × VarState))
    (state : VarState) (arguments : SetArguments) : Except Fault (EfiStatus × VarState) :=
  match planSet platform state arguments with
  | .error fault => .error fault
  | .ok (.error status, state) => .ok (status, state)
  | .ok (.ok plan, state) =>
    match changeStore platform.bufSize state.store arguments.attributes plan with
    | .error fault => .error fault
    | .ok ((.success, attributes), store) =>
      finishSet platform initSecureState { state with store } plan.varType attributes
    | .ok ((status, _), store) => .ok (status, { state with store })

end SetVariable

/-! ### The secure-boot state -/

section SecureState

variable (platform : VarPlatform)
  (set : VarState → SetArguments → Except Fault (EfiStatus × VarState))

/-- The arguments with which the secure-boot state is written. -/
def stateArguments (name : U16String) (attributes : UInt32) (value : UInt8) : SetArguments :=
  ⟨some name, some efiGlobalVariableGuid, attributes, .bytes [value], false⟩

/-- Calls made one after the other until one fails. -/
def setAll : VarState → List SetArguments → Except Fault (EfiStatus × VarState)
  | state, [] => .ok (.success, state)
  | state, arguments :: rest =>
    match set state arguments with
    | .error fault => .error fault
    | .ok (.success, state) => setAll state rest
    | .ok (status, state) => .ok (status, state)

def efiSetSecureState (state : VarState) (secureBoot setupMode auditMode deployedMode : UInt8) :
    Except Fault (EfiStatus × VarState) :=
  let attributesRw := efiVariableBootserviceAccess ||| efiVariableRuntimeAccess
  let attributesRo := attributesRw ||| efiVariableReadOnly
  setAll set { state with efiSecureBoot := secureBoot ≠ 0 }
    [stateArguments secureBootName attributesRo secureBoot,
      stateArguments setupModeName attributesRo setupMode,
      stateArguments auditModeName
        (if auditMode ≠ 0 ∨ setupMode ≠ 0 then attributesRo else attributesRw) auditMode,
      stateArguments deployedModeName
        (if auditMode ≠ 0 ∨ deployedMode ≠ 0 ∨ setupMode ≠ 0 then attributesRo else attributesRw)
        deployedMode]

/-- The arguments with which `efi_transfer_secure_state()` deletes the platform key. -/
def deletePkArguments : SetArguments :=
  ⟨some pkName, some efiGlobalVariableGuid,
    efiVariableBootserviceAccess ||| efiVariableRuntimeAccess, .null 0, false⟩

/-- The calls that `efi_transfer_secure_state()` makes for a mode. -/
def transferCalls (state : VarState) (mode : EfiSecureMode) : Except Fault (EfiStatus × VarState) :=
  match mode with
  | .deployed => efiSetSecureState set state 1 0 0 1
  | .audit =>
    match set state deletePkArguments with
    | .error fault => .error fault
    | .ok (.success, state) => efiSetSecureState set state 0 1 1 0
    | .ok (status, state) => .ok (status, state)
  | .user => efiSetSecureState set state 1 0 0 0
  | .setup => efiSetSecureState set state 0 1 0 0

def efiTransferSecureState (state : VarState) (mode : EfiSecureMode) :
    Except Fault (EfiStatus × VarState) :=
  match transferCalls set state mode with
  | .error fault => .error fault
  | .ok (.success, state) => .ok (.success, { state with efiSecureMode := mode })
  | .ok (status, state) => .ok (status, state)

/-- The byte that `efi_get_variable_int()` reads into a zeroed `u8`. -/
def GetResult.byte (result : GetResult) : UInt8 :=
  match result.contents with
  | .data [value] => value
  | _ => 0

/-- What `efi_init_secure_state()` reads from the variables: `deployed_mode`, `audit_mode` and
`setup_mode`. -/
def readModes (store : EfiVarStore) : Except Fault ((UInt8 × UInt8 × UInt8) × EfiVarStore) :=
  if platform.secureBoot then
    match efiGetVariableMem platform.bufSize store deployedModeName efiGlobalVariableGuid 1 true
      0 with
    | .error fault => .error fault
    | .ok (deployed, store) =>
      match efiGetVariableMem platform.bufSize store auditModeName efiGlobalVariableGuid 1 true
        0 with
      | .error fault => .error fault
      | .ok (audit, store) =>
        match efiGetVariableMem platform.bufSize store pkName efiGlobalVariableGuid 0 false 0 with
        | .error fault => .error fault
        | .ok (pk, store) =>
          if pk.status = .bufferTooSmall then .ok ((deployed.byte, 0, 0), store)
          else .ok ((0, audit.byte, 1), store)
  else .ok ((0, 0, 1), store)

def efiInitSecureState (state : VarState) : Except Fault (EfiStatus × VarState) :=
  match readModes platform state.store with
  | .error fault => .error fault
  | .ok ((deployedMode, auditMode, setupMode), store) =>
    let mode := if deployedMode ≠ 0 then EfiSecureMode.deployed
      else if auditMode ≠ 0 then .audit
      else if setupMode ≠ 0 then .setup
      else .user
    match efiTransferSecureState set { state with store } mode with
    | .error fault => .error fault
    | .ok (.success, state) =>
      -- no vendor keys are provided
      set state (stateArguments vendorKeysName
        (efiVariableBootserviceAccess ||| efiVariableRuntimeAccess ||| efiVariableReadOnly) 0)
    | .ok (status, state) => .ok (status, state)

end SecureState

/-- `efi_init_secure_state()`, with the given depth of recursion left. -/
def initSecureStateAt (platform : VarPlatform) :
    Nat → VarState → Except Fault (EfiStatus × VarState)
  | 0, _ => .error .recursionTooDeep
  | depth + 1, state =>
    efiInitSecureState platform (setVariable platform (initSecureStateAt platform depth)) state

def efiSetVariableInt (platform : VarPlatform) (depth : Nat) (state : VarState)
    (arguments : SetArguments) : Except Fault (EfiStatus × VarState) :=
  setVariable platform (initSecureStateAt platform depth) state arguments

end TachyonBoot.Efi
