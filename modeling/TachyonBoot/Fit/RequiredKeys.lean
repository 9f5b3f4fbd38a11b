/-
This file models how required keys of the control device tree are enforced on a FIT, in
`boot/image-fit-sig.c` and the key search of `lib/rsa/rsa-verify.c`.

A key node of the control tree may be required for every image or for the configuration. For each
such node the signatures of the image or of the configuration are tried, one after the other. A
signature is checked with the key of a given node, or, when none is given, first with the node
that the FIT hints at and then with all others. Whether a key verifies a signature is left open.
For configurations the required node is given; for images it is not, so that any key of the
control tree will do.
-/

import Mathlib.Data.List.Basic

namespace TachyonBoot.Fit

open List

/-! ### Device trees -/

/-- The name of a node or the text of a property. -/
abbrev Name := List Char

/-- A key node below `/signature` of the control device tree. -/
structure KeyNode (Key : Type) where
  name : Name
  required : Option Name
  key : Key

/-- The node `/signature` of the control device tree. -/
structure SignatureKeys (Key : Type) where
  requiredMode : Option Name
  keys : List (KeyNode Key)

/-- A subnode of an image or configuration, with the properties of a signature. -/
structure FitNode where
  name : Name
  algo : Option Name
  padding : Option Name
  keyNameHint : Option Name
  value : Option (List UInt8)

/-- How a list of subnodes ends. -/
inductive FdtEnd
  | notFound
  | truncated
  | badStructure
deriving DecidableEq

/-- An image or a configuration of a FIT. -/
structure Component where
  name : Name
  subnodes : List FitNode
  ending : FdtEnd

/-- `FIT_SIG_NODENAME`. -/
def sigNodename : Name := ['s', 'i', 'g', 'n', 'a', 't', 'u', 'r', 'e']

/-- The subnode is a signature. -/
def FitNode.isSignature (node : FitNode) : Bool := sigNodename.isPrefixOf node.name

/-- The values of `required` and of `required-mode`. -/
def requiredImage : Name := ['i', 'm', 'a', 'g', 'e']

@[inherit_doc requiredImage] def requiredConf : Name := ['c', 'o', 'n', 'f']

@[inherit_doc requiredImage] def modeAny : Name := ['a', 'n', 'y']

/-- `RSA_DEFAULT_PADDING_NAME`. -/
def defaultPadding : Name := ['p', 'k', 'c', 's', '-', '1', '.', '5']

/-- `EPERM`, `EBADF` and `EINVAL`. -/
def eperm : Int := 1

@[inherit_doc eperm] def ebadf : Int := 9

@[inherit_doc eperm] def einval : Int := 22

/-! ### The search for a key -/

/-- What is left open: which algorithms there are, the hash of some regions, if it can be computed,
and whether a key verifies a signature of a hash. -/
structure Crypto (Key : Type) where
  known : Name → Bool
  hash : Name → List (List UInt8) → Option (List UInt8)
  withKeynode : Name → Name → List UInt8 → List UInt8 → Key → Int

/-- What is used of `struct image_sign_info`. -/
structure SignInfo where
  name : Name
  padding : Name
  keyname : Option Name
  requiredKeynode : Option Nat

/-- The name of the node for a hint, in a buffer of 100 bytes. -/
def keyNodeName (hint : Option Name) : Name :=
  (['k', 'e', 'y', '-'] ++ hint.getD ['<', 'N', 'U', 'L', 'L', '>']).take 99

/-- `fdt_nodename_eq_()`. -/
def nodenameEq (wanted name : Name) : Bool :=
  name == wanted ||
    (wanted.isPrefixOf name && !wanted.contains '@' &&
      (name.drop wanted.length).head? == some '@')

section Search

variable {Key : Type} (crypto : Crypto Key) (keys : List (KeyNode Key)) (info : SignInfo)
  (hash sig : List UInt8)

/-- `rsa_verify_with_keynode()`, where a node may be missing. -/
def verifyWithKeynode : Option (KeyNode Key) → Int
  | none => -ebadf
  | some node => crypto.withKeynode info.name info.padding hash sig node.key

/-- The loop over all keys but the one that was hinted at. -/
def tryOthers (hinted : Option Nat) : List (KeyNode Key × Nat) → Int → Int
  | [], ret => ret
  | (node, index) :: rest, ret =>
    if hinted = some index then tryOthers hinted rest ret
    else
      let ret := verifyWithKeynode crypto info hash sig (some node)
      if ret = 0 then ret else tryOthers hinted rest ret

def rsaVerifyHash : Int :=
  match info.requiredKeynode with
  | some index => verifyWithKeynode crypto info hash sig keys[index]?
  | none =>
    let hinted := keys.findIdx? fun node => nodenameEq (keyNodeName info.keyname) node.name
    let ret := verifyWithKeynode crypto info hash sig (hinted.bind fun index => keys[index]?)
    if ret = 0 then ret else tryOthers crypto info hash sig hinted keys.zipIdx ret

end Search

section Check

variable {Key : Type} (crypto : Crypto Key) (keys : List (KeyNode Key)) (sizeOk : Bool)

def rsaVerify (info : SignInfo) (regions : List (List UInt8)) (sig : List UInt8) : Int :=
  match crypto.hash info.name regions with
  | none => -einval
  | some hash => rsaVerifyHash crypto keys info hash sig

def fitImageSetupVerify (node : FitNode) (requiredKeynode : Option Nat) :
    Except String SignInfo :=
  if !sizeOk then .error "Total size too large"
  else
    match node.algo with
    | none => .error "Can't get hash algo property"
    | some algo =>
      if crypto.known algo then
        .ok ⟨algo, node.padding.getD defaultPadding, node.keyNameHint, requiredKeynode⟩
      else .error "Unknown signature algorithm"

/-- What `fit_image_check_sig()` and `fit_config_check_sig()` share: they differ in the regions
that the signature is for. -/
def checkSig (node : FitNode) (regions : Except String (List (List UInt8)))
    (requiredKeynode : Option Nat) : Except String Unit := do
  let info ← fitImageSetupVerify crypto sizeOk node requiredKeynode
  match node.value with
  | none => .error "Can't get hash value property"
  | some value =>
    let regions ← regions
    if rsaVerify crypto keys info regions value = 0 then .ok ()
    else .error "Verification failed"

def fitImageCheckSig (node : FitNode) (data : List UInt8) (requiredKeynode : Option Nat) :
    Except String Unit :=
  checkSig crypto keys sizeOk node (.ok [data]) requiredKeynode

/-- `fit_config_check_sig()`, with the regions of the configuration for a signature. -/
def fitConfigCheckSig (configRegions : FitNode → Except String (List (List UInt8)))
    (node : FitNode) (requiredKeynode : Option Nat) : Except String Unit :=
  checkSig crypto keys sizeOk node (configRegions node) requiredKeynode

/-! ### Images -/

/-- The loop of `fit_image_verify_sig()`. -/
def verifyImageNodes (data : List UInt8) (ending : FdtEnd) : List FitNode → Int
  | [] => if ending = .notFound then -eperm else -1
  | node :: rest =>
    if node.name.contains '@' then -1
    else if node.isSignature then
      -- the key node that is asked for is not passed on
      match fitImageCheckSig crypto keys sizeOk node data none with
      | .ok _ => 0
      | .error _ => verifyImageNodes data ending rest
    else verifyImageNodes data ending rest

/-- `fit_image_verify_sig()`, with an argument that it does not use. -/
def fitImageVerifySig (image : Component) (data : List UInt8) (_keyOffset : Nat) : Int :=
  verifyImageNodes crypto keys sizeOk data image.ending image.subnodes

/-- The loop of `fit_image_verify_required_sigs()`. -/
def verifyRequiredNodes (image : Component) (data : List UInt8) :
    List (KeyNode Key × Nat) → Nat → Int × Nat
  | [], count => (0, count)
  | (node, index) :: rest, count =>
    if node.required ≠ some requiredImage then verifyRequiredNodes image data rest count
    else
      let ret := fitImageVerifySig crypto keys sizeOk image data index
      if ret ≠ 0 then (ret, count) else verifyRequiredNodes image data rest (count + 1)

/-- `fit_image_verify_required_sigs()`, with `no_sigs`. -/
def fitImageVerifyRequiredSigs (control : Option (SignatureKeys Key)) (image : Component)
    (data : List UInt8) : Int × Bool :=
  match control with
  | none => (0, true)
  | some node =>
    let (ret, count) :=
      verifyRequiredNodes crypto node.keys sizeOk image data node.keys.zipIdx 0
    (ret, ret ≠ 0 || count = 0)

/-! ### Configurations -/

variable (configRegions : FitNode → Except String (List (List UInt8)))

/-- The loop of `fit_config_verify_key()`. -/
def verifyConfigNodes (keyOffset : Nat) : List FitNode → Int
  | [] => -eperm
  | node :: rest =>
    if node.isSignature then
      match fitConfigCheckSig crypto keys sizeOk configRegions node (some keyOffset) with
      | .ok _ => 0
      | .error _ => verifyConfigNodes keyOffset rest
    else verifyConfigNodes keyOffset rest

/-- `fit_config_verify_key()`. How the subnodes end makes no difference but to a message. -/
def fitConfigVerifyKey (config : Component) (keyOffset : Nat) : Int :=
  verifyConfigNodes crypto keys sizeOk configRegions keyOffset config.subnodes

/-- The loop of `fit_config_verify_required_keys()`, with the numbers of required and of verified
signatures. -/
def verifyRequiredKeys (config : Component) (policyAll : Bool) :
    List (KeyNode Key × Nat) → Nat → Nat → Int × Nat × Nat
  | [], reqdSigs, verified => (0, reqdSigs, verified)
  | (node, index) :: rest, reqdSigs, verified =>
    if node.required ≠ some requiredConf then
      verifyRequiredKeys config policyAll rest reqdSigs verified
    else
      let ret := fitConfigVerifyKey crypto keys sizeOk configRegions config index
      if ret ≠ 0 then
        if policyAll then (ret, reqdSigs + 1, verified)
        else verifyRequiredKeys config policyAll rest (reqdSigs + 1) verified
      else if policyAll then
        verifyRequiredKeys config policyAll rest (reqdSigs + 1) (verified + 1)
      else (0, reqdSigs + 1, verified + 1)

def fitConfigVerifyRequiredKeys (control : Option (SignatureKeys Key)) (config : Component) : Int :=
  if config.name.contains '@' then -eperm
  else
    match control with
    | none => 0
    | some node =>
      let (ret, reqdSigs, verified) := verifyRequiredKeys crypto node.keys sizeOk configRegions
        config (node.requiredMode ≠ some modeAny) node.keys.zipIdx 0 0
      if ret ≠ 0 then ret
      else if reqdSigs ≠ 0 ∧ verified = 0 then -eperm
      else 0

end Check

/-! ### What is required -/

section Required

variable {Key : Type}

/-- The signature, for the given regions, verifies with the key. -/
def VerifiesWith (crypto : Crypto Key) (regions : Except String (List (List UInt8)))
    (node : FitNode) (key : Key) : Prop :=
  ∃ algo value data hash, node.algo = some algo ∧ node.value = some value ∧ regions = .ok data ∧
    crypto.hash algo data = some hash ∧
    crypto.withKeynode algo (node.padding.getD defaultPadding) hash value key = 0

/-- An image is accepted only if for each key that is required for images one of its signatures
verifies with that very key, and so for a configuration, where all required keys count. -/
def RequiredKeysHold (control : SignatureKeys Key) : Prop :=
  ∀ (crypto : Crypto Key) (sizeOk : Bool),
    (∀ image data, (fitImageVerifyRequiredSigs crypto sizeOk (some control) image data).1 = 0 →
      ∀ node ∈ control.keys, node.required = some requiredImage →
        ∃ sig ∈ image.subnodes, sig.isSignature = true ∧
          VerifiesWith crypto (.ok [data]) sig node.key) ∧
    (control.requiredMode ≠ some modeAny → ∀ config configRegions,
      fitConfigVerifyRequiredKeys crypto sizeOk configRegions (some control) config = 0 →
      ∀ node ∈ control.keys, node.required = some requiredConf →
        ∃ sig ∈ config.subnodes, sig.isSignature = true ∧
          VerifiesWith crypto (configRegions sig) sig node.key)

/-- When some key is required for images, all key nodes hold the same key. -/
def OneImageKey (control : SignatureKeys Key) : Prop :=
  ∀ node ∈ control.keys, node.required = some requiredImage →
    ∀ other ∈ control.keys, other.key = node.key

end Required

/-! ### Which keys a signature is checked with -/

variable {data : List UInt8} {image config : Component}

section Spec

variable {Key : Type} {crypto : Crypto Key} {keys : List (KeyNode Key)} {info : SignInfo}
  {hash sig : List UInt8} {sizeOk : Bool}

theorem verifyWithKeynode_eq_zero_iff {node : Option (KeyNode Key)} :
    verifyWithKeynode crypto info hash sig node = 0 ↔
      ∃ found, node = some found ∧
        crypto.withKeynode info.name info.padding hash sig found.key = 0 := by
  cases node with
  | none =>
    refine iff_of_false ?_ nofun
    rw [verifyWithKeynode]
    decide
  | some node => simp [verifyWithKeynode]

variable {entries : List (KeyNode Key × Nat)} {node : FitNode}
  {regions : Except String (List (List UInt8))}

/-- With a failure so far, the loop succeeds when another key verifies. -/
theorem tryOthers_eq_zero_iff {hinted : Option Nat} {ret : Int} (failed : ret ≠ 0) :
    tryOthers crypto info hash sig hinted entries ret = 0 ↔
      ∃ entry ∈ entries, hinted ≠ some entry.2 ∧
        crypto.withKeynode info.name info.padding hash sig entry.1.key = 0 := by
  induction entries generalizing ret with
  | nil => simp [tryOthers, failed]
  | cons entry rest ih =>
    obtain ⟨node, index⟩ := entry
    rw [tryOthers]
    split_ifs with skipped
    · rw [ih failed, exists_mem_cons_iff]
      exact ⟨.inr, fun either => either.resolve_left fun first => first.1 skipped⟩
    · by_cases verified : crypto.withKeynode info.name info.padding hash sig node.key = 0
      · simp [verifyWithKeynode, verified, skipped]
      · simp [verifyWithKeynode, verified, ih verified]

variable {index count : Nat} {nodes : List FitNode}

theorem rsaVerifyHash_required_iff (required : info.requiredKeynode = some index) :
    rsaVerifyHash crypto keys info hash sig = 0 ↔
      ∃ node, keys[index]? = some node ∧
        crypto.withKeynode info.name info.padding hash sig node.key = 0 := by
  rw [rsaVerifyHash, required]
  exact verifyWithKeynode_eq_zero_iff

theorem rsaVerifyHash_any_iff (any : info.requiredKeynode = none) :
    rsaVerifyHash crypto keys info hash sig = 0 ↔
      ∃ node ∈ keys, crypto.withKeynode info.name info.padding hash sig node.key = 0 := by
  rw [rsaVerifyHash, any]
  dsimp only
  split_ifs with verified
  · refine iff_of_true verified ?_
    obtain ⟨node, found, verifies⟩ := verifyWithKeynode_eq_zero_iff.mp verified
    obtain ⟨index, -, located⟩ := Option.bind_eq_some_iff.mp found
    exact ⟨node, mem_of_getElem? located, verifies⟩
  · rw [tryOthers_eq_zero_iff verified]
    constructor
    · rintro ⟨⟨node, index⟩, member, -, verifies⟩
      exact ⟨node, fst_mem_of_mem_zipIdx member, verifies⟩
    · rintro ⟨node, member, verifies⟩
      obtain ⟨index, located⟩ := mem_iff_getElem?.mp member
      refine ⟨(node, index), mem_zipIdx_iff_getElem?.mpr located, ?_, verifies⟩
      intro hinted
      -- the key that was hinted at has failed
      exact verified (verifyWithKeynode_eq_zero_iff.mpr
        ⟨node, Option.bind_eq_some_iff.mpr ⟨index, hinted, located⟩, verifies⟩)

theorem checkSig_ok_iff {requiredKeynode : Option Nat} :
    checkSig crypto keys sizeOk node regions requiredKeynode = .ok () ↔
      sizeOk = true ∧ ∃ algo value data hash, node.algo = some algo ∧ crypto.known algo = true ∧
        node.value = some value ∧ regions = .ok data ∧ crypto.hash algo data = some hash ∧
        rsaVerifyHash crypto keys
          ⟨algo, node.padding.getD defaultPadding, node.keyNameHint, requiredKeynode⟩ hash value =
          0 := by
  rw [checkSig, fitImageSetupVerify]
  constructor
  · intro accepted
    cases sizeOk with
    | false => cases accepted
    | true =>
      cases algo : node.algo with
      | none => simp [algo, bind, Except.bind] at accepted
      | some name =>
        cases known : crypto.known name with
        | false => simp [algo, known, bind, Except.bind] at accepted
        | true =>
          cases value : node.value with
          | none => simp [algo, known, value, bind, Except.bind] at accepted
          | some bytes =>
            cases regions with
            | error message => simp [algo, known, value, bind, Except.bind] at accepted
            | ok data =>
              simp only [algo, known, value, bind, Except.bind, Bool.not_true] at accepted
              have verified : rsaVerify crypto keys
                  ⟨name, node.padding.getD defaultPadding, node.keyNameHint, requiredKeynode⟩ data
                  bytes = 0 := by
                by_contra failed
                simp [failed] at accepted
              rw [rsaVerify] at verified
              cases hashed : crypto.hash name data with
              | none => simp [hashed, einval] at verified
              | some hash =>
                rw [hashed] at verified
                exact ⟨rfl, name, bytes, data, hash, rfl, known, rfl, rfl, hashed, verified⟩
  · rintro ⟨rfl, algo, value, data, hash, hasAlgo, known, hasValue, rfl, hashed, verified⟩
    simp [hasAlgo, known, hasValue, bind, Except.bind, rsaVerify, hashed, verified]

/-- An accepted signature verifies with the key of the required node, or else with some key. -/
theorem verifiesWith_of_required
    (accepted : checkSig crypto keys sizeOk node regions (some index) = .ok ()) :
    ∃ found, keys[index]? = some found ∧ VerifiesWith crypto regions node found.key := by
  obtain ⟨-, algo, value, data, hash, hasAlgo, -, hasValue, hasData, hashed, verified⟩ :=
    checkSig_ok_iff.mp accepted
  obtain ⟨found, located, verifies⟩ := (rsaVerifyHash_required_iff rfl).mp verified
  exact ⟨found, located, algo, value, data, hash, hasAlgo, hasValue, hasData, hashed, verifies⟩

theorem verifiesWith_of_any (accepted : checkSig crypto keys sizeOk node regions none = .ok ()) :
    ∃ found ∈ keys, VerifiesWith crypto regions node found.key := by
  obtain ⟨-, algo, value, data, hash, hasAlgo, -, hasValue, hasData, hashed, verified⟩ :=
    checkSig_ok_iff.mp accepted
  obtain ⟨found, member, verifies⟩ := (rsaVerifyHash_any_iff rfl).mp verified
  exact ⟨found, member, algo, value, data, hash, hasAlgo, hasValue, hasData, hashed, verifies⟩

/-! ### The loops -/

theorem verifyImageNodes_eq_zero {ending : FdtEnd}
    (verified : verifyImageNodes crypto keys sizeOk data ending nodes = 0) :
    ∃ node ∈ nodes, node.isSignature = true ∧
      fitImageCheckSig crypto keys sizeOk node data none = .ok () := by
  induction nodes with
  | nil =>
    rw [verifyImageNodes] at verified
    split_ifs at verified
    exact absurd verified (by decide)
  | cons node rest ih =>
    rw [verifyImageNodes] at verified
    rw [exists_mem_cons_iff]
    split_ifs at verified with hasAt isSignature
    · split at verified
      next accepted => exact .inl ⟨isSignature, accepted⟩
      next => exact .inr (ih verified)
    · exact .inr (ih verified)

theorem verifyRequiredNodes_eq_zero
    (verified : (verifyRequiredNodes crypto keys sizeOk image data entries count).1 = 0) :
    ∀ entry ∈ entries, entry.1.required = some requiredImage →
      fitImageVerifySig crypto keys sizeOk image data entry.2 = 0 := by
  induction entries generalizing count with
  | nil => exact forall_mem_nil _
  | cons entry rest ih =>
    obtain ⟨node, index⟩ := entry
    rw [verifyRequiredNodes] at verified
    dsimp only at verified
    rw [forall_mem_cons]
    split_ifs at verified with optional failed
    · exact ⟨fun required => absurd required optional, ih verified⟩
    · exact absurd verified failed
    · exact ⟨fun _ => not_not.mp failed, ih verified⟩

/-- When the signatures of the image are accepted, they are so for all required nodes. -/
theorem verifyRequiredNodes_of_verified
    (accepted : ∀ index, fitImageVerifySig crypto keys sizeOk image data index = 0)
    (entries : List (KeyNode Key × Nat)) (count : Nat) :
    (verifyRequiredNodes crypto keys sizeOk image data entries count).1 = 0 := by
  induction entries generalizing count with
  | nil => rfl
  | cons entry rest ih =>
    obtain ⟨node, index⟩ := entry
    rw [verifyRequiredNodes]
    dsimp only
    split_ifs with optional failed
    · exact ih count
    · exact absurd (accepted index) failed
    · exact ih (count + 1)

variable {configRegions : FitNode → Except String (List (List UInt8))}

theorem verifyConfigNodes_eq_zero {keyOffset : Nat}
    (verified : verifyConfigNodes crypto keys sizeOk configRegions keyOffset nodes = 0) :
    ∃ node ∈ nodes, node.isSignature = true ∧
      fitConfigCheckSig crypto keys sizeOk configRegions node (some keyOffset) = .ok () := by
  induction nodes with
  | nil => exact absurd verified (by rw [verifyConfigNodes]; decide)
  | cons node rest ih =>
    rw [verifyConfigNodes] at verified
    rw [exists_mem_cons_iff]
    split_ifs at verified with isSignature
    · split at verified
      next accepted => exact .inl ⟨isSignature, accepted⟩
      next => exact .inr (ih verified)
    · exact .inr (ih verified)

theorem verifyRequiredKeys_eq_zero {reqdSigs : Nat}
    (verified : (verifyRequiredKeys crypto keys sizeOk configRegions config true entries reqdSigs
      count).1 = 0) :
    ∀ entry ∈ entries, entry.1.required = some requiredConf →
      fitConfigVerifyKey crypto keys sizeOk configRegions config entry.2 = 0 := by
  induction entries generalizing reqdSigs count with
  | nil => exact forall_mem_nil _
  | cons entry rest ih =>
    obtain ⟨node, index⟩ := entry
    rw [verifyRequiredKeys] at verified
    simp only [↓reduceIte] at verified
    rw [forall_mem_cons]
    split_ifs at verified with optional failed
    · exact ⟨fun required => absurd required optional, ih verified⟩
    · exact absurd verified failed
    · exact ⟨fun _ => not_not.mp failed, ih verified⟩

end Spec

/-! ### When required keys are required -/

section Required

variable {Key : Type} {control : SignatureKeys Key} {crypto : Crypto Key} {sizeOk : Bool}
  {node : KeyNode Key}

/-- For configurations, every required key has verified a signature. -/
theorem requiredConf_holds (allRequired : control.requiredMode ≠ some modeAny)
    {configRegions : FitNode → Except String (List (List UInt8))}
    (accepted : fitConfigVerifyRequiredKeys crypto sizeOk configRegions (some control) config = 0)
    (member : node ∈ control.keys) (required : node.required = some requiredConf) :
    ∃ sig ∈ config.subnodes, sig.isSignature = true ∧
      VerifiesWith crypto (configRegions sig) sig node.key := by
  obtain ⟨index, located⟩ := mem_iff_getElem?.mp member
  rw [fitConfigVerifyRequiredKeys] at accepted
  split_ifs at accepted with hasAt
  · exact absurd accepted (by decide)
  dsimp only at accepted
  rw [decide_eq_true allRequired] at accepted
  split_ifs at accepted with failed unsigned
  · exact absurd accepted failed
  · exact absurd accepted (by decide)
  have verified := verifyRequiredKeys_eq_zero (not_not.mp failed) (node, index)
    (mem_zipIdx_iff_getElem?.mpr located) required
  obtain ⟨sig, sigMember, isSignature, checked⟩ := verifyConfigNodes_eq_zero verified
  obtain ⟨found, foundLocated, verifies⟩ := verifiesWith_of_required checked
  obtain rfl : node = found := Option.some.inj (located.symm.trans foundLocated)
  exact ⟨sig, sigMember, isSignature, verifies⟩

theorem requiredImage_someKey
    (accepted : (fitImageVerifyRequiredSigs crypto sizeOk (some control) image data).1 = 0)
    (member : node ∈ control.keys) (required : node.required = some requiredImage) :
    ∃ sig ∈ image.subnodes, sig.isSignature = true ∧
      ∃ found ∈ control.keys, VerifiesWith crypto (.ok [data]) sig found.key := by
  obtain ⟨index, located⟩ := mem_iff_getElem?.mp member
  have verified := verifyRequiredNodes_eq_zero accepted (node, index)
    (mem_zipIdx_iff_getElem?.mpr located) required
  obtain ⟨sig, sigMember, isSignature, checked⟩ := verifyImageNodes_eq_zero verified
  exact ⟨sig, sigMember, isSignature, verifiesWith_of_any checked⟩

/-- A signature that is there and can be checked. -/
def plainSignature : FitNode := ⟨sigNodename, some [], none, none, some []⟩

/-- An image with this signature. -/
def signedImage : Component := ⟨[], [plainSignature], .notFound⟩

/-- All algorithms are known and all hashes are alike; some keys verify every signature. -/
def oracleCrypto (verifies : Key → Bool) : Crypto Key where
  known := fun _ => true
  hash := fun _ _ => some []
  withKeynode := fun _ _ _ _ key => if verifies key then 0 else -1

/-- The image is accepted if any key of the control tree verifies. -/
theorem signedImage_accepted {verifies : Key → Bool} {other : KeyNode Key}
    (member : other ∈ control.keys) (verified : verifies other.key = true) :
    (fitImageVerifyRequiredSigs (oracleCrypto verifies) true (some control) signedImage []).1 =
      0 := by
  have checked : fitImageCheckSig (oracleCrypto verifies) control.keys true plainSignature [] none =
      .ok () := by
    refine checkSig_ok_iff.mpr ⟨rfl, [], [], _, [], rfl, rfl, rfl, rfl, rfl, ?_⟩
    exact (rsaVerifyHash_any_iff rfl).mpr ⟨other, member, if_pos verified⟩
  refine verifyRequiredNodes_of_verified (fun index => ?_) _ _
  rw [fitImageVerifySig, signedImage, verifyImageNodes, if_neg (by decide), if_pos (by decide),
    checked]

/-- Required keys are required exactly when there is only one key as soon as a key is required
for images. -/
theorem requiredKeysHold_iff (control : SignatureKeys Key) :
    RequiredKeysHold control ↔ OneImageKey control := by
  classical
  constructor
  · intro holds node member required other otherMember
    by_contra differs
    have accepted := @signedImage_accepted Key control (fun key => decide (key ≠ node.key)) other
      otherMember (decide_eq_true differs)
    obtain ⟨sig, -, -, algo, value, data, hash, -, -, -, -, verified⟩ :=
      (holds _ true).1 signedImage [] accepted node member required
    simp [oracleCrypto] at verified
  · intro oneKey crypto sizeOk
    refine ⟨fun image data accepted node member required => ?_,
      fun allRequired config configRegions accepted node member required =>
        requiredConf_holds allRequired accepted member required⟩
    obtain ⟨sig, sigMember, isSignature, found, foundMember, verifies⟩ :=
      requiredImage_someKey accepted member required
    exact ⟨sig, sigMember, isSignature, oneKey node member required found foundMember ▸ verifies⟩

/-- A control tree with a required key, and with another key. -/
def twoKeys : SignatureKeys Bool where
  requiredMode := none
  keys := [⟨['k', 'e', 'y', '-', 'd', 'e', 'v'], some requiredImage, false⟩,
    ⟨['k', 'e', 'y', '-', 'o', 'l', 'd'], none, true⟩]

/-- An image is accepted although its only signature is by the key that is not required. -/
theorem twoKeys_wrongKey :
    fitImageVerifyRequiredSigs (oracleCrypto id) true (some twoKeys) signedImage [] = (0, false) ∧
      ∀ sig ∈ signedImage.subnodes, ¬VerifiesWith (oracleCrypto id) (.ok [[]]) sig false := by
  refine ⟨by decide +kernel, ?_⟩
  rintro sig - ⟨algo, value, data, hash, -, -, -, -, verified⟩
  exact absurd verified (by simp [oracleCrypto])

end Required

end TachyonBoot.Fit
