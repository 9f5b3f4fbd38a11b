/-
This file models the walkers over device paths of `lib/efi_loader/efi_device_path.c` and settles
when the instances of a path are recovered.

A device path is a chain of nodes, each with a type, a sub-type and its length. It ends with a node
of type END and sub-type END; a node of type END and another sub-type separates two instances. A
path is given by the memory from its first byte to the end of the object that it lies in, and
every header is read within these bounds. `efi_dp_get_next_instance()` copies an instance together
with the node behind it as it is, so that every copy but the last one ends with a separator.
-/

import Mathlib.Data.List.GetD

namespace TachyonBoot.DevicePath

open List

/-! ### Nodes -/

/-- What a walk may run into instead of returning. -/
inductive DpFault where
  | outOfBounds
  | endless
deriving DecidableEq, Repr

/-- `DEVICE_PATH_TYPE_END`. -/
def typeEnd : UInt8 := 0x7f

/-- `DEVICE_PATH_SUB_TYPE_END`. -/
def subTypeEnd : UInt8 := 0xff

/-- `DEVICE_PATH_SUB_TYPE_INSTANCE_END`. -/
def subTypeInstanceEnd : UInt8 := 0x01

/-- `dp->type`. -/
def dpType (dp : List UInt8) : UInt8 := dp.getD 0 0

/-- `dp->sub_type`. -/
def dpSubType (dp : List UInt8) : UInt8 := dp.getD 1 0

/-- `dp->length`. -/
def dpLength (dp : List UInt8) : Nat := (dp.getD 2 0).toNat + 256 * (dp.getD 3 0).toNat

/-- An access to the first bytes of an object. -/
def access (dp : List UInt8) (count : Nat) : Except DpFault Unit :=
  if count ≤ dp.length then .ok () else .error .outOfBounds

/-- The end node that is tested for by type and sub-type. -/
def IsEnd (dp : List UInt8) : Prop := dpType dp = typeEnd ∧ dpSubType dp = subTypeEnd

instance (dp : List UInt8) : Decidable (IsEnd dp) := inferInstanceAs (Decidable (_ ∧ _))

/-- `END`. -/
def endNode : List UInt8 := [typeEnd, subTypeEnd, 4, 0]

/-- A whole node. -/
structure IsNode (node : List UInt8) : Prop where
  header : 4 ≤ node.length
  length : dpLength node = node.length

variable {dp rest stop : List UInt8} {distance : Nat}

theorem access_of_le {count : Nat} (inside : count ≤ dp.length) :
    access dp count = .ok () := if_pos inside

theorem access_of_lt {count : Nat} (outside : dp.length < count) :
    access dp count = .error .outOfBounds := if_neg (Nat.not_le_of_lt outside)

section Fields

variable {node : List UInt8} (header : 4 ≤ node.length) (rest : List UInt8)

include header

theorem access_append : access (node ++ rest) 4 = .ok () :=
  access_of_le (by rw [length_append]; omega)

theorem dpType_append : dpType (node ++ rest) = dpType node :=
  getD_append _ _ _ _ (by omega)

theorem dpSubType_append : dpSubType (node ++ rest) = dpSubType node :=
  getD_append _ _ _ _ (by omega)

theorem dpLength_append : dpLength (node ++ rest) = dpLength node := by
  rw [dpLength, getD_append _ _ _ _ (by omega), getD_append _ _ _ _ (by omega), dpLength]

theorem isEnd_append : IsEnd (node ++ rest) ↔ IsEnd node := by
  rw [IsEnd, dpType_append header, dpSubType_append header, IsEnd]

end Fields

/-! ### The walkers

A walk over a path takes no more steps than the path has bytes, unless it comes to a node of length
zero and stays there. -/

def sizeLoop : Nat → List UInt8 → Nat → Except DpFault Nat
  | 0, _, _ => .error .endless
  | fuel + 1, p, size => do
    access p 4
    if IsEnd p then return size
    else sizeLoop fuel (p.drop (dpLength p)) (size + dpLength p)

def efiDpSize (dp : List UInt8) : Except DpFault Nat := sizeLoop (dp.length + 1) dp 0

/-- The loop of `efi_dp_instance_size()`, with `efi_dp_next()`. -/
def instanceSizeLoop : Nat → List UInt8 → Nat → Except DpFault Nat
  | 0, _, _ => .error .endless
  | fuel + 1, dp, size => do
    access dp 4
    let next := dp.drop (dpLength dp)
    access next 1
    if dpType next = typeEnd then return size + dpLength dp
    else instanceSizeLoop fuel next (size + dpLength dp)

def efiDpInstanceSize (dp : List UInt8) : Except DpFault Nat := do
  access dp 1
  if dpType dp = typeEnd then return 0 else instanceSizeLoop (dp.length + 1) dp 0

/-- `efi_dp_dup()`, with memory for the copy. -/
def efiDpDup (dp : List UInt8) : Except DpFault (List UInt8) := do
  let size ← efiDpSize dp
  access dp (size + 4)
  return dp.take (size + 4)

/-- `efi_dp_append_instance()`, with memory for the result; the path may be NULL. -/
def efiDpAppendInstance (dp : Option (List UInt8)) (dpi : List UInt8) :
    Except DpFault (List UInt8) :=
  match dp with
  | none => efiDpDup dpi
  | some dp => do
    let sz ← efiDpSize dp
    let szi ← efiDpInstanceSize dpi
    access dp (sz + 4)
    -- the end node of the path is copied and becomes a separator
    let copied := (dp.take (sz + 4)).set (sz + 1) subTypeInstanceEnd
    access dpi szi
    return copied ++ dpi.take szi ++ endNode

/-- What `efi_dp_get_next_instance()` gives: the copy, the size and the next position. -/
structure NextInstance where
  copy : List UInt8
  size : Nat
  cursor : Option (List UInt8)

/-- `efi_dp_get_next_instance()` for a path that is not NULL. -/
def efiDpGetNextInstance (dp : List UInt8) : Except DpFault NextInstance := do
  let sz ← efiDpInstanceSize dp
  access dp (sz + 4)
  let stop := dp.drop sz
  let cursor := if dpSubType stop = subTypeInstanceEnd then some (stop.drop 4) else none
  return { copy := dp.take (sz + 4), size := sz + 4, cursor }

/-- A path built with `efi_dp_append_instance()`. -/
def appendAll : Option (List UInt8) → List (List UInt8) → Except DpFault (Option (List UInt8))
  | dp, [] => .ok dp
  | dp, dpi :: rest => do
    let longer ← efiDpAppendInstance dp dpi
    appendAll (some longer) rest

/-- The calls of `efi_dp_get_next_instance()` until the cursor becomes NULL: the copies and their
sizes. -/
def instancesLoop : Nat → Option (List UInt8) → Except DpFault (List (List UInt8 × Nat))
  | _, none => .ok []
  | 0, some _ => .error .endless
  | rounds + 1, some dp => do
    let next ← efiDpGetNextInstance dp
    let later ← instancesLoop rounds next.cursor
    return (next.copy, next.size) :: later

@[inherit_doc instancesLoop] def allInstances (dp : List UInt8) :
    Except DpFault (List (List UInt8 × Nat)) :=
  instancesLoop (dp.length + 1) (some dp)

/-! ### Paths of one instance -/

/-- A node of an instance. -/
structure DpNode where
  bytes : List UInt8
  whole : IsNode bytes
  notEnd : dpType bytes ≠ typeEnd

/-- The bytes of the nodes of an instance. -/
def nodeBytes (nodes : List DpNode) : List UInt8 := nodes.flatMap DpNode.bytes

/-- A path with a single instance. -/
def single (nodes : List DpNode) : List UInt8 := nodeBytes nodes ++ endNode

/-- The walk of `efi_dp_size()` ends so many bytes behind the start. -/
def EndsAt (p : List UInt8) (distance : Nat) : Prop :=
  ∀ fuel, p.length < fuel → ∀ size, sizeLoop fuel p size = .ok (size + distance)

theorem endsAt_end {p : List UInt8} (inside : 4 ≤ p.length) (isEnd : IsEnd p) : EndsAt p 0 := by
  intro fuel enough size
  obtain ⟨fuel, rfl⟩ := Nat.exists_eq_add_one_of_ne_zero (Nat.ne_zero_of_lt enough)
  rw [sizeLoop, access_of_le inside]
  exact if_pos isEnd

theorem IsNode.drop {node : List UInt8} (whole : IsNode node) (rest : List UInt8) :
    (node ++ rest).drop (dpLength (node ++ rest)) = rest := by
  rw [dpLength_append whole.header, whole.length, drop_left]

theorem EndsAt.node {node : List UInt8} (endsAt : EndsAt rest distance) (whole : IsNode node)
    (notEnd : ¬ IsEnd node) :
    EndsAt (node ++ rest) (node.length + distance) := by
  intro fuel enough size
  rw [length_append] at enough
  obtain ⟨fuel, rfl⟩ := Nat.exists_eq_add_one_of_ne_zero (Nat.ne_zero_of_lt enough)
  have header := whole.header
  rw [sizeLoop, access_append header]
  show (if IsEnd (node ++ rest) then _ else _) = _
  rw [if_neg (mt (isEnd_append header rest).mp notEnd), whole.drop, dpLength_append header,
    whole.length, endsAt fuel (by omega), Nat.add_assoc]

theorem EndsAt.nodes (endsAt : EndsAt rest distance) (nodes : List DpNode) :
    EndsAt (nodeBytes nodes ++ rest) ((nodeBytes nodes).length + distance) := by
  induction nodes with
  | nil => rwa [nodeBytes, flatMap_nil, length_nil, Nat.zero_add, nil_append]
  | cons node nodes ih =>
    rw [nodeBytes, flatMap_cons, append_assoc, length_append, Nat.add_assoc]
    exact ih.node node.whole fun isEnd => node.notEnd isEnd.1

theorem EndsAt.size (endsAt : EndsAt dp distance) :
    efiDpSize dp = .ok distance := by
  rw [efiDpSize, endsAt _ (Nat.lt_succ_self _), Nat.zero_add]

theorem EndsAt.dup {body : List UInt8} (endsAt : EndsAt (body ++ endNode) body.length) :
    efiDpDup (body ++ endNode) = .ok (body ++ endNode) := by
  have whole : body.length + 4 = (body ++ endNode).length := by
    rw [length_append]
    rfl
  rw [efiDpDup, endsAt.size]
  show (do access (body ++ endNode) (body.length + 4); _) = _
  rw [whole, access_of_le (Nat.le_refl _)]
  exact congrArg Except.ok take_length

theorem endsAt_endNode : EndsAt endNode 0 := endsAt_end (by decide) (by decide)

theorem endsAt_single (nodes : List DpNode) : EndsAt (single nodes) (nodeBytes nodes).length :=
  endsAt_endNode.nodes nodes

theorem instanceSizeLoop_node (node : DpNode) (present : rest ≠ []) (fuel size : Nat) :
    instanceSizeLoop (fuel + 1) (node.bytes ++ rest) size =
      if dpType rest = typeEnd then .ok (size + node.bytes.length)
      else instanceSizeLoop fuel rest (size + node.bytes.length) := by
  have header := node.whole.header
  rw [instanceSizeLoop, access_append header, node.whole.drop, dpLength_append header,
    node.whole.length]
  show (do access rest 1; _) = _
  rw [access_of_le (length_pos_iff.mpr present)]
  rfl

theorem nodeBytes_cons (node : DpNode) (nodes : List DpNode) :
    nodeBytes (node :: nodes) = node.bytes ++ nodeBytes nodes := flatMap_cons

theorem dpType_nodeBytes_cons (node : DpNode) (nodes : List DpNode) (rest : List UInt8) :
    dpType (nodeBytes (node :: nodes) ++ rest) ≠ typeEnd := by
  rw [nodeBytes_cons, append_assoc, dpType_append node.whole.header]
  exact node.notEnd

theorem instanceSizeLoop_nodes (present : stop ≠ []) (stops : dpType stop = typeEnd)
    (node : DpNode) (nodes : List DpNode) {fuel : Nat} (enough : nodes.length < fuel) (size : Nat) :
    instanceSizeLoop fuel (nodeBytes (node :: nodes) ++ stop) size =
      .ok (size + (nodeBytes (node :: nodes)).length) := by
  induction nodes generalizing node fuel size with
  | nil =>
    obtain ⟨fuel, rfl⟩ := Nat.exists_eq_add_one_of_ne_zero (Nat.ne_zero_of_lt enough)
    rw [nodeBytes_cons, append_assoc, instanceSizeLoop_node node
      (append_ne_nil_of_right_ne_nil _ present), length_append]
    exact if_pos stops
  | cons second nodes ih =>
    obtain ⟨fuel, rfl⟩ := Nat.exists_eq_add_one_of_ne_zero (Nat.ne_zero_of_lt enough)
    rw [nodeBytes_cons, append_assoc, instanceSizeLoop_node node
      (append_ne_nil_of_right_ne_nil _ present),
      if_neg (dpType_nodeBytes_cons second nodes stop),
      ih second (Nat.lt_of_succ_lt_succ enough), length_append, Nat.add_assoc]

theorem length_le_nodeBytes (nodes : List DpNode) : nodes.length ≤ (nodeBytes nodes).length := by
  induction nodes with
  | nil => exact Nat.le_refl 0
  | cons node nodes ih =>
    have header := node.whole.header
    rw [nodeBytes_cons, length_append, length_cons]
    omega

theorem efiDpInstanceSize_eq (nodes : List DpNode) (present : stop ≠ [])
    (stops : dpType stop = typeEnd) :
    efiDpInstanceSize (nodeBytes nodes ++ stop) = .ok (nodeBytes nodes).length := by
  rw [efiDpInstanceSize, access_of_le (length_pos_iff.mpr
    (append_ne_nil_of_right_ne_nil (nodeBytes nodes) present))]
  cases nodes with
  | nil => exact if_pos stops
  | cons node nodes =>
    have few := length_le_nodeBytes (node :: nodes)
    rw [length_cons] at few
    refine (if_neg (dpType_nodeBytes_cons node nodes stop)).trans ?_
    rw [instanceSizeLoop_nodes present stops node nodes (by rw [length_append]; omega),
      Nat.zero_add]

/-! ### Several instances -/

/-- The node between two instances. -/
def separator : List UInt8 := [typeEnd, subTypeInstanceEnd, 4, 0]

/-- A path with several instances. -/
def multi : List DpNode → List (List DpNode) → List UInt8
  | first, [] => single first
  | first, second :: rest => nodeBytes first ++ (separator ++ multi second rest)

theorem multi_eq (first : List DpNode) (rest : List (List DpNode)) :
    ∃ body, multi first rest = body ++ endNode ∧ EndsAt (multi first rest) body.length ∧
      ∀ nodes, multi first (rest ++ [nodes]) = body ++ (separator ++ single nodes) := by
  induction rest generalizing first with
  | nil => exact ⟨nodeBytes first, rfl, endsAt_single first, fun nodes => rfl⟩
  | cons second rest ih =>
    obtain ⟨body, whole, endsAt, longer⟩ := ih second
    refine ⟨nodeBytes first ++ (separator ++ body), ?_, ?_, fun nodes => ?_⟩
    · rw [multi, whole, append_assoc, append_assoc]
    · rw [length_append, length_append]
      exact (endsAt.node ⟨by decide, by decide⟩ (by decide)).nodes first
    · rw [cons_append, multi, longer, append_assoc, append_assoc]

theorem efiDpAppendInstance_multi (first : List DpNode) (rest : List (List DpNode))
    (nodes : List DpNode) :
    efiDpAppendInstance (some (multi first rest)) (single nodes) =
      .ok (multi first (rest ++ [nodes])) := by
  obtain ⟨body, whole, endsAt, longer⟩ := multi_eq first rest
  have instanceSize : efiDpInstanceSize (single nodes) = .ok (nodeBytes nodes).length :=
    efiDpInstanceSize_eq nodes (by decide) (by decide)
  have length : (multi first rest).length = body.length + 4 := by
    rw [whole, length_append]
    rfl
  have inside : (nodeBytes nodes).length ≤ (single nodes).length := by
    rw [single, length_append]
    omega
  have replaced : (body ++ endNode).set (body.length + 1) subTypeInstanceEnd =
      body ++ separator := by
    rw [set_append_right _ _ (Nat.le_add_right ..), Nat.add_sub_cancel_left]
    rfl
  simp only [efiDpAppendInstance, endsAt.size, instanceSize, bind, Except.bind, pure, Except.pure]
  rw [← length, access_of_le (Nat.le_refl _), access_of_le inside]
  simp only [take_length]
  rw [whole, replaced, longer, single, take_left]
  simp [append_assoc]

theorem appendAll_multi (first : List DpNode) (done rest : List (List DpNode)) :
    appendAll (some (multi first done)) (rest.map single) =
      .ok (some (multi first (done ++ rest))) := by
  induction rest generalizing done with
  | nil => rw [append_nil]; rfl
  | cons nodes rest ih =>
    rw [map_cons, appendAll, efiDpAppendInstance_multi]
    refine (ih (done ++ [nodes])).trans ?_
    rw [append_assoc]
    rfl

/-- The copies of the instances: all but the last one end with the separator. -/
def copies : List DpNode → List (List DpNode) → List (List UInt8 × Nat)
  | first, [] => [(single first, (single first).length)]
  | first, second :: rest =>
    (nodeBytes first ++ separator, (nodeBytes first ++ separator).length) :: copies second rest

/-- An instance that is followed by a node of type END is copied with this node. -/
theorem efiDpGetNextInstance_eq (nodes : List DpNode) (length : stop.length = 4)
    (stops : dpType stop = typeEnd) :
    efiDpGetNextInstance (nodeBytes nodes ++ (stop ++ rest)) =
      .ok { copy := nodeBytes nodes ++ stop, size := (nodeBytes nodes ++ stop).length
            cursor := if dpSubType stop = subTypeInstanceEnd then some rest else none } := by
  have header : 4 ≤ stop.length := Nat.le_of_eq length.symm
  have size : efiDpInstanceSize (nodeBytes nodes ++ (stop ++ rest)) =
      .ok (nodeBytes nodes).length :=
    efiDpInstanceSize_eq nodes (by rintro equal; simp_all) ((dpType_append header rest).trans stops)
  have whole : (nodeBytes nodes).length + 4 = (nodeBytes nodes ++ stop).length := by
    rw [length_append, length]
  simp only [efiDpGetNextInstance, size, bind, Except.bind, pure, Except.pure]
  rw [access_of_le (by simp only [length_append]; omega), drop_left]
  dsimp only
  rw [whole, ← append_assoc, take_left, dpSubType_append header, ← length, drop_left]

theorem instancesLoop_multi (first : List DpNode) (rest : List (List DpNode)) {rounds : Nat}
    (enough : rest.length < rounds) :
    instancesLoop rounds (some (multi first rest)) = .ok (copies first rest) := by
  induction rest generalizing first rounds with
  | nil =>
    obtain ⟨rounds, rfl⟩ := Nat.exists_eq_add_one_of_ne_zero (Nat.ne_zero_of_lt enough)
    have next := @efiDpGetNextInstance_eq [] endNode first rfl rfl
    rw [append_nil, if_neg (by decide)] at next
    rw [instancesLoop, multi, single, next]
    cases rounds <;> rfl
  | cons second rest ih =>
    obtain ⟨rounds, rfl⟩ := Nat.exists_eq_add_one_of_ne_zero (Nat.ne_zero_of_lt enough)
    have next := @efiDpGetNextInstance_eq (multi second rest) separator first rfl rfl
    rw [instancesLoop, multi, next]
    show (do let later ← instancesLoop rounds (some (multi second rest)); _) = _
    rw [ih second (Nat.lt_of_succ_lt_succ enough)]
    rfl

theorem length_le_multi (first : List DpNode) (rest : List (List DpNode)) :
    rest.length ≤ (multi first rest).length := by
  induction rest generalizing first with
  | nil => exact Nat.zero_le _
  | cons second rest ih =>
    have later := ih second
    simp only [multi, length_append, length_cons, separator, length_nil]
    omega

/-- The instances of a path that is built from single ones are recovered, as complete paths. -/
def InstancesRecovered (paths : List (List DpNode)) : Prop :=
  ∃ built, appendAll none (paths.map single) = .ok (some built) ∧
    allInstances built =
      .ok (paths.map fun nodes => (single nodes, (single nodes).length)) ∧
    ∀ nodes ∈ paths, efiDpSize (single nodes) = .ok (nodeBytes nodes).length ∧
      efiDpDup (single nodes) = .ok (single nodes)

/-- The instances of a path are recovered exactly if there is only one. -/
theorem instancesRecovered_iff (first : List DpNode) (rest : List (List DpNode)) :
    InstancesRecovered (first :: rest) ↔ rest = [] := by
  have built : appendAll none ((first :: rest).map single) = .ok (some (multi first rest)) := by
    rw [map_cons, appendAll, efiDpAppendInstance, single, (endsAt_single first).dup]
    exact appendAll_multi first [] rest
  have found : allInstances (multi first rest) = .ok (copies first rest) :=
    instancesLoop_multi first rest (Nat.lt_succ_of_le (length_le_multi first rest))
  constructor
  · rintro ⟨path, isBuilt, recovered, -⟩
    rw [built] at isBuilt
    cases isBuilt
    rw [found] at recovered
    cases rest with
    | nil => rfl
    | cons second rest =>
      have same := congrArg Prod.fst (List.cons.inj (Except.ok.inj recovered)).1
      cases append_cancel_left same
  · rintro rfl
    refine ⟨_, built, found, fun nodes _ => ⟨(endsAt_single nodes).size, (endsAt_single nodes).dup⟩⟩

def plainNode : DpNode := ⟨[1, 1, 4, 0], ⟨by decide, by decide⟩, by decide⟩

/-- The copy of the first of two instances ends with a separator, and the walk to its end leaves
it. -/
theorem firstInstance_unterminated :
    appendAll none [single [plainNode], single []] =
        .ok (some [1, 1, 4, 0, 0x7f, 0x01, 4, 0, 0x7f, 0xff, 4, 0]) ∧
      allInstances [1, 1, 4, 0, 0x7f, 0x01, 4, 0, 0x7f, 0xff, 4, 0] =
        .ok [([1, 1, 4, 0, 0x7f, 0x01, 4, 0], 8), ([0x7f, 0xff, 4, 0], 4)] ∧
      efiDpSize [1, 1, 4, 0, 0x7f, 0x01, 4, 0] = .error .outOfBounds :=
  ⟨rfl, rfl, rfl⟩

end TachyonBoot.DevicePath
