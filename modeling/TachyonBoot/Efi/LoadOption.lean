/-
This file models how load options are parsed and written, `lib/efi_loader/efi_load_options.c`, with
the check of the embedded device path.

A load option has its attributes, the length of the file path, a label of 16-bit units that ends
with a NUL, the file path, and optional data. The parser checks that the path has as many bytes as
its length says. The walk over the path adds the length of a node only after it has read the
header of the node, so that it looks at four bytes behind the last node before it gives up. When
the option ends there, they are outside.
-/

import Mathlib.Data.List.TakeWhile
import TachyonBoot.Efi.DevicePath
import TachyonBoot.Lib.CharsetConversion
import TachyonBoot.Library.Records

namespace TachyonBoot.LoadOption

open DevicePath Library Charset List

/-! ### The check of a path -/

def ssizeMax : Nat := 2 ^ 63 - 1

def checkLoop (maxlen : Nat) : Nat → List UInt8 → Nat → Except DpFault Int
  | 0, _, _ => .error .endless
  | fuel + 1, dp, ret => do
    access dp 4
    if dpLength dp < 4 then return -1
    else if maxlen < ret + dpLength dp then return -1
    else if IsEnd dp then return (ret + dpLength dp : Nat)
    else checkLoop maxlen fuel (dp.drop (dpLength dp)) (ret + dpLength dp)

def efiDpCheckLength (dp : List UInt8) (maxlen : Nat) : Except DpFault Int :=
  if ssizeMax < maxlen then .ok (-22) else checkLoop maxlen (dp.length + 1) dp 0

/-! ### The parser -/

/-- `struct efi_load_option`; each pointer is the memory from where it points. -/
structure EfiLoadOption where
  attributes : UInt32
  filePathLength : UInt16
  label : List UInt8
  filePath : List UInt8
  optionalData : List UInt8
deriving DecidableEq

def u16Strnlen : Nat → List UInt8 → Except DpFault Nat
  | 0, _ => .ok 0
  | count + 1, src => do
    access src 2
    if uint16At src 0 = 0 then return 0
    else
      let length ← u16Strnlen count (src.drop 2)
      return length + 1

/-- The end of `efi_deserialize_load_option()`, from the file path on. -/
def deserializePath (attributes : UInt32) (filePathLength : UInt16) (label data : List UInt8) :
    Except DpFault (Option (EfiLoadOption × Nat)) :=
  if data.length < filePathLength.toNat then .ok none
  else do
    let checked ← efiDpCheckLength data filePathLength.toNat
    if checked < 0 then return none
    else
      let optionalData := data.drop filePathLength.toNat
      return some ({ attributes, filePathLength, label, filePath := data, optionalData },
        data.length - filePathLength.toNat)

/-- `efi_deserialize_load_option()` for data of the given size: the option and the size of the
optional data, or nothing for EFI_INVALID_PARAMETER. -/
def efiDeserializeLoadOption (data : List UInt8) :
    Except DpFault (Option (EfiLoadOption × Nat)) :=
  if data.length < 8 then .ok none
  else do
    let label := data.drop 6
    let length ← u16Strnlen (label.length / 2 - 1) label
    access label (2 * length + 2)
    if uint16At label (2 * length) ≠ 0 then return none
    else if label.length < 2 * (length + 1) then return none
    else deserializePath (uint32At data 0) (uint16At data 4) label (label.drop (2 * (length + 1)))

/-! ### The writer -/

/-- The bytes of a string of 16-bit units on a little-endian host. -/
def unitBytes (units : List UInt16) : List UInt8 :=
  units.flatMap fun unit => littleEndian 2 unit.toNat

/-- `efi_serialize_load_option()`: the size that is allocated and returned, and the bytes that are
written. -/
def efiSerializeLoadOption (attributes : UInt32) (filePathLength : UInt16) (label : List UInt16)
    (filePath : List UInt8) (optionalData : Option (List UInt8)) : Nat × List UInt8 :=
  let labelLen := 2 * (label.length + 1)
  (4 + 2 + labelLen + filePathLength.toNat +
      optionalData.elim 0 fun text => 2 * (utf8Utf16Strlen text + 1),
    littleEndian 4 attributes.toNat ++ (littleEndian 2 filePathLength.toNat ++
      (unitBytes (label ++ [0]) ++ (filePath.take filePathLength.toNat ++
        optionalData.elim [] fun text => unitBytes (utf8Utf16Strncpy text sizeMax ++ [0])))))

/-! ### The walk of the check -/

/-- The nodes that a walk passes. -/
def Passed (nodes : List (List UInt8)) : Prop := ∀ node ∈ nodes, IsNode node ∧ ¬ IsEnd node

/-- How a walk that has come to a position ends there. -/
inductive StopsWith (maxlen ret : Nat) (p : List UInt8) : Except DpFault Int → Prop
  | outside : p.length < 4 → StopsWith maxlen ret p (.error .outOfBounds)
  | refused : 4 ≤ p.length → dpLength p < 4 ∨ maxlen < ret + dpLength p →
      StopsWith maxlen ret p (.ok (-1))
  | ended : 4 ≤ p.length → 4 ≤ dpLength p → ret + dpLength p ≤ maxlen → IsEnd p →
      StopsWith maxlen ret p (.ok (ret + dpLength p : Nat))

variable {nodes : List (List UInt8)} {rest path : List UInt8} {units : List UInt16}

section Walk

variable {maxlen ret : Nat} {result : Except DpFault Int}

theorem StopsWith.checkLoop_eq {p : List UInt8} (stops : StopsWith maxlen ret p result)
    (fuel : Nat) : checkLoop maxlen (fuel + 1) p ret = result := by
  rw [checkLoop]
  cases stops with
  | outside short =>
    rw [access_of_lt short]
    rfl
  | refused inside bad =>
    rw [access_of_le inside]
    show (if dpLength p < 4 then _ else if maxlen < ret + dpLength p then _ else _) = _
    by_cases small : dpLength p < 4
    · rw [if_pos small]
      rfl
    · rw [if_neg small, if_pos (bad.resolve_left small)]
      rfl
  | ended inside whole fits isEnd =>
    rw [access_of_le inside]
    show (if dpLength p < 4 then _ else if maxlen < ret + dpLength p then _ else
      if IsEnd p then _ else _) = _
    rw [if_neg (by omega), if_neg (by omega), if_pos isEnd]
    rfl

theorem StopsWith.passed (passed : Passed nodes) (fits : ret + nodes.flatten.length ≤ maxlen)
    (stops : StopsWith maxlen (ret + nodes.flatten.length) rest result) {fuel : Nat}
    (enough : (nodes.flatten ++ rest).length < fuel) :
    checkLoop maxlen fuel (nodes.flatten ++ rest) ret = result := by
  obtain ⟨fuel, rfl⟩ := Nat.exists_eq_add_one_of_ne_zero (Nat.ne_zero_of_lt enough)
  induction nodes generalizing ret fuel with
  | nil => exact stops.checkLoop_eq fuel
  | cons node nodes ih =>
    obtain ⟨⟨whole, notEnd⟩, later⟩ := forall_mem_cons.mp passed
    have header := whole.header
    simp only [flatten_cons, append_assoc, length_append] at fits enough stops ⊢
    rw [checkLoop, access_append header, whole.drop, dpLength_append header, whole.length]
    show (if node.length < 4 then _ else if maxlen < ret + node.length then _ else
      if IsEnd (node ++ (nodes.flatten ++ rest)) then _ else _) = _
    rw [if_neg (by omega), if_neg (by omega), if_neg (mt (isEnd_append header _).mp notEnd)]
    obtain ⟨fuel, rfl⟩ := Nat.exists_eq_add_one_of_ne_zero (show fuel ≠ 0 by omega)
    exact ih later (by omega) (by rwa [Nat.add_assoc]) fuel
      (by rw [length_append]; omega)

theorem exists_stopsWith {p : List UInt8} (within : ret ≤ maxlen)
    (inside : maxlen ≤ ret + p.length) :
    ∃ nodes rest result, p = nodes.flatten ++ rest ∧ Passed nodes ∧
      ret + nodes.flatten.length ≤ maxlen ∧
      StopsWith maxlen (ret + nodes.flatten.length) rest result := by
  induction length : p.length using Nat.strong_induction_on generalizing p ret with
  | _ total ih =>
    by_cases short : p.length < 4
    · exact ⟨[], p, _, rfl, nofun, within, .outside short⟩
    by_cases bad : dpLength p < 4 ∨ maxlen < ret + dpLength p
    · exact ⟨[], p, _, rfl, nofun, within, .refused (by omega) bad⟩
    by_cases isEnd : IsEnd p
    · exact ⟨[], p, _, rfl, nofun, within, .ended (by omega) (by omega) (by simp; omega) isEnd⟩
    have whole : (p.take (dpLength p)).length = dpLength p := length_take_of_le (by omega)
    have rebuilt := take_append_drop (dpLength p) p
    have header : 4 ≤ (p.take (dpLength p)).length := by omega
    have node : IsNode (p.take (dpLength p)) := by
      refine ⟨header, ?_⟩
      rw [whole, ← dpLength_append header (p.drop (dpLength p)), rebuilt]
    have notEnd : ¬ IsEnd (p.take (dpLength p)) := by
      rwa [← isEnd_append header (p.drop (dpLength p)), rebuilt]
    have rest : (p.drop (dpLength p)).length = p.length - dpLength p := length_drop
    obtain ⟨nodes, rest, result, split, passed, fits, stops⟩ :=
      ih _ (by omega) (show ret + dpLength p ≤ maxlen by omega)
        (show maxlen ≤ ret + dpLength p + (p.drop (dpLength p)).length by omega) rfl
    refine ⟨p.take (dpLength p) :: nodes, rest, result, ?_, forall_mem_cons.mpr
      ⟨⟨node, notEnd⟩, passed⟩, ?_, ?_⟩
    · rw [flatten_cons, append_assoc, ← split, rebuilt]
    · rw [flatten_cons, length_append, whole, ← Nat.add_assoc]
      exact fits
    · rw [flatten_cons, length_append, whole, ← Nat.add_assoc]
      exact stops

end Walk

/-! ### The label -/

@[simp] theorem unitBytes_cons (unit : UInt16) (units : List UInt16) :
    unitBytes (unit :: units) = littleEndian 2 unit.toNat ++ unitBytes units := flatMap_cons

@[simp] theorem length_unitBytes (units : List UInt16) :
    (unitBytes units).length = 2 * units.length := by
  rw [unitBytes, length_flatMap]
  simp [Nat.mul_comm]

theorem unitBytes_append (front back : List UInt16) :
    unitBytes (front ++ back) = unitBytes front ++ unitBytes back := flatMap_append

theorem eq_unit_append {src : List UInt8} (inside : 2 ≤ src.length) :
    src = littleEndian 2 (uint16At src 0).toNat ++ src.drop 2 := by
  have two : (src.take 2).length = 2 := length_take_of_le inside
  have small := ofLittleEndian_lt (src.take 2)
  have bytes := littleEndian_ofLittleEndian (src.take 2)
  rw [two] at small bytes
  rw [uint16At, bytesAt, drop_zero, toNat_ofNat16 small, bytes, take_append_drop]

theorem unitBytes_terminated (units : List UInt16) (path : List UInt8) :
    unitBytes (units ++ [0]) ++ path =
      unitBytes units ++ (littleEndian 2 (0 : UInt16).toNat ++ path) := by
  rw [unitBytes_append, append_assoc]
  rfl

theorem access_unit (unit : UInt16) (rest : List UInt8) :
    access (littleEndian 2 unit.toNat ++ rest) 2 = .ok () :=
  access_of_le (by rw [length_append, length_littleEndian]; omega)

theorem u16Strnlen_unit (count : Nat) (unit : UInt16) (rest : List UInt8) :
    u16Strnlen (count + 1) (littleEndian 2 unit.toNat ++ rest) =
      if unit = 0 then .ok 0 else (u16Strnlen count rest).map (· + 1) := by
  rw [u16Strnlen, access_unit, uint16At_here, drop_left' (length_littleEndian ..)]
  rfl

theorem u16Strnlen_units (noNul : 0 ∉ units) {count : Nat} (enough : units.length ≤ count)
    (path : List UInt8) :
    u16Strnlen count (unitBytes (units ++ [0]) ++ path) = .ok units.length := by
  induction units generalizing count with
  | nil =>
    cases count with
    | zero => rfl
    | succ count =>
      rw [nil_append, unitBytes_cons, append_assoc, u16Strnlen_unit, if_pos rfl]
      rfl
  | cons unit units ih =>
    obtain ⟨count, rfl⟩ := Nat.exists_eq_add_one_of_ne_zero (Nat.ne_zero_of_lt enough)
    obtain ⟨nonzero, later⟩ := not_or.mp (mt mem_cons.mpr noNul)
    rw [cons_append, unitBytes_cons, append_assoc, u16Strnlen_unit,
      if_neg (Ne.symm nonzero), ih later (Nat.le_of_succ_le_succ enough)]
    rfl

/-- The scan of a label finds the units before its end, or stops at the last unit of the memory. -/
theorem exists_units {count : Nat} {src : List UInt8} (inside : 2 * (count + 1) ≤ src.length) :
    ∃ units rest, src = unitBytes units ++ rest ∧ 0 ∉ units ∧ 2 ≤ rest.length ∧
      u16Strnlen count src = .ok units.length := by
  induction count generalizing src with
  | zero => exact ⟨[], src, rfl, not_mem_nil, by omega, rfl⟩
  | succ count ih =>
    have split := eq_unit_append (show 2 ≤ src.length by omega)
    have step := u16Strnlen_unit count (uint16At src 0) (src.drop 2)
    rw [← split] at step
    by_cases zero : uint16At src 0 = 0
    · exact ⟨[], src, rfl, not_mem_nil, by omega, step.trans (if_pos zero)⟩
    · obtain ⟨units, rest, later, noNul, more, length⟩ := @ih (src.drop 2)
        (by rw [length_drop]; omega)
      refine ⟨uint16At src 0 :: units, rest, ?_, ?_, more, ?_⟩
      · rw [unitBytes_cons, append_assoc, ← later]
        exact split
      · exact not_mem_cons_of_ne_of_not_mem (Ne.symm zero) noNul
      · rw [step, if_neg zero, length]
        rfl

/-- An option whose label has an end, and what follows the label. -/
structure Labelled (data : List UInt8) (units : List UInt16) (path : List UInt8) : Prop where
  noNul : 0 ∉ units
  parts : ∃ header : List UInt8, header.length = 6 ∧
    data = header ++ (unitBytes (units ++ [0]) ++ path)

theorem Labelled.deserialize {data : List UInt8} (labelled : Labelled data units path) :
    efiDeserializeLoadOption data = deserializePath (uint32At data 0) (uint16At data 4)
      (unitBytes (units ++ [0]) ++ path) path := by
  obtain ⟨noNul, header, six, whole⟩ := labelled
  have label : data.drop 6 = unitBytes (units ++ [0]) ++ path := by
    rw [whole, drop_left' six]
  have length : (unitBytes (units ++ [0]) ++ path).length =
      2 * (units.length + 1) + path.length := by
    rw [length_append, length_unitBytes, length_append, length_singleton]
  have long : ¬ data.length < 8 := by
    rw [whole, length_append]
    omega
  have terminator : uint16At (unitBytes (units ++ [0]) ++ path) (2 * units.length) = 0 := by
    rw [unitBytes_terminated, uint16At_skip (Nat.le_of_eq (length_unitBytes units)),
      length_unitBytes, Nat.sub_self]
    exact uint16At_here 0 path
  rw [efiDeserializeLoadOption, if_neg long, label]
  dsimp only
  rw [u16Strnlen_units noNul (by omega)]
  show (do access _ (2 * units.length + 2); _) = _
  rw [access_of_le (by omega)]
  show (if _ ≠ _ then _ else if _ then _ else _) = _
  rw [if_neg (not_not_intro terminator), if_neg (by omega), drop_left']
  rw [length_unitBytes, length_append, length_singleton]

theorem labelled_or_refused (data : List UInt8) :
    (∃ units path, Labelled data units path) ∨ efiDeserializeLoadOption data = .ok none := by
  by_cases short : data.length < 8
  · exact .inr (if_pos short)
  have length : (data.drop 6).length = data.length - 6 := length_drop
  obtain ⟨units, rest, split, noNul, more, scanned⟩ :=
    @exists_units ((data.drop 6).length / 2 - 1) (data.drop 6) (by omega)
  have inside : 2 * units.length + 2 ≤ (data.drop 6).length := by
    rw [split, length_append, length_unitBytes]
    omega
  have last : uint16At (data.drop 6) (2 * units.length) = uint16At rest 0 := by
    rw [split, uint16At_skip (Nat.le_of_eq (length_unitBytes units)), length_unitBytes,
      Nat.sub_self]
  by_cases zero : uint16At rest 0 = 0
  · refine .inl ⟨units, rest.drop 2, noNul, data.take 6, length_take_of_le (by omega), ?_⟩
    have terminated := eq_unit_append more
    rw [zero] at terminated
    rw [unitBytes_terminated, ← terminated, ← split, take_append_drop]
  · right
    rw [efiDeserializeLoadOption, if_neg short]
    dsimp only
    rw [scanned]
    show (do access _ (2 * units.length + 2); _) = _
    rw [access_of_le inside, last]
    exact if_pos zero

/-! ### Reads inside the option -/

/-- What a successful call of the parser says about the data. -/
structure ParsedInside (data : List UInt8) (option : EfiLoadOption) (size : Nat) : Prop where
  label : ∃ units, Labelled data units option.filePath ∧
    option.label = unitBytes (units ++ [0]) ++ option.filePath
  path : ∃ nodes last rest, option.filePath.take option.filePathLength.toNat =
    nodes.flatten ++ (last ++ rest) ∧ Passed nodes ∧ IsNode last ∧ IsEnd last
  optional : option.optionalData = option.filePath.drop option.filePathLength.toNat
  size : data.length - option.optionalData.length + size = data.length

/-- The file path fits into the option, and the nodes at its start lead within the length of the
path to a place that is less than four bytes before the end of the option. -/
def LeadsOut (data : List UInt8) : Prop :=
  ∃ units path nodes rest, Labelled data units path ∧ (uint16At data 4).toNat ≤ path.length ∧
    path = nodes.flatten ++ rest ∧ Passed nodes ∧
    nodes.flatten.length ≤ (uint16At data 4).toNat ∧ rest.length < 4

theorem deserializePath_eq {attributes : UInt32} {filePathLength : UInt16} {label : List UInt8}
    {checked : Except DpFault Int} (fits : filePathLength.toNat ≤ path.length)
    (check : checkLoop filePathLength.toNat (path.length + 1) path 0 = checked) :
    deserializePath attributes filePathLength label path = checked.map fun length =>
      if length < 0 then none
      else some (⟨attributes, filePathLength, label, path, path.drop filePathLength.toNat⟩,
        path.length - filePathLength.toNat) := by
  have small : ¬ ssizeMax < filePathLength.toNat := by
    have := filePathLength.toNat_lt
    unfold ssizeMax
    omega
  rw [deserializePath, if_neg (Nat.not_lt_of_le fits), efiDpCheckLength, if_neg small, check]
  cases checked with
  | error fault => rfl
  | ok length =>
    show (if length < 0 then _ else _) = _
    split_ifs with negative <;> simp [Except.map, negative] <;> rfl

theorem Labelled.parsedInside {data : List UInt8} (labelled : Labelled data units path)
    (fits : (uint16At data 4).toNat ≤ path.length) (split : path = nodes.flatten ++ rest)
    (passed : Passed nodes) (whole : 4 ≤ dpLength rest)
    (inside : nodes.flatten.length + dpLength rest ≤ (uint16At data 4).toNat) (isEnd : IsEnd rest) :
    ParsedInside data ⟨uint32At data 0, uint16At data 4, unitBytes (units ++ [0]) ++ path, path,
      path.drop (uint16At data 4).toNat⟩ (path.length - (uint16At data 4).toNat) := by
  have lengths := congrArg List.length split
  rw [length_append] at lengths
  have last : (rest.take (dpLength rest)).length = dpLength rest :=
    length_take_of_le (by omega)
  have rebuilt := take_append_drop (dpLength rest) rest
  have header : 4 ≤ (rest.take (dpLength rest)).length := by omega
  refine ⟨⟨units, labelled, rfl⟩, ⟨nodes, rest.take (dpLength rest),
    (rest.drop (dpLength rest)).take ((uint16At data 4).toNat - nodes.flatten.length -
      dpLength rest), ?_, passed, ?_, ?_⟩, rfl, ?_⟩
  · dsimp only
    rw [split, take_append, take_of_length_le (by omega)]
    nth_rewrite 1 [← rebuilt]
    rw [take_append, last, take_of_length_le (by omega)]
  · refine ⟨header, ?_⟩
    rw [last, ← dpLength_append header (rest.drop (dpLength rest)), rebuilt]
  · rwa [← isEnd_append header (rest.drop (dpLength rest)), rebuilt]
  · obtain ⟨-, front, -, parts⟩ := labelled
    have total := congrArg List.length parts
    rw [length_append, length_append] at total
    rw [length_drop]
    omega

/-- The parser reads inside the option, and finds what it says, exactly if the nodes of the file
path do not lead to the end of the option. -/
theorem efiDeserializeLoadOption_inside_iff (data : List UInt8) :
    (∃ result, efiDeserializeLoadOption data = .ok result ∧
      ∀ option size, result = some (option, size) → ParsedInside data option size) ↔
    ¬ LeadsOut data := by
  constructor
  · rintro ⟨result, returned, -⟩ ⟨units, path, nodes, rest, labelled, fits, split, passed, inside,
      short⟩
    have stops : StopsWith (uint16At data 4).toNat (0 + nodes.flatten.length) rest
      (.error .outOfBounds) := .outside short
    have check := stops.passed passed (by omega) (Nat.lt_succ_self _)
    rw [← split] at check
    rw [labelled.deserialize, deserializePath_eq fits check] at returned
    cases returned
  · intro notOut
    rcases labelled_or_refused data with ⟨units, path, labelled⟩ | refused
    · by_cases fits : (uint16At data 4).toNat ≤ path.length
      · obtain ⟨nodes, rest, checked, split, passed, inside, stops⟩ :=
          @exists_stopsWith (uint16At data 4).toNat 0 path (Nat.zero_le _) (by omega)
        have check := stops.passed passed inside (Nat.lt_succ_self _)
        rw [← split] at check
        rw [labelled.deserialize, deserializePath_eq fits check]
        cases stops with
        | outside short =>
          exact absurd ⟨units, path, nodes, rest, labelled, fits, split, passed, by omega, short⟩
            notOut
        | refused => exact ⟨none, rfl, nofun⟩
        | ended header whole ends isEnd =>
          refine ⟨_, congrArg Except.ok (if_neg (Int.not_lt.mpr (Int.natCast_nonneg _))), ?_⟩
          rintro option size found
          cases found
          exact labelled.parsedInside fits split passed whole (by omega) isEnd
      · refine ⟨none, ?_, nofun⟩
        rw [labelled.deserialize, deserializePath, if_pos (Nat.lt_of_not_le fits)]
    · exact ⟨none, refused, nofun⟩

/-- An option of eight bytes, with an empty label and no file path: the parser reads behind it. -/
theorem emptyOption_leaves :
    efiDeserializeLoadOption [1, 0, 0, 0, 0, 0, 0, 0] = .error .outOfBounds := by
  rfl

/-! ### The round trip -/

/-- The UTF-16 encoding of a character: one unit, or a high and a low surrogate. -/
def utf16Units (char : Char) : List UInt16 :=
  if char.toNat < 0x10000 then [UInt16.ofNat char.toNat]
  else [UInt16.ofNat ((char.toNat - 0x10000) / 1024 + 0xd800),
    UInt16.ofNat (char.toNat % 1024 + 0xdc00)]

theorem utf16Text_eq (text : List Char) : utf16Text text = text.flatMap utf16Units :=
  flatMap_congr fun char _ => putUnits_eq char.valid

/-- A load option that can be written: the label without its terminator, a file path with a whole
device path at its start, and as optional data nothing or a text. -/
structure WritableOption where
  attributes : UInt32
  label : List UInt16
  filePath : List UInt8
  text : Option (List Char)
  noNul : 0 ∉ label
  small : filePath.length < 2 ^ 16
  wellFormed : ∃ nodes last rest, filePath = nodes.flatten ++ (last ++ rest) ∧ Passed nodes ∧
    IsNode last ∧ IsEnd last
  plain : ∀ chars, text = some chars → (∀ char ∈ chars, char.toNat ≠ 0) ∧ chars.length ≤ sizeMax

namespace WritableOption

variable (source : WritableOption)

/-- `lo->file_path_length`. -/
def filePathLength : UInt16 := UInt16.ofNat source.filePath.length

/-- `lo->optional_data`, the text in UTF-8 or NULL. -/
def optionalData : Option (List UInt8) :=
  source.text.map fun chars => chars.flatMap fun char => encoding char.toNat

/-- The optional data of the written option: the text in UTF-16 with its terminator. -/
def written : List UInt8 :=
  source.text.elim [] fun chars => unitBytes (chars.flatMap utf16Units ++ [0])

theorem toNat_filePathLength : source.filePathLength.toNat = source.filePath.length :=
  toNat_ofNat16 source.small

end WritableOption

section Text

variable {chars : List Char} (noNul : ∀ char ∈ chars, char.toNat ≠ 0)
  (inMemory : chars.length ≤ sizeMax)

include noNul inMemory

theorem utf8Utf16Strncpy_encoded :
    utf8Utf16Strncpy (chars.flatMap fun char => encoding char.toNat) sizeMax =
      chars.flatMap utf16Units := by
  rw [utf8Utf16Strncpy, codes_encoded noNul inMemory, flatMap_map, ← utf16Text_eq, utf16Text]

theorem utf8Utf16Strlen_encoded :
    utf8Utf16Strlen (chars.flatMap fun char => encoding char.toNat) =
      (chars.flatMap utf16Units).length := by
  have whole : (chars.map fun char => some char.toNat).takeWhile (· ≠ some 0) =
      chars.map fun char => some char.toNat := by
    refine takeWhile_eq_self_iff.mpr fun code member => ?_
    obtain ⟨char, inText, rfl⟩ := mem_map.mp member
    simpa using noNul char inText
  have scalar : (chars.map fun char => some char.toNat).countP isSurrogate = 0 := by
    refine countP_eq_zero.mpr fun code member => ?_
    obtain ⟨char, -, rfl⟩ := mem_map.mp member
    have valid : char.toNat.isValidChar := char.valid
    simp only [isSurrogate, Option.any_some, decide_eq_true_eq]
    omega
  have small : ∀ code, some code ∈ chars.map (fun char => some char.toNat) → code < 0x110000 := by
    intro code member
    obtain ⟨char, -, same⟩ := mem_map.mp member
    have valid : char.toNat.isValidChar := char.valid
    cases same
    omega
  rw [utf8Utf16Strlen, utf8Utf16Strnlen, codes_encoded noNul inMemory, whole, sum_reserved small,
    scalar, Nat.add_zero, flatMap_map, ← utf16Text_eq, utf16Text]

end Text

/-- The text that is written, and the size that is allocated for it. -/
theorem WritableOption.written_eq (source : WritableOption) :
    (source.optionalData.elim [] fun text => unitBytes (utf8Utf16Strncpy text sizeMax ++ [0])) =
        source.written ∧
      (source.optionalData.elim 0 fun text => 2 * (utf8Utf16Strlen text + 1)) =
        source.written.length := by
  have plain := source.plain
  rw [WritableOption.optionalData, WritableOption.written]
  cases found : source.text with
  | none => exact ⟨rfl, rfl⟩
  | some chars =>
    obtain ⟨noNul, inMemory⟩ := plain chars found
    refine ⟨congrArg (fun units => unitBytes (units ++ [0]))
      (utf8Utf16Strncpy_encoded noNul inMemory), ?_⟩
    simp [utf8Utf16Strlen_encoded noNul inMemory]

theorem efiSerializeLoadOption_eq (source : WritableOption) :
    (efiSerializeLoadOption source.attributes source.filePathLength source.label source.filePath
      source.optionalData).2 =
    littleEndian 4 source.attributes.toNat ++ (littleEndian 2 source.filePathLength.toNat ++
      (unitBytes (source.label ++ [0]) ++ (source.filePath ++ source.written))) := by
  rw [efiSerializeLoadOption, source.written_eq.1,
    take_of_length_le (by rw [source.toNat_filePathLength])]

theorem efiSerializeLoadOption_size (source : WritableOption) :
    (efiSerializeLoadOption source.attributes source.filePathLength source.label source.filePath
      source.optionalData).1 =
    (efiSerializeLoadOption source.attributes source.filePathLength source.label source.filePath
      source.optionalData).2.length := by
  rw [efiSerializeLoadOption_eq, efiSerializeLoadOption, source.written_eq.2]
  simp only [length_append, length_littleEndian, length_unitBytes, length_singleton,
    source.toNat_filePathLength]
  omega

theorem checkLoop_wellFormed {last : List UInt8} (passed : Passed nodes) (whole : IsNode last)
    (isEnd : IsEnd last) {maxlen : Nat} (fits : nodes.flatten.length + last.length ≤ maxlen) :
    checkLoop maxlen ((nodes.flatten ++ (last ++ rest)).length + 1)
      (nodes.flatten ++ (last ++ rest)) 0 = .ok (nodes.flatten.length + last.length : Nat) := by
  have header := whole.header
  have length : dpLength (last ++ rest) = last.length :=
    (dpLength_append header rest).trans whole.length
  have stops : StopsWith maxlen (0 + nodes.flatten.length) (last ++ rest)
      (.ok (0 + nodes.flatten.length + dpLength (last ++ rest) : Nat)) :=
    .ended (by rw [length_append]; omega) (by omega) (by omega)
      ((isEnd_append header rest).mpr isEnd)
  rw [stops.passed passed (by omega) (Nat.lt_succ_self _), length, Nat.zero_add]

/-- An option that was written is read back, and the size that was allocated is that of the bytes
written. -/
theorem efiSerializeLoadOption_roundTrip (source : WritableOption) :
    let serialized := efiSerializeLoadOption source.attributes source.filePathLength source.label
      source.filePath source.optionalData
    serialized.1 = serialized.2.length ∧
      efiDeserializeLoadOption serialized.2 = .ok (some
        ({ attributes := source.attributes
           filePathLength := source.filePathLength
           label := unitBytes (source.label ++ [0]) ++ (source.filePath ++ source.written)
           filePath := source.filePath ++ source.written
           optionalData := source.written }, source.written.length)) := by
  refine ⟨efiSerializeLoadOption_size source, ?_⟩
  have bytes := efiSerializeLoadOption_eq source
  generalize (efiSerializeLoadOption source.attributes source.filePathLength source.label
    source.filePath source.optionalData).2 = data at bytes
  have attributes : uint32At data 0 = source.attributes := by rw [bytes, uint32At_here]
  have filePathLength : uint16At data 4 = source.filePathLength := by
    rw [bytes, uint16At_skip (Nat.le_of_eq (length_littleEndian ..)), length_littleEndian,
      Nat.sub_self, uint16At_here]
  have labelled : Labelled data source.label (source.filePath ++ source.written) := by
    refine ⟨source.noNul, _, ?_, bytes.trans (append_assoc ..).symm⟩
    rw [length_append, length_littleEndian, length_littleEndian]
  obtain ⟨nodes, last, rest, path, passed, whole, isEnd⟩ := source.wellFormed
  have lengths := congrArg List.length path
  rw [length_append, length_append] at lengths
  have check := @checkLoop_wellFormed nodes (rest ++ source.written) last passed whole isEnd
    source.filePathLength.toNat (by rw [source.toNat_filePathLength]; omega)
  rw [← append_assoc last, ← append_assoc nodes.flatten, ← path] at check
  rw [labelled.deserialize, attributes, filePathLength, deserializePath_eq _ check]
  · rw [source.toNat_filePathLength, drop_left, length_append, Nat.add_sub_cancel_left]
    exact congrArg Except.ok (if_neg (Int.not_lt.mpr (Int.natCast_nonneg _)))
  · rw [source.toNat_filePathLength, length_append]
    omega

/-- The path of a USB device and of a file on it, and a character behind the basic plane as text. -/
def usbOption : WritableOption where
  attributes := 1
  label := [0x55, 0x53, 0x42]
  filePath := [3, 5, 6, 0, 1, 0] ++ [4, 4, 8, 0, 0x61, 0, 0, 0] ++ endNode
  text := some [Char.ofNat 0x1f600]
  noNul := by decide
  small := by decide
  wellFormed := by
    refine ⟨[[3, 5, 6, 0, 1, 0], [4, 4, 8, 0, 0x61, 0, 0, 0]], endNode, [], rfl, ?_,
      ⟨by decide, rfl⟩, by decide⟩
    refine forall_mem_cons.mpr ⟨⟨⟨by decide, rfl⟩, by decide⟩, ?_⟩
    exact forall_mem_singleton.mpr ⟨⟨by decide, rfl⟩, by decide⟩
  plain := by
    rintro _ ⟨⟩
    exact ⟨forall_mem_singleton.mpr (by decide), show 1 ≤ sizeMax by unfold sizeMax; omega⟩

theorem efiSerializeLoadOption_roundTrip_usb :
    let serialized := efiSerializeLoadOption 1 18 [0x55, 0x53, 0x42] usbOption.filePath
      (some [0xf0, 0x9f, 0x98, 0x80])
    serialized.1 = 38 ∧ serialized.2.length = 38 ∧ ∃ option,
      efiDeserializeLoadOption serialized.2 = .ok (some (option, 6)) ∧
        option.optionalData = [0x3d, 0xd8, 0x00, 0xde, 0, 0] := by
  obtain ⟨size, read⟩ := efiSerializeLoadOption_roundTrip usbOption
  have allocated : (efiSerializeLoadOption 1 18 [0x55, 0x53, 0x42] usbOption.filePath
      (some [0xf0, 0x9f, 0x98, 0x80])).1 = 38 := by
    decide +kernel
  exact ⟨allocated, size.symm.trans allocated, _, read, by decide +kernel⟩

end TachyonBoot.LoadOption
