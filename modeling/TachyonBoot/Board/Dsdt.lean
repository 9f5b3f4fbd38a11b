/-
This file models how the Tachyon board patches named objects of the DSDT,
`board/particle/tachyon/acpi.c`, and proves that a patch is made completely or not at all.

`tachyon_acpi_patch_name()` looks for the bytes of `Name (XXXX, ...)` one position after the
other, determines the size of the object behind the name from its prefix, and overwrites the
object if its size is that of the data. Only a string has no fixed size: it is measured up to
the end of the table. `acpi_patch_dsdt()` makes 26 such patches and collects their results.

A table is given as its bytes up to the length in its header. Every read is checked: there is
no result if a byte behind the table is read, or if a loop does not end.
-/

import TachyonBoot.Library.Records

namespace TachyonBoot.Dsdt

open Library List

/-! ### One patch -/

def enoent : Int := 2

def einval : Int := 22

/-- `sizeof(struct acpi_table_header)`. -/
def headerSize : Nat := 36

def amlNameOp : UInt8 := 0x08

/-- A name of four bytes and the data for it, of at least one byte. -/
structure Patch where
  name : List UInt8
  data : List UInt8
  isName : name.length = 4
  isData : data ≠ []

def strnlen (table : List UInt8) : Nat → Nat → Option Nat
  | _, 0 => some 0
  | position, count + 1 =>
    table[position]?.bind fun byte =>
      if byte = 0 then some 0 else (strnlen table (position + 1) count).map (· + 1)

/-- The size of the object at a position that the prefix tells, or the result for a prefix that is
not supported. -/
def objLen (table : List UInt8) (obj : Nat) : Option (Option Nat) :=
  table[obj]?.bind fun amlPrefix =>
    if amlPrefix = 0x0a then some (some 1)
    else if amlPrefix = 0x0b then some (some 2)
    else if amlPrefix = 0x0c then some (some 4)
    else if amlPrefix = 0x0e then some (some 8)
    else if amlPrefix = 0x0d then
      (strnlen table (obj + 1) (table.length - (obj + 1))).map fun length => some (length + 1)
    else some none

/-- The part of `tachyon_acpi_patch_name()` behind a name that is found. -/
def patchObject (patch : Patch) (table : List UInt8) (obj : Nat) : Option (Int × List UInt8) :=
  (objLen table obj).map fun
    | none => (-einval, table)
    | some length =>
      if obj + 1 + length > table.length then (-einval, table)
      else if length ≠ patch.data.length then (-einval, table)
      else (0, overwrite table (obj + 1) patch.data)

/-- The loop of `tachyon_acpi_patch_name()`. -/
def patchLoop (patch : Patch) (table : List UInt8) : Nat → Nat → Option (Int × List UInt8)
  | 0, _ => none
  | fuel + 1, ptr =>
    if ptr + 6 + patch.data.length ≤ table.length then
      table[ptr]?.bind fun op =>
        if op ≠ amlNameOp then patchLoop patch table fuel (ptr + 1)
        else
          (readBytes table (ptr + 1) 4).bind fun name =>
            if name ≠ patch.name then patchLoop patch table fuel (ptr + 1)
            else patchObject patch table (ptr + 5)
    else some (-enoent, table)

/-- `tachyon_acpi_patch_name()`: the return value and the table. -/
def tachyonAcpiPatchName (patch : Patch) (table : List UInt8) : Option (Int × List UInt8) :=
  patchLoop patch table (table.length + 1) headerSize

/-! ### All patches -/

/-- What the board finds out for its DSDT: three regions of the shared memory, of 32 bits, the SKU,
the type of emulation and the address of the SoC information. -/
structure DsdtValues where
  rmtb : Nat
  rmtx : Nat
  adspBase : Nat
  adspSize : Nat
  tcma : Nat
  tcml : Nat
  skuId : Nat
  emul : Nat
  sosi : Nat

def patchOf (first second third fourth : Char) (width value : Nat) (positive : width ≠ 0) :
    Patch where
  name := [first, second, third, fourth].map fun char => char.toNat.toUInt8
  data := littleEndian width value
  isName := rfl
  isData := by
    intro empty
    have length := length_littleEndian width value
    rw [empty] at length
    exact positive length.symm

/-- `tachyon_acpi_patch_u32()`. -/
def patchU32 (first second third fourth : Char) (value : Nat) : Patch :=
  patchOf first second third fourth 4 value (by decide)

/-- `tachyon_acpi_patch_u16()`. -/
def patchU16 (first second third fourth : Char) (value : Nat) : Patch :=
  patchOf first second third fourth 2 value (by decide)

/-- `tachyon_acpi_patch_u64()`. -/
def patchU64 (first second third fourth : Char) (value : Nat) : Patch :=
  patchOf first second third fourth 8 value (by decide)

/-- The patches of `acpi_patch_dsdt()`, in their order. -/
def dsdtPatches (values : DsdtValues) : List Patch :=
  let sidv := 0
  let adspHalf := values.adspSize / 2
  let sidt := if values.skuId = 0 then 3 else values.skuId
  [patchU32 'S' 'O' 'I' 'D' 497, patchU32 'S' 'T' 'O' 'R' 1, patchU32 'S' 'I' 'D' 'V' sidv,
    patchU16 'S' 'V' 'M' 'J' (sidv / 2 ^ 16 % 2 ^ 16), patchU16 'S' 'V' 'M' 'I' (sidv % 2 ^ 16),
    patchU16 'S' 'D' 'F' 'E' 118, patchU64 'S' 'I' 'D' 'M' 0, patchU32 'S' 'U' 'F' 'S' 0,
    patchU32 'P' 'U' 'S' '3' 1, patchU32 'S' 'U' 'S' '3' 0, patchU32 'S' 'I' 'D' 'T' sidt,
    patchU32 'S' 'J' 'T' 'G' 0x001970e1, patchU32 'E' 'M' 'U' 'L' values.emul,
    patchU32 'P' 'L' 'S' 'T' 1, patchU32 'S' 'K' 'U' 'V' 1, patchU32 'S' 'D' 'D' 'R' 4,
    patchU32 'U' 'A' 'O' 'N' 0, patchU64 'S' 'O' 'S' 'I' values.sosi,
    patchU32 'R' 'M' 'T' 'B' values.rmtb, patchU32 'R' 'M' 'T' 'X' values.rmtx,
    patchU32 'R' 'F' 'A' 'B' values.adspBase, patchU32 'R' 'F' 'A' 'S' adspHalf,
    patchU32 'R' 'F' 'M' 'B' ((values.adspBase + adspHalf) % 2 ^ 32),
    patchU32 'R' 'F' 'M' 'S' adspHalf, patchU32 'T' 'C' 'M' 'A' values.tcma,
    patchU32 'T' 'C' 'M' 'L' values.tcml]

/-- Patches one after the other, whose results are collected in `ret` by a bitwise or. -/
def applyPatches (ret : BitVec 32) (table : List UInt8) :
    List Patch → Option (BitVec 32 × List UInt8)
  | [] => some (ret, table)
  | patch :: rest =>
    (tachyonAcpiPatchName patch table).bind fun (result, table) =>
      applyPatches (ret ||| BitVec.ofInt 32 result) table rest

/-- `acpi_patch_dsdt()`: the return value and the table. -/
def acpiPatchDsdt (values : DsdtValues) (table : List UInt8) : Option (BitVec 32 × List UInt8) :=
  applyPatches 0 table (dsdtPatches values)

/-! ### What a patch is -/

/-- The name stands at the position, with room for the data behind it. -/
def Occurs (patch : Patch) (table : List UInt8) (ptr : Nat) : Prop :=
  headerSize ≤ ptr ∧ ptr + 6 + patch.data.length ≤ table.length ∧
    table[ptr]? = some amlNameOp ∧ bytesAt table (ptr + 1) 4 = patch.name

/-- The AML size of the object at a position: that of its integer, or of its string with the
terminator, which is inside the table. -/
def objectSize (table : List UInt8) (obj : Nat) : Option Nat :=
  table[obj]?.bind fun amlPrefix =>
    if amlPrefix = 0x0a then some 1
    else if amlPrefix = 0x0b then some 2
    else if amlPrefix = 0x0c then some 4
    else if amlPrefix = 0x0e then some 8
    else if amlPrefix = 0x0d ∧ 0 ∈ table.drop (obj + 1) then
      some (((table.drop (obj + 1)).takeWhile (· ≠ 0)).length + 1)
    else none

/-- The patch is made in the object behind the first occurrence of its name. -/
structure MadeAt (patch : Patch) (before after : List UInt8) (ptr : Nat) : Prop where
  occurs : Occurs patch before ptr
  first : ∀ earlier, earlier < ptr → ¬ Occurs patch before earlier
  size : objectSize before (ptr + 5) = some patch.data.length
  written : after = overwrite before (ptr + 6) patch.data

/-- Behind the first occurrence of the name, if there is one, no object has the size of the data. -/
def Unmakeable (patch : Patch) (table : List UInt8) : Prop :=
  ∀ ptr after, ¬ MadeAt patch table after ptr

/-- Patches one after the other from a table to another: the data fields of those that are made,
and whether all are. -/
inductive Applied : List Patch → List UInt8 → List UInt8 → List (Nat × Nat) → Bool → Prop where
  | nil (table : List UInt8) : Applied [] table table [] true
  | made {patch : Patch} {rest : List Patch} {before middle after : List UInt8} {ptr : Nat}
      {fields : List (Nat × Nat)} {complete : Bool} (here : MadeAt patch before middle ptr)
      (later : Applied rest middle after fields complete) :
      Applied (patch :: rest) before after ((ptr + 6, patch.data.length) :: fields) complete
  | failed {patch : Patch} {rest : List Patch} {before after : List UInt8}
      {fields : List (Nat × Nat)} {complete : Bool} (unmakeable : Unmakeable patch before)
      (later : Applied rest before after fields complete) :
      Applied (patch :: rest) before after fields false

/-! ### The object behind the name -/

theorem strnlen_eq {table : List UInt8} {position count : Nat}
    (whole : count = table.length - position) :
    strnlen table position count =
      some ((table.drop position).takeWhile (· ≠ 0)).length := by
  induction count generalizing position with
  | zero =>
    rw [strnlen, drop_of_length_le (by omega)]
    rfl
  | succ count ih =>
    have inside : position < table.length := by omega
    rw [strnlen, getElem?_eq_getElem inside, Option.bind_some,
      drop_eq_getElem_cons inside]
    split_ifs with terminator
    · rw [takeWhile_cons_of_neg (by simpa using terminator)]
      rfl
    · rw [ih (by omega), takeWhile_cons_of_pos (by simpa using terminator)]
      rfl

theorem takeWhile_length_lt_iff (bytes : List UInt8) :
    (bytes.takeWhile (· ≠ 0)).length < bytes.length ↔ 0 ∈ bytes := by
  induction bytes with
  | nil => simp
  | cons byte rest ih =>
    by_cases terminator : byte = 0
    · rw [takeWhile_cons_of_neg (by simpa using terminator)]
      simp [terminator]
    · rw [takeWhile_cons_of_pos (by simpa using terminator), length_cons,
        length_cons, Nat.add_lt_add_iff_right, ih, mem_cons]
      exact ⟨.inr, fun either => either.resolve_left fun same => terminator same.symm⟩

/-- A size that fits in the table is told by the prefix exactly if the object has it: the string
that is not terminated is measured one byte too long for the table. -/
theorem objLen_fits {table : List UInt8} {obj : Nat} (inside : obj < table.length) :
    ∃ size, objLen table obj = some size ∧ ∀ length, obj + 1 + length ≤ table.length →
      (size = some length ↔ objectSize table obj = some length) := by
  unfold objLen objectSize
  rw [getElem?_eq_getElem inside, Option.bind_some, Option.bind_some]
  generalize table[obj] = amlPrefix
  by_cases byte : amlPrefix = 0x0a
  · exact ⟨some 1, if_pos byte, fun _ _ => by rw [if_pos byte]⟩
  rw [if_neg byte, if_neg byte]
  by_cases word : amlPrefix = 0x0b
  · exact ⟨some 2, if_pos word, fun _ _ => by rw [if_pos word]⟩
  rw [if_neg word, if_neg word]
  by_cases dword : amlPrefix = 0x0c
  · exact ⟨some 4, if_pos dword, fun _ _ => by rw [if_pos dword]⟩
  rw [if_neg dword, if_neg dword]
  by_cases qword : amlPrefix = 0x0e
  · exact ⟨some 8, if_pos qword, fun _ _ => by rw [if_pos qword]⟩
  rw [if_neg qword, if_neg qword]
  by_cases string : amlPrefix = 0x0d
  · rw [if_pos string, strnlen_eq rfl, Option.map_some]
    refine ⟨_, rfl, fun length room => ?_⟩
    by_cases terminated : 0 ∈ table.drop (obj + 1)
    · rw [if_pos ⟨string, terminated⟩]
    · have whole := mt (takeWhile_length_lt_iff (table.drop (obj + 1))).mp terminated
      rw [length_drop] at whole
      rw [if_neg fun both => terminated both.2, Option.some.injEq]
      exact ⟨fun same => absurd same (by omega), fun same => nomatch same⟩
  · exact ⟨none, if_neg string, fun _ _ => by rw [if_neg fun both => string both.1]⟩

/-- The object is overwritten if it has the size of the data, and otherwise nothing is changed. -/
theorem patchObject_eq (patch : Patch) {table : List UInt8} {obj : Nat}
    (room : obj + 1 + patch.data.length ≤ table.length) :
    patchObject patch table obj =
      some (if objectSize table obj = some patch.data.length
        then (0, overwrite table (obj + 1) patch.data) else (-einval, table)) := by
  obtain ⟨size, told, fits⟩ := @objLen_fits table obj (by omega)
  rw [patchObject, told, Option.map_some]
  by_cases same : objectSize table obj = some patch.data.length
  · rw [if_pos same, (fits _ room).mpr same]
    dsimp only
    rw [if_neg (by omega), if_neg (fun different => different rfl)]
  · have other := mt (fits _ room).mp same
    rw [if_neg same]
    cases size with
    | none => rfl
    | some length =>
      dsimp only
      rw [if_pos (fun equal => other (congrArg some equal)), ite_self]

/-! ### One patch is made completely or not at all -/

theorem patchLoop_made_or_unchanged (patch : Patch) (table : List UInt8) {fuel ptr : Nat}
    (positive : 0 < fuel) (enough : table.length < ptr + fuel) (behind : headerSize ≤ ptr)
    (first : ∀ earlier, earlier < ptr → ¬ Occurs patch table earlier) :
    ∃ ret after, patchLoop patch table fuel ptr = some (ret, after) ∧
      ((ret = 0 ∧ ∃ found, MadeAt patch table after found) ∨
        ((ret = -enoent ∨ ret = -einval) ∧ after = table ∧ Unmakeable patch table)) := by
  induction fuel generalizing ptr with
  | zero => exact absurd positive (Nat.lt_irrefl 0)
  | succ fuel ih =>
    rw [patchLoop]
    by_cases room : ptr + 6 + patch.data.length ≤ table.length
    · have inside : ptr < table.length := by omega
      -- A position without the name is one more of those passed.
      have further (absent : ¬ Occurs patch table ptr) :
          ∀ earlier, earlier < ptr + 1 → ¬ Occurs patch table earlier := by
        intro earlier before
        rcases Nat.lt_succ_iff_lt_or_eq.mp before with passed | rfl
        · exact first earlier passed
        · exact absent
      rw [if_pos room, getElem?_eq_getElem inside, Option.bind_some]
      by_cases op : table[ptr] = amlNameOp
      · rw [if_neg (fun different => different op), readBytes, if_pos (by omega),
          Option.bind_some]
        by_cases named : bytesAt table (ptr + 1) 4 = patch.name
        · have occurs : Occurs patch table ptr :=
            ⟨behind, room, by rw [getElem?_eq_getElem inside, op], named⟩
          rw [if_neg (fun different => different named), patchObject_eq patch (by omega)]
          by_cases size : objectSize table (ptr + 5) = some patch.data.length
          · rw [if_pos size]
            exact ⟨_, _, rfl, .inl ⟨rfl, ptr, occurs, first, size, rfl⟩⟩
          · rw [if_neg size]
            refine ⟨_, _, rfl, .inr ⟨.inr rfl, rfl, fun found after made => ?_⟩⟩
            rcases Nat.lt_trichotomy found ptr with passed | rfl | ahead
            · exact first found passed made.occurs
            · exact size made.size
            · exact made.first ptr ahead occurs
        · rw [if_pos named]
          exact ih (by omega) (by omega) (by omega)
            (further fun occurs => named occurs.2.2.2)
      · rw [if_pos op]
        refine ih (by omega) (by omega) (by omega) (further fun occurs => op ?_)
        exact Option.some.inj ((getElem?_eq_getElem inside).symm.trans occurs.2.2.1)
    · rw [if_neg room]
      refine ⟨_, _, rfl, .inr ⟨.inl rfl, rfl, fun found after made => ?_⟩⟩
      have fits := made.occurs.2.1
      exact first found (by omega) made.occurs

theorem tachyonAcpiPatchName_made_or_unchanged (patch : Patch) (table : List UInt8) :
    ∃ ret after, tachyonAcpiPatchName patch table = some (ret, after) ∧
      ((ret = 0 ∧ ∃ found, MadeAt patch table after found) ∨
        ((ret = -enoent ∨ ret = -einval) ∧ after = table ∧ Unmakeable patch table)) := by
  refine patchLoop_made_or_unchanged patch table (by omega) (by omega) le_rfl ?_
  intro earlier before occurs
  exact absurd occurs.1 (Nat.not_le.mpr before)

/-! ### All patches one after the other -/

theorem applyPatches_applied (patches : List Patch) (ret : BitVec 32) (table : List UInt8) :
    ∃ result after fields complete, applyPatches ret table patches = some (result, after) ∧
      Applied patches table after fields complete ∧
        (result = 0 ↔ ret = 0 ∧ complete = true) := by
  induction patches generalizing ret table with
  | nil => exact ⟨ret, table, [], true, rfl, .nil table, (and_iff_left rfl).symm⟩
  | cons patch rest ih =>
    obtain ⟨one, middle, patched, either⟩ := tachyonAcpiPatchName_made_or_unchanged patch table
    obtain ⟨result, after, fields, complete, applied, later, zero⟩ :=
      ih (ret ||| BitVec.ofInt 32 one) middle
    rw [applyPatches, patched, Option.bind_some]
    rcases either with ⟨rfl, found, here⟩ | ⟨error, rfl, unmakeable⟩
    · refine ⟨result, after, _, complete, applied, .made here later, ?_⟩
      rwa [show BitVec.ofInt 32 0 = 0#32 from rfl, BitVec.or_zero] at zero
    · refine ⟨result, after, fields, false, applied, .failed unmakeable later, ?_⟩
      refine iff_of_false (fun isZero => ?_) fun both => nomatch both.2
      have noError := (BitVec.or_eq_zero_iff.mp (zero.mp isZero).1).2
      rcases error with rfl | rfl <;> exact absurd noError (by decide)

/-- No byte outside the data fields of the patches that are made is changed. -/
theorem Applied.unchanged {patches : List Patch} {before after : List UInt8}
    {fields : List (Nat × Nat)} {complete : Bool}
    (applied : Applied patches before after fields complete) {index : Nat}
    (outside : ∀ field ∈ fields, index < field.1 ∨ field.1 + field.2 ≤ index) :
    after[index]? = before[index]? := by
  induction applied with
  | nil => rfl
  | made here later ih =>
    rw [ih fun field member => outside field (.tail _ member), here.written]
    exact getElem?_overwrite here.occurs.2.1 (outside _ (.head _))
  | failed unmakeable later ih => exact ih outside

/-- A patch reads only bytes of the table, and is made in the object of the right size behind the
first occurrence of its name or, where there is none, fails and changes nothing. All patches
together return 0 exactly if all are made, and change no byte outside their data fields. -/
theorem acpiPatchDsdt_patches_named_fields :
    (∀ patch table, ∃ ret after, tachyonAcpiPatchName patch table = some (ret, after) ∧
      ((ret = 0 ∧ ∃ ptr, MadeAt patch table after ptr) ∨
        (ret ≠ 0 ∧ after = table ∧ Unmakeable patch table))) ∧
    ∀ values table, ∃ ret after fields complete,
      acpiPatchDsdt values table = some (ret, after) ∧
        Applied (dsdtPatches values) table after fields complete ∧
          (ret = 0 ↔ complete = true) ∧
            ∀ index, (∀ field ∈ fields, index < field.1 ∨ field.1 + field.2 ≤ index) →
              after[index]? = table[index]? := by
  constructor
  · intro patch table
    obtain ⟨ret, after, patched, made | ⟨error, same⟩⟩ :=
      tachyonAcpiPatchName_made_or_unchanged patch table
    · exact ⟨ret, after, patched, .inl made⟩
    · refine ⟨ret, after, patched, .inr ⟨?_, same⟩⟩
      rcases error with rfl | rfl <;> decide
  · intro values table
    obtain ⟨ret, after, fields, complete, patched, applied, zero⟩ :=
      applyPatches_applied (dsdtPatches values) 0 table
    exact ⟨ret, after, fields, complete, patched, applied, zero.trans (and_iff_right rfl),
      fun index outside => applied.unchanged outside⟩

/-- A header and `Name (SOID, ...)` with an integer of 32 bits. -/
def soidDsdt : List UInt8 :=
  List.replicate headerSize 0 ++ [0x08, 0x53, 0x4f, 0x49, 0x44, 0x0c, 0, 0, 0, 0]

/-- The table with 497 in the integer. -/
def soidPatched : List UInt8 :=
  List.replicate headerSize 0 ++ [0x08, 0x53, 0x4f, 0x49, 0x44, 0x0c, 0xf1, 1, 0, 0]

/-- The one patch is made, and the errors of the others are returned. -/
theorem acpiPatchDsdt_patches_named_fields_soid :
    (∃ ptr, MadeAt (patchU32 'S' 'O' 'I' 'D' 497) soidDsdt soidPatched ptr) ∧
    ∃ fields, acpiPatchDsdt ⟨0, 0, 0, 0, 0, 0, 0, 0, 0⟩ soidDsdt = some (-2, soidPatched) ∧
      Applied (dsdtPatches ⟨0, 0, 0, 0, 0, 0, 0, 0, 0⟩) soidDsdt soidPatched fields false := by
  constructor
  · obtain ⟨ret, after, patched, either⟩ := acpiPatchDsdt_patches_named_fields.1
      (patchU32 'S' 'O' 'I' 'D' 497) soidDsdt
    have run : tachyonAcpiPatchName (patchU32 'S' 'O' 'I' 'D' 497) soidDsdt =
        some (0, soidPatched) := by
      decide +kernel
    obtain ⟨rfl, rfl⟩ := Prod.mk.inj (Option.some.inj (run.symm.trans patched))
    exact either.elim And.right fun failed => absurd rfl failed.1
  · obtain ⟨ret, after, fields, complete, patched, applied, zero, -⟩ :=
      acpiPatchDsdt_patches_named_fields.2 ⟨0, 0, 0, 0, 0, 0, 0, 0, 0⟩ soidDsdt
    have run : acpiPatchDsdt ⟨0, 0, 0, 0, 0, 0, 0, 0, 0⟩ soidDsdt = some (-2, soidPatched) := by
      decide +kernel
    obtain ⟨rfl, rfl⟩ := Prod.mk.inj (Option.some.inj (run.symm.trans patched))
    rw [Bool.eq_false_iff.mpr (mt zero.mpr (by decide))] at applied
    exact ⟨fields, run, applied⟩

end TachyonBoot.Dsdt
