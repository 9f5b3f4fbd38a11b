/-
This file models the in-memory store of UEFI variables, `lib/efi_loader/efi_var_mem.c`.

The store is one buffer of bytes: a file header, then the variables packed back
to back, each a fixed header followed by its NUL-terminated name and its data,
and each starting at a multiple of eight. A lookup tries the entry it found last
before it walks the buffer, and a deletion slides the entries behind the deleted
one down. Pointers into the buffer are offsets from its start, which lies on a
page boundary. The walks run to a terminating NUL and to the end of the entries;
that they can also run off the pages of the buffer is modelled as a fault.
-/

import TachyonBoot.Efi.MemoryMap
import TachyonBoot.Library.Bytes

namespace TachyonBoot.Efi

open Library

/-! ### Names, GUIDs and the buffer -/

/-- `EFI_VAR_BUF_SIZE`, in the range that its configuration option allows. -/
structure VarBufSize where
  size : Nat
  atLeast : 4096 ≤ size
  atMost : size ≤ 2147483647

/-- The buffer is allocated in whole pages. -/
def VarBufSize.limit (bufSize : VarBufSize) : Nat := (bufSize.size + 4095) / 4096 * 4096

/-- What a call may run into instead of returning. -/
inductive Fault where
  | nullDereference
  | outOfBounds
  | recursionTooDeep
deriving DecidableEq, Repr

/-- `efi_guid_t`. -/
structure EfiGuid where
  bytes : List UInt8
  size : bytes.length = 16
deriving DecidableEq

/-- A NUL-terminated string of `u16`, without the terminator. -/
structure U16String where
  chars : List UInt16
  noNul : 0 ∉ chars
deriving DecidableEq

/-- `struct efi_var_file`: the fields of the header, and the buffer as a whole. -/
structure EfiVarFile where
  reserved : UInt64
  magic : UInt64
  length : UInt32
  crc32 : UInt32
  bytes : Memory

/-- The static variables `efi_var_buf` and `efi_current_var`. -/
structure EfiVarStore where
  buf : EfiVarFile
  current : Option Nat

def efiVarFileMagic : UInt64 := 0x0161566966456255

/-- `sizeof(struct efi_var_file)`, where the first entry starts. -/
def varFileSize : Nat := 24

/-- `sizeof(struct efi_var_entry)`, where the name starts in an entry. -/
def varEntrySize : Nat := 32

/-- `ALIGN(…, 8)`. -/
def align8 (address : Nat) : Nat := (address + 7) / 8 * 8

/-! ### The checksum -/

/-- The entry of the table that `make_crc_table()` computes for a byte. -/
def crcTable (byte : UInt32) : UInt32 :=
  Nat.repeat (fun c => if c &&& 1 ≠ 0 then (0xedb88320 : UInt32) ^^^ (c >>> 1) else c >>> 1) 8 byte

/-- `crc32_no_comp()`, byte by byte. -/
def crc32NoComp (crc : UInt32) (bytes : List UInt8) : UInt32 :=
  bytes.foldl (fun crc byte => crcTable ((crc ^^^ byte.toUInt32) &&& 255) ^^^ (crc >>> 8)) crc

def crc32 (crc : UInt32) (bytes : List UInt8) : UInt32 :=
  crc32NoComp (crc ^^^ 0xffffffff) bytes ^^^ 0xffffffff

/-- The checksum over the entries of a buffer of the given length. -/
def varCrc32 (bytes : Memory) (length : UInt32) : UInt32 :=
  crc32 0 (bytes.read varFileSize (length - varFileSize.toUInt32).toNat)

/-! ### Entries -/

section Entries

variable (mem : Memory)

/-- A `u16` in the buffer. -/
def readU16 (address : Nat) : UInt16 := (ofLittleEndian (mem.read address 2)).toUInt16

/-- `var->length`. -/
def varLength (var : Nat) : UInt32 := (ofLittleEndian (mem.read var 4)).toUInt32

/-- `var->attr`. -/
def varAttr (var : Nat) : UInt32 := (ofLittleEndian (mem.read (var + 4) 4)).toUInt32

/-- `var->time`. -/
def varTime (var : Nat) : UInt64 := (ofLittleEndian (mem.read (var + 8) 8)).toUInt64

/-- `var->guid`. -/
def varGuid (var : Nat) : List UInt8 := mem.read (var + 16) 16

/-- `for (; *data; ++data);`, over at most the given number of characters. -/
def nameEnd : Nat → Nat → Except Fault Nat
  | 0, _ => .error .outOfBounds
  | count + 1, data =>
    if readU16 mem data = 0 then .ok data else nameEnd count (data + 2)

/-- The loop over the name in `efi_var_mem_compare()`: the outcome of the comparison and the
place of the terminator. -/
def compareName : Nat → Nat → List UInt16 → Bool → Except Fault (Bool × Nat)
  | 0, _, _, _ => .error .outOfBounds
  | count + 1, data, varName, isMatch =>
    let isMatch := isMatch && readU16 mem data == varName.headD 0
    if readU16 mem data = 0 then .ok (isMatch, data)
    else compareName count (data + 2) varName.tail isMatch

variable (bufSize : VarBufSize)

/-- The number of characters between an address and the end of the buffer's pages. -/
def VarBufSize.charsFrom (address : Nat) : Nat := (bufSize.limit - address) / 2

/-- The start of the data of an entry. -/
def varData (var : Nat) : Except Fault Nat :=
  (nameEnd mem (bufSize.charsFrom (var + varEntrySize)) (var + varEntrySize)).map (· + 2)

/-- `efi_var_mem_compare()`: whether the entry matches, and the next entry. That a match is
remembered is left to the caller. -/
def efiVarMemCompare (var : Nat) (guid : EfiGuid) (name : U16String) : Except Fault (Bool × Nat) :=
  (compareName mem (bufSize.charsFrom (var + varEntrySize)) (var + varEntrySize) name.chars
    (varGuid mem var == guid.bytes)).map
    fun (isMatch, data) => (isMatch, align8 (data + 2 + (varLength mem var).toNat))

end Entries

/-! ### Lookup, deletion and insertion -/

section Store

variable (bufSize : VarBufSize)

/-- A pointer that is not below the end of the entries is replaced by `NULL`. -/
def belowLast (last pos : Nat) : Option Nat := if last ≤ pos then none else some pos

/-- What `efi_var_mem_find()` returns, with the value of `*next`. -/
structure Found where
  var : Option Nat
  next : Option Nat
  store : EfiVarStore

/-- The loop of `efi_var_mem_find()` over the entries: the matching entry and its successor. -/
def findLoop (mem : Memory) (last : Nat) (guid : EfiGuid) (name : U16String) :
    Nat → Nat → Except Fault (Option (Nat × Option Nat))
  | 0, _ => .error .outOfBounds
  | count + 1, var =>
    match efiVarMemCompare mem bufSize var guid name with
    | .error fault => .error fault
    | .ok (isMatch, pos) =>
      if isMatch then .ok (some (var, belowLast last pos))
      else
        match belowLast last pos with
        | none => .ok none
        | some pos => findLoop mem last guid name count pos

/-- The part of `efi_var_mem_find()` that walks the buffer. -/
def findInBuffer (store : EfiVarStore) (guid : EfiGuid) (name : U16String) :
    Except Fault Found :=
  let last := store.buf.length.toNat
  if varFileSize < last then
    match findLoop bufSize store.buf.bytes last guid name bufSize.limit varFileSize with
    | .error fault => .error fault
    | .ok (some (var, next)) => .ok ⟨some var, next, { store with current := some var }⟩
    | .ok none => .ok ⟨none, none, store⟩
  else .ok ⟨none, none, store⟩

def efiVarMemFind (store : EfiVarStore) (guid : EfiGuid) (name : U16String) :
    Except Fault Found :=
  let last := store.buf.length.toNat
  if name.chars = [] then .ok ⟨none, belowLast last varFileSize, store⟩
  else
    match store.current with
    | none => findInBuffer bufSize store guid name
    | some var =>
      match efiVarMemCompare store.buf.bytes bufSize var guid name with
      | .error fault => .error fault
      | .ok (true, pos) => .ok ⟨some var, belowLast last pos, store⟩
      | .ok (false, _) => findInBuffer bufSize store guid name

def efiVarMemDel (store : EfiVarStore) : Option Nat → Except Fault EfiVarStore
  | none => .ok store
  | some var =>
    let last := store.buf.length.toNat
    let current := store.current.filter (· < var)
    match varData store.buf.bytes bufSize var with
    | .error fault => .error fault
    | .ok data =>
      let next := align8 (data + (varLength store.buf.bytes var).toNat)
      -- the number of bytes to copy would wrap around
      if last < next then .error .outOfBounds
      else
        let length := store.buf.length - (next - var).toUInt32
        let bytes := store.buf.bytes.move var next (last - next)
        .ok ⟨{ store.buf with length, crc32 := varCrc32 bytes length, bytes }, current⟩

/-- The characters of a string as bytes. -/
def u16Bytes (chars : List UInt16) : List UInt8 := chars.flatMap fun char =>
  littleEndian 2 char.toNat

/-- The assignments and copies with which `efi_var_mem_ins()` fills the new entry. -/
def fillEntry (mem : Memory) (var : Nat) (name : U16String) (varNameLen : UInt32) (guid : EfiGuid)
    (attributes : UInt32) (data1 data2 : List UInt8) (time : UInt64) : Memory :=
  let data := var + varEntrySize + 2 * varNameLen.toNat
  let mem := mem.write (var + 4) (littleEndian 4 attributes.toNat)
  let mem := mem.write var (littleEndian 4 (data1.length + data2.length))
  let mem := mem.write (var + 8) (littleEndian 8 time.toNat)
  let mem := mem.write (var + 16) guid.bytes
  let mem := mem.write (var + varEntrySize)
    (u16Bytes ((name.chars ++ [0]).take varNameLen.toNat))
  let mem := mem.write data data1
  mem.write (data + data1.length) data2

/-- `efi_var_mem_ins()` after the length of the name is taken. The data is given by value: it may
lie in the buffer, but then below the place where the new entry is written. -/
def insertEntry (store : EfiVarStore) (name : U16String) (varNameLen : UInt32) (guid : EfiGuid)
    (attributes : UInt32) (data1 data2 : List UInt8) (time : UInt64) : EfiStatus × EfiVarStore :=
  let var := store.buf.length.toNat
  let data := var + varEntrySize + 2 * varNameLen.toNat
  if bufSize.size < (data + data1.length + data2.length) % 2 ^ 64 then (.outOfResources, store)
  else
    let bytes := fillEntry store.buf.bytes var name varNameLen guid attributes data1 data2 time
    let length := (align8 (data + (varLength bytes var).toNat)).toUInt32
    (.success, { store with
      buf := { store.buf with length, crc32 := varCrc32 bytes length, bytes } })

def efiVarMemIns (store : EfiVarStore) (name : U16String) (guid : EfiGuid) (attributes : UInt32)
    (data1 data2 : List UInt8) (time : UInt64) : EfiStatus × EfiVarStore :=
  insertEntry bufSize store name (name.chars.length + 1).toUInt32 guid attributes data1 data2 time

/-- The store that `efi_var_mem_init()` leaves. -/
def efiVarMemInit : EfiVarStore :=
  ⟨⟨0, efiVarFileMagic, varFileSize.toUInt32, 0, fun _ => 0⟩, none⟩

/-! ### Reading variables out -/

/-- `efi_var_entry_len()` of an entry. -/
def efiVarEntryLen (mem : Memory) (var : Nat) : Except Fault UInt32 :=
  (varData mem bufSize var).map fun data =>
    (align8 (data - (var + varEntrySize) + (varLength mem var).toNat + varEntrySize)).toUInt32

/-- The loop of `efi_var_collect_mem()`: the length counted so far and the entries copied so far
to a buffer of the given size, if there is one. -/
def collectLoop (mem : Memory) (last : Nat) (mask : UInt32) (room : Option Nat) :
    Nat → Nat → UInt32 → List UInt8 → Except Fault (UInt32 × List UInt8)
  | 0, _, _, _ => .error .outOfBounds
  | count + 1, var, length, copied =>
    if var < last then
      match efiVarEntryLen bufSize mem var with
      | .error fault => .error fault
      | .ok len =>
        if varAttr mem var &&& mask ≠ mask then
          collectLoop mem last mask room count (var + len.toNat) length copied
        else
          let length := length + len
          let copied := if room.any (length.toNat ≤ ·) then copied ++ mem.read var len.toNat
            else copied
          collectLoop mem last mask room count (var + len.toNat) length copied
    else .ok (length, copied)

/-- `efi_var_collect_mem()` into a buffer, or with `NULL` for it: the status, the value of `*lenp`
and what the buffer holds on success. -/
def efiVarCollectMem (store : EfiVarStore) (hasBuf : Bool) (len : Nat) (mask : UInt32) :
    Except Fault (EfiStatus × Nat × Option EfiVarFile) :=
  match collectLoop bufSize store.buf.bytes store.buf.length.toNat mask
      (if hasBuf then some len else none) (bufSize.limit + 1) varFileSize varFileSize.toUInt32
      [] with
  | .error fault => .error fault
  | .ok (length, copied) =>
    if ¬ hasBuf ∧ length.toNat ≤ len then .ok (.invalidParameter, length.toNat, none)
    else if ¬ hasBuf ∨ len < length.toNat then .ok (.bufferTooSmall, length.toNat, none)
    else .ok (.success, length.toNat, some ⟨0, efiVarFileMagic, length, crc32 0 copied,
      Memory.write (fun _ => 0) varFileSize copied⟩)

/-- The name `VarToFile`. -/
def vtf : U16String := ⟨[0x56, 0x61, 0x72, 0x54, 0x6f, 0x46, 0x69, 0x6c, 0x65], by decide⟩

/-- What `efi_get_variable_mem()` hands back. -/
inductive VarContents where
  | nothing
  | data (bytes : List UInt8)
  | file (file : EfiVarFile)

/-- The result of `efi_get_variable_mem()`: the status and the values of `*attributes`, `*timep`,
`*data_size` and the data buffer. -/
structure GetResult where
  status : EfiStatus
  attributes : Option UInt32
  time : Option UInt64
  dataSize : Nat
  contents : VarContents

/-- `efi_get_variable_mem()` with a name and a vendor, for a data buffer of the given size or
`NULL`. -/
def efiGetVariableMem (store : EfiVarStore) (name : U16String) (vendor : EfiGuid) (dataSize : Nat)
    (hasData : Bool) (mask : UInt32) : Except Fault (GetResult × EfiVarStore) :=
  match efiVarMemFind bufSize store vendor name with
  | .error fault => .error fault
  | .ok ⟨none, _, store⟩ => .ok (⟨.notFound, none, none, dataSize, .nothing⟩, store)
  | .ok ⟨some var, _, store⟩ =>
    let mem := store.buf.bytes
    if mask ≠ 0 ∧ varAttr mem var &&& mask ≠ mask then
      .ok (⟨.notFound, none, none, dataSize, .nothing⟩, store)
    else
      let attributes := some (varAttr mem var)
      let time := some (varTime mem var)
      if name = vtf then
        -- `EFI_VARIABLE_NON_VOLATILE`
        (efiVarCollectMem bufSize store hasData dataSize 1).map fun (status, len, file) =>
          (⟨status, attributes, time, len, file.elim .nothing .file⟩, store)
      else
        let length := (varLength mem var).toNat
        if dataSize < length then
          .ok (⟨.bufferTooSmall, attributes, time, length, .nothing⟩, store)
        else if ¬ hasData then
          .ok (⟨.invalidParameter, attributes, time, length, .nothing⟩, store)
        else
          (varData mem bufSize var).map fun data =>
            (⟨.success, attributes, time, length, .data (mem.read data length)⟩, store)

end Store

end TachyonBoot.Efi
