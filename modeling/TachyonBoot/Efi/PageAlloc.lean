/-
This file models the page services of `lib/efi_loader/efi_memory.c`, which tie
the EFI memory map to the memory-block lists.

Every change of the lists is reported by `lmb_map_update_notify()` and enters the
memory map rounded outwards to whole pages, so the map is the listener of the
lists. The page services go the other way: `efi_allocate_pages()` reserves in the
lists without a report and then adds the pages to the map itself, and gives the
reservation back when that fails; `efi_free_pages()` frees in the lists and
leaves the map to the report. Addresses and pointers are the same, as they are
everywhere but in the sandbox.
-/

import TachyonBoot.Efi.MemoryMap
import TachyonBoot.Lmb.Operations

namespace TachyonBoot.Efi

open Library Lmb

def efiSizeInPages (size : UInt64) : UInt64 := (size + efiPageMask) >>> efiPageShift

/-- The memory type a report is entered with. -/
def notifyType (op : LmbMapOp) (flags : UInt32) : Int32 :=
  match op with
  | .reserve => if flags &&& lmbNomap ≠ 0 then efiReservedMemoryType else efiBootServicesData
  | .free | .add => efiConventionalMemory

/-- `efi_map_update_notify()`. The first parameter is `CONFIG_TACHYON_WINDOWS_BOOT`. -/
def efiMapUpdateNotify (windowsBoot : Bool) (calloc : Nat → Bool) : Notify EfiMap :=
  fun map addr size op flags =>
    let pages := efiSizeInPages (size + (addr &&& efiPageMask))
    let efiAddr := addr &&& ~~~efiPageMask
    let attr := if windowsBoot ∧ flags &&& lmbNomap ≠ 0 then efiMemoryUc ||| efiMemoryXp else 0
    match efiAddMemoryMapPg calloc map efiAddr pages (notifyType op flags) false attr with
    | some (.success, map) => (0, map)
    | some (_, map) => (-1, map)
    | none => (-1, map)

/-- `enum efi_allocate_type`, with one value for those the specification does not have. -/
inductive EfiAllocateType where
  | anyPages
  | maxAddress
  | address
  | other
deriving DecidableEq, Repr

def efiPersistentMemoryType : UInt32 := 14

def efiPageSize : UInt64 := 4096

section Services

variable (notify : Notify EfiMap)

/-- The branches of `efi_allocate_pages()` that search for pages below a bound. -/
def allocateBelow (grows : Bool) (lmb : LmbState EfiMap) (len maxAddr : UInt64)
    (flags : UInt32) : Except EfiStatus UInt64 × LmbState EfiMap :=
  let (addr, lmb) := lmbAllocBase notify grows lmb len efiPageSize maxAddr flags
  if addr = 0 then (.error .outOfResources, lmb) else (.ok addr, lmb)

/-- The reservation that `efi_allocate_pages()` makes in the lists: its address or the error. -/
def allocateInLists (grows : Bool) (lmb : LmbState EfiMap) (type : EfiAllocateType)
    (len memory : UInt64) (flags : UInt32) : Except EfiStatus UInt64 × LmbState EfiMap :=
  match type with
  | .anyPages => allocateBelow notify grows lmb len lmbAllocAnywhere flags
  | .maxAddress => allocateBelow notify grows lmb len memory flags
  | .address =>
    if memory &&& efiPageMask ≠ 0 then (.error .notFound, lmb)
    else
      let (ret, lmb) := lmbAllocAddr notify grows lmb memory len flags
      if ret ≠ 0 then (.error .notFound, lmb) else (.ok memory, lmb)
  | .other => (.error .invalidParameter, lmb)

/-- `efi_allocate_pages()`: the status, and the value of `*memory` on success. A missing
`memory` is the null pointer. -/
def efiAllocatePages (grows growsFree : Bool) (calloc : Nat → Bool) (lmb : LmbState EfiMap)
    (type : EfiAllocateType) (memoryType : UInt32) (pages : UInt64) (memory : Option UInt64) :
    (EfiStatus × Option UInt64) × LmbState EfiMap :=
  if efiPersistentMemoryType ≤ memoryType ∧ memoryType ≤ 0x6fffffff then
    ((.invalidParameter, none), lmb)
  else
    match memory with
    | none => ((.invalidParameter, none), lmb)
    | some memory =>
      let len := pages <<< efiPageShift
      if len >>> efiPageShift ≠ pages then ((.outOfResources, none), lmb)
      else
        let flags := lmbNooverwrite ||| lmbNonotify
        match allocateInLists notify grows lmb type len memory flags with
        | (.error status, lmb) => ((status, none), lmb)
        | (.ok addr, lmb) =>
          match efiAddMemoryMapPg calloc lmb.listener addr pages memoryType.toInt32 true 0 with
          | some (.success, listener) => ((.success, some addr), { lmb with listener })
          | some (_, listener) =>
            let (_, lmb) := lmbFreeFlags notify growsFree { lmb with listener } addr
              (pages <<< efiPageShift) flags
            ((.outOfResources, none), lmb)
          | none => ((.outOfResources, none), lmb)

def efiFreePages (grows : Bool) (lmb : LmbState EfiMap) (memory pages : UInt64) :
    EfiStatus × LmbState EfiMap :=
  let ret := efiCheckAllocated lmb.listener memory true
  if ret ≠ .success then (ret, lmb)
  else if memory = 0 ∨ memory &&& efiPageMask ≠ 0 ∨ pages = 0 then (.invalidParameter, lmb)
  else
    let len := pages <<< efiPageShift
    let (status, lmb) := lmbFreeFlags notify grows lmb memory len lmbNooverwrite
    if status ≠ 0 then (.notFound, lmb) else (ret, lmb)

end Services

/-! ### Runs -/

section Runs

variable (windowsBoot : Bool)

/-- A bank that is added at the start, with the outcomes of the allocations. -/
structure Bank where
  grows : Bool
  calloc : Nat → Bool
  base : UInt64
  size : UInt64

/-- The state after adding a bank. -/
def bankStep (lmb : LmbState EfiMap) (bank : Bank) : LmbState EfiMap :=
  (lmbAdd (efiMapUpdateNotify windowsBoot bank.calloc) bank.grows lmb bank.base bank.size).2

/-- The state before any bank is added. -/
def bootSetup : LmbState EfiMap := lmbSetup false ⟨[], 0⟩

end Runs

end TachyonBoot.Efi
