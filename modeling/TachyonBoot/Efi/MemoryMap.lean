/-
This file models the memory map of `lib/efi_loader/efi_memory.c`.

The map is a list of descriptors in descending address order. Adding pages first
carves them out of the descriptors they overlap: the list is searched from its
head for an overlapping descriptor, that one is split, moved or removed, and the
search starts over. Then the new descriptor is appended, the list is sorted, and
touching descriptors of the same kind are merged. Both loops are bounded by a
fuel argument; a missing result stands for a loop that does not end.
-/

import Mathlib.Algebra.Order.Ring.Nat
import Mathlib.Data.List.Sort

namespace TachyonBoot.Efi

/-- The status codes of type `efi_status_t` that the modelled functions return. -/
inductive EfiStatus where
  | success
  | invalidParameter
  | outOfResources
  | noMapping
  | notFound
  | writeProtected
  | securityViolation
  | bufferTooSmall
  | unsupported
deriving DecidableEq, Repr

/-! ### Descriptors -/

def efiPageShift : UInt64 := 12

def efiPageMask : UInt64 := 0xfff

def efiReservedMemoryType : Int32 := 0

def efiBootServicesData : Int32 := 4

def efiRuntimeServicesCode : Int32 := 5

def efiRuntimeServicesData : Int32 := 6

def efiConventionalMemory : Int32 := 7

def efiMmapIo : Int32 := 11

def efiMaxMemoryType : Int32 := 16

def efiMemoryUc : UInt64 := 0x1

def efiMemoryWb : UInt64 := 0x8

def efiMemoryXp : UInt64 := 0x4000

def efiMemoryRuntime : UInt64 := 0x8000000000000000

structure EfiMemDesc where
  type : UInt32
  physicalStart : UInt64
  virtualStart : UInt64
  numPages : UInt64
  attr : UInt64
deriving DecidableEq, Repr

def descGetEnd (desc : EfiMemDesc) : UInt64 := desc.physicalStart + desc.numPages <<< efiPageShift

def efiMemCmp (mema memb : EfiMemDesc) : Int :=
  if mema.physicalStart = memb.physicalStart then 0
  else if mema.physicalStart < memb.physicalStart then 1
  else -1

/-- The order in which `list_sort()` puts two descriptors. -/
def Precedes (mema memb : EfiMemDesc) : Prop := efiMemCmp mema memb ≤ 0

instance : DecidableRel Precedes := fun mema memb =>
  inferInstanceAs (Decidable (efiMemCmp mema memb ≤ 0))

/-! ### Sorting and merging -/

/-- The lower descriptor ends where the upper one starts and is of the same kind. -/
def mergeable (prev cur : EfiMemDesc) : Bool :=
  descGetEnd cur == prev.physicalStart && prev.type == cur.type && prev.attr == cur.attr

/-- The upper descriptor takes over the pages of the lower one. -/
def absorb (prev cur : EfiMemDesc) : EfiMemDesc :=
  { prev with
    numPages := prev.numPages + cur.numPages
    physicalStart := prev.physicalStart - cur.numPages <<< efiPageShift
    virtualStart := prev.virtualStart - cur.numPages <<< efiPageShift }

/-- The walk of `efi_mem_sort()` behind a descriptor, up to the first merge: the list and the
position of `prevmem` after it, or nothing when there is none. -/
def mergeFrom (prev : EfiMemDesc) : List EfiMemDesc → Option (List EfiMemDesc × Nat)
  | [] => none
  | cur :: rest =>
    if mergeable prev cur then some (absorb prev cur :: rest, 0)
    else (mergeFrom cur rest).map fun result => (prev :: result.1, result.2 + 1)

/-- One pass of `efi_mem_sort()`. The first descriptor is compared with the one that `prevmem`
was left at by the pass before. -/
def mergePass (prevmem : Option Nat) : List EfiMemDesc → Option (List EfiMemDesc × Nat)
  | [] => none
  | first :: rest =>
    match prevmem with
    | none => mergeFrom first rest
    | some position =>
      let prev := (first :: rest).getD position first
      if mergeable prev first then
        some (((first :: rest).set position (absorb prev first)).tail, position - 1)
      else mergeFrom first rest

/-- The passes of `efi_mem_sort()`, until one merges nothing. -/
def mergeLoop : Nat → Option Nat → List EfiMemDesc → Option (List EfiMemDesc)
  | 0, _, _ => none
  | fuel + 1, prevmem, mem =>
    match mergePass prevmem mem with
    | none => some mem
    | some (mem, prevmem) => mergeLoop fuel (some prevmem) mem

/-- `efi_mem_sort()`. As `list_sort()` is stable, any stable sort gives its result. -/
def efiMemSort (mem : List EfiMemDesc) : Option (List EfiMemDesc) :=
  mergeLoop (mem.length + 1) none (mem.insertionSort Precedes)

/-! ### Carving -/

/-- What `efi_mem_carve_out()` does to a descriptor. -/
inductive CarveResult where
  | noOverlap
  | overlapsNonram
  | outOfResources
  /-- The descriptor is split in two; the new one comes first. -/
  | loopAgain (newmap map : EfiMemDesc)
  /-- Pages are removed, and what is left of the descriptor. -/
  | carved (pages : UInt64) (map : Option EfiMemDesc)
deriving DecidableEq, Repr

/-- `efi_mem_carve_out()`, with the outcome of its allocation. -/
def efiMemCarveOut (calloc : Bool) (map carveDesc : EfiMemDesc) (overlapConventional : Bool) :
    CarveResult :=
  let mapStart := map.physicalStart
  let mapEnd := mapStart + map.numPages <<< efiPageShift
  let carveStart := carveDesc.physicalStart
  let carveEnd := carveStart + carveDesc.numPages <<< efiPageShift
  if carveEnd ≤ mapStart ∨ mapEnd ≤ carveStart then .noOverlap
  else if overlapConventional ∧ map.type ≠ efiConventionalMemory.toUInt32 then .overlapsNonram
  else
    let carveStart := if carveStart < mapStart then mapStart else carveStart
    let carveEnd := if carveEnd < mapEnd then carveEnd else mapEnd
    if carveStart = mapStart then
      let left :=
        if mapEnd = carveEnd then none
        else some { map with
          physicalStart := carveEnd
          virtualStart := carveEnd
          numPages := (mapEnd - carveEnd) >>> efiPageShift }
      .carved ((carveEnd - carveStart) >>> efiPageShift) left
    else if !calloc then .outOfResources
    else
      .loopAgain
        { map with
          physicalStart := carveStart
          virtualStart := carveStart
          numPages := (mapEnd - carveStart) >>> efiPageShift }
        { map with numPages := (carveStart - mapStart) >>> efiPageShift }

/-- How one walk over the list in `efi_add_memory_map_pg()` ends. -/
inductive CarveRound where
  | finished
  | failed (status : EfiStatus)
  /-- The list was changed; this many pages were removed. -/
  | again (pages : UInt64) (mem : List EfiMemDesc)
deriving DecidableEq, Repr

/-- The walk goes on behind a descriptor. -/
def CarveRound.behind (map : EfiMemDesc) : CarveRound → CarveRound
  | .again pages mem => .again pages (map :: mem)
  | ends => ends

/-- One walk over the list: up to the first descriptor that overlaps. -/
def carveRound (calloc : Bool) (carveDesc : EfiMemDesc) (overlapConventional : Bool) :
    List EfiMemDesc → CarveRound
  | [] => .finished
  | lmem :: rest =>
    match efiMemCarveOut calloc lmem carveDesc overlapConventional with
    | .outOfResources => .failed .outOfResources
    | .overlapsNonram => .failed .noMapping
    | .noOverlap => (carveRound calloc carveDesc overlapConventional rest).behind lmem
    | .loopAgain newmap map => .again 0 (newmap :: map :: rest)
    | .carved pages map => .again pages (map.toList ++ rest)

/-- The carving loop of `efi_add_memory_map_pg()`: the number of carved pages or the error, and
the list. The oracle says which allocations succeed. -/
def carveLoop (calloc : Nat → Bool) (carveDesc : EfiMemDesc) (overlapConventional : Bool) :
    Nat → UInt64 → List EfiMemDesc → Option (Except EfiStatus UInt64 × List EfiMemDesc)
  | 0, _, _ => none
  | fuel + 1, carvedPages, mem =>
    match carveRound (calloc fuel) carveDesc overlapConventional mem with
    | .finished => some (.ok carvedPages, mem)
    | .failed status => some (.error status, mem)
    | .again pages mem =>
      carveLoop calloc carveDesc overlapConventional fuel (carvedPages + pages) mem

/-! ### Adding pages -/

/-- The memory map and the key that counts its changes. -/
structure EfiMap where
  mem : List EfiMemDesc
  memoryMapKey : UInt64
deriving DecidableEq, Repr

/-- The attribute a new descriptor gets. -/
def newAttribute (memoryType : Int32) (attr : UInt64) : UInt64 :=
  if attr ≠ 0 then attr
  else if memoryType = efiRuntimeServicesCode ∨ memoryType = efiRuntimeServicesData then
    efiMemoryWb ||| efiMemoryRuntime
  else if memoryType = efiMmapIo then efiMemoryRuntime
  else efiMemoryWb

/-- The descriptor that `efi_add_memory_map_pg()` adds. -/
def newDesc (start pages : UInt64) (memoryType : Int32) (attr : UInt64) : EfiMemDesc :=
  { type := memoryType.toUInt32
    physicalStart := start
    virtualStart := start
    numPages := pages
    attr := newAttribute memoryType attr }

/-- `efi_add_memory_map_pg()`. The oracle says which allocations succeed: the one of the new
descriptor first, then those of the carving loop. -/
def efiAddMemoryMapPg (calloc : Nat → Bool) (map : EfiMap) (start pages : UInt64)
    (memoryType : Int32) (overlapConventional : Bool) (attr : UInt64) :
    Option (EfiStatus × EfiMap) :=
  if efiMaxMemoryType ≤ memoryType then some (.invalidParameter, map)
  else if pages = 0 then some (.success, map)
  else
    let map := { map with memoryMapKey := map.memoryMapKey + 1 }
    if !calloc 0 then some (.outOfResources, map)
    else
      let newlist := newDesc start pages memoryType attr
      match carveLoop (fun round => calloc (round + 1)) newlist overlapConventional
        (2 * map.mem.length + 1) 0 map.mem with
      | none => none
      | some (.error status, mem) => some (status, { map with mem })
      | some (.ok carvedPages, mem) =>
        if overlapConventional ∧ carvedPages ≠ pages then some (.noMapping, { map with mem })
        else (efiMemSort (mem ++ [newlist])).map fun mem => (.success, { map with mem })

def efiCheckAllocated (map : EfiMap) (addr : UInt64) (mustBeAllocated : Bool) : EfiStatus :=
  match map.mem.find? fun item => item.physicalStart ≤ addr ∧ addr < descGetEnd item with
  | none => .notFound
  | some item =>
    if xor mustBeAllocated (item.type == efiConventionalMemory.toUInt32) then .success
    else .notFound

end TachyonBoot.Efi
