/-
This file models the region lists of `lib/lmb.c` and the low-level functions
that work on them.

A list is a `struct alist` of regions. Addresses, sizes and flags keep the
machine widths of the source, so every sum and difference wraps exactly where
the C expression does. The array and its count are one Lean list; the capacity
and the failure flag of the list are kept beside it, and whether the one
allocation a call may make succeeds is an argument of the call.
-/

import Mathlib.Algebra.Order.Ring.Nat
import Mathlib.Data.List.DropRight
import TachyonBoot.Library.Spans

namespace TachyonBoot.Lmb

open Library

/-! ### Regions and their lists -/

structure LmbRegion where
  base : UInt64
  size : UInt64
  flags : UInt32
deriving DecidableEq, Repr, Inhabited

/-- `LMB_NONE`: no special request. -/
def lmbNone : UInt32 := 0

/-- `LMB_NOMAP`: do not add to the MMU configuration. -/
def lmbNomap : UInt32 := 1

/-- `LMB_NOOVERWRITE`: the region cannot be overwritten or reserved again. -/
def lmbNooverwrite : UInt32 := 2

/-- `LMB_NONOTIFY`: do not notify other modules of changes to the region. -/
def lmbNonotify : UInt32 := 4

def eexist : Int := 17

/-- `struct alist`, holding regions. The element count is the length of `data`. -/
structure Alist where
  data : List LmbRegion
  alloc : Nat
  fail : Bool
deriving DecidableEq, Repr

/-- `alist_init()` with `LMB_ALIST_INITIAL_SIZE` slots. -/
def alistInit : Alist := { data := [], alloc := 4, fail := false }

def alistFull (lst : Alist) : Bool := lst.data.length == lst.alloc

/-- `alist_expand_by()`. The new capacity is stored in sixteen bits; a failed allocation
leaves the list dead. -/
def alistExpandBy (grows : Bool) (lst : Alist) (incBy : Nat) : Bool × Alist :=
  if lst.fail then (false, lst)
  else if grows then (true, { lst with alloc := (lst.alloc + incBy) % 2 ^ 16 })
  else (false, { lst with fail := true })

/-! ### Address arithmetic -/

def lmbAddrsOverlap (base1 size1 base2 size2 : UInt64) : Bool :=
  let base1End := base1 + size1 - 1
  let base2End := base2 + size2 - 1
  decide (base1 ≤ base2End) && decide (base2 ≤ base1End)

/-- `lmb_addrs_adjacent()`: positive when the second range starts where the first one ends,
negative when it ends where the first one starts. -/
def lmbAddrsAdjacent (base1 size1 base2 size2 : UInt64) : Int :=
  if base2 = base1 + size1 then 1
  else if base1 = base2 + size2 then -1
  else 0

def lmbRegionsOverlap (rgn : List LmbRegion) (r1 r2 : Nat) : Bool :=
  lmbAddrsOverlap rgn[r1]!.base rgn[r1]!.size rgn[r2]!.base rgn[r2]!.size

def lmbRegionsAdjacent (rgn : List LmbRegion) (r1 r2 : Nat) : Int :=
  lmbAddrsAdjacent rgn[r1]!.base rgn[r1]!.size rgn[r2]!.base rgn[r2]!.size

/-! ### Editing a list -/

/-- `lmb_remove_region()`: close the gap and drop the last slot. -/
def lmbRemoveRegion (rgn : List LmbRegion) (r : Nat) : List LmbRegion := rgn.eraseIdx r

def lmbCoalesceRegions (rgn : List LmbRegion) (r1 r2 : Nat) : List LmbRegion :=
  lmbRemoveRegion
    (rgn.modify r1 fun region => { region with size := region.size + rgn[r2]!.size }) r2

/-- `lmb_fix_over_lap_regions()`: the first region takes over the end of the second one,
unless it already reaches beyond it. -/
def lmbFixOverLapRegions (rgn : List LmbRegion) (r1 r2 : Nat) : List LmbRegion :=
  let base1 := rgn[r1]!.base
  let size1 := rgn[r1]!.size
  let base2 := rgn[r2]!.base
  let size2 := rgn[r2]!.size
  if base1 + size1 > base2 + size2 then rgn
  else lmbRemoveRegion
    (rgn.modify r1 fun region => { region with size := base2 + size2 - base1 }) r2

/-- The counting loop of `lmb_resize_regions()` over the regions from index `idx` on: how many
of them the range overlaps and the last index that does, or nothing if one of them has
flags. -/
def lmbCountOverlaps (base size : UInt64) : List LmbRegion → Nat → Nat → Nat → Option (Nat × Nat)
  | [], _, rgnCnt, idxEnd => some (rgnCnt, idxEnd)
  | region :: rest, idx, rgnCnt, idxEnd =>
    if lmbAddrsOverlap base size region.base region.size then
      if region.flags ≠ lmbNone then none
      else lmbCountOverlaps base size rest (idx + 1) (rgnCnt + 1) idx
    else lmbCountOverlaps base size rest (idx + 1) rgnCnt idxEnd

/-- The loop that removes the merged regions: `count` times the region at the index. -/
def lmbRemoveRegions (rgn : List LmbRegion) (r : Nat) : Nat → List LmbRegion
  | 0 => rgn
  | count + 1 => lmbRemoveRegions (lmbRemoveRegion rgn r) r count

/-- `lmb_resize_regions()`: grow the region at `idxStart` over the range and over every
region the range overlaps. -/
def lmbResizeRegions (rgn : List LmbRegion) (idxStart : Nat) (base size : UInt64) :
    Option (List LmbRegion) :=
  match lmbCountOverlaps base size (rgn.drop idxStart) idxStart 0 idxStart with
  | none => none
  | some (rgnCnt, idxEnd) =>
    let rgnbase := rgn[idxStart]!.base
    let mergebase := if base < rgnbase then base else rgnbase
    let rgnend := rgn[idxEnd]!.base + rgn[idxEnd]!.size
    let mergeend := if rgnend > base + size then rgnend else base + size
    let resized := rgn.modify idxStart fun region =>
      { region with base := mergebase, size := mergeend - mergebase }
    some (lmbRemoveRegions resized (idxStart + 1) (rgnCnt - 1))

/-! ### Adding a range -/

/-- The loop of `lmb_add_region_flags()` stops at this region: it is adjacent to the range or
overlaps it. -/
def lmbTouches (base size : UInt64) (region : LmbRegion) : Bool :=
  lmbAddrsAdjacent base size region.base region.size != 0 ||
    lmbAddrsOverlap base size region.base region.size

/-- The first loop of `lmb_add_region_flags()`: the list after the attempt to coalesce the range
with the first region it touches, the index of that region, and the number of coalescings; or the
error. -/
def lmbCoalesceFirst (rgn : List LmbRegion) (base size : UInt64) (flags : UInt32) :
    Except Int (List LmbRegion × Nat × Nat) :=
  let i := rgn.findIdx (lmbTouches base size)
  match rgn[i]? with
  | none => .ok (rgn, i, 0)
  | some region =>
    let ret := lmbAddrsAdjacent base size region.base region.size
    if 0 < ret then
      if flags ≠ region.flags then .ok (rgn, i, 0)
      else .ok (rgn.set i { region with base := region.base - size, size := region.size + size },
        i, 1)
    else if ret < 0 then
      if flags ≠ region.flags then .ok (rgn, i, 0)
      else .ok (rgn.set i { region with size := region.size + size }, i, 1)
    else if flags ≠ lmbNone then .error (-eexist)
    else
      match lmbResizeRegions rgn i base size with
      | none => .error (-1)
      | some resized => .ok (resized, i, 1)

/-- The step of `lmb_add_region_flags()` after the loop: merge the region at the index with
the one that follows it. -/
def lmbCoalesceNext (rgn : List LmbRegion) (i coalesced : Nat) : List LmbRegion × Nat :=
  if i + 1 < rgn.length then
    if rgn[i]!.flags = rgn[i + 1]!.flags then
      if lmbRegionsAdjacent rgn i (i + 1) ≠ 0 then
        (lmbCoalesceRegions rgn i (i + 1), coalesced + 1)
      else if lmbRegionsOverlap rgn i (i + 1) then
        (lmbFixOverLapRegions rgn i (i + 1), coalesced + 1)
      else (rgn, coalesced)
    else (rgn, coalesced)
  else (rgn, coalesced)

/-- The insertion loop: from the end, regions that start above the range move up one slot. -/
def lmbInsertRegion (rgn : List LmbRegion) (region : LmbRegion) : List LmbRegion :=
  rgn.rdropWhile (fun other => decide (region.base < other.base)) ++
    region :: rgn.rtakeWhile (fun other => decide (region.base < other.base))

/-- The end of `lmb_add_region_flags()`: grow a full list, then add the range to the sorted
table. The count of the list is stored in sixteen bits. -/
def lmbAddToTable (grows : Bool) (lst : Alist) (region : LmbRegion) : Int × Alist :=
  let (grown, lst) := if alistFull lst then alistExpandBy grows lst lst.alloc else (true, lst)
  if grown then
    let rgn := lmbInsertRegion lst.data region
    (0, { lst with data := rgn.take (rgn.length % 2 ^ 16) })
  else (-1, lst)

def lmbAddRegionFlags (grows : Bool) (lst : Alist) (base size : UInt64) (flags : UInt32) :
    Int × Alist :=
  if lst.fail then (-1, lst)
  else
    match lmbCoalesceFirst lst.data base size flags with
    | .error ret => (ret, lst)
    | .ok (rgn, i, coalesced) =>
      let (rgn, coalesced) := lmbCoalesceNext rgn i coalesced
      if coalesced ≠ 0 then (0, { lst with data := rgn })
      else lmbAddToTable grows lst ⟨base, size, flags⟩

/-! ### Removing a range -/

/-- `_lmb_free()`. -/
def lmbFreeRegion (grows : Bool) (lst : Alist) (base size : UInt64) : Int × Alist :=
  let stop := base + size - 1
  let i := lst.data.findIdx fun region =>
    decide (region.base ≤ base) && decide (stop ≤ region.base + region.size - 1)
  match lst.data[i]? with
  | none => (-1, lst)
  | some region =>
    let rgnbegin := region.base
    let rgnend := region.base + region.size - 1
    if rgnbegin = base ∧ rgnend = stop then
      (0, { lst with data := lmbRemoveRegion lst.data i })
    else if rgnbegin = base then
      (0, { lst with
        data := lst.data.set i { region with base := stop + 1, size := region.size - size } })
    else if rgnend = stop then
      (0, { lst with data := lst.data.set i { region with size := region.size - size } })
    else
      -- the tail of the split region is added as a range of its own
      let shrunk := { lst with
        data := lst.data.set i { region with size := base - region.base } }
      lmbAddRegionFlags grows shrunk (stop + 1) (rgnend - stop) region.flags

/-- `lmb_overlaps_region()`: the index of the first region the range overlaps. -/
def lmbOverlapsRegion (rgn : List LmbRegion) (base size : UInt64) : Option Nat :=
  rgn.findIdx? fun region => lmbAddrsOverlap base size region.base region.size

end TachyonBoot.Lmb
