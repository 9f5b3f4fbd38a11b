/-
This file models the operations on the global memory map of `lib/lmb.c`.

The map is a list of available memory and a list of used memory. Every change
that succeeds is reported to a listener, which in the firmware is the EFI memory
map; here the listener is a parameter, so that what is proved about the lists
holds for any listener and the EFI loader can be plugged in later. The search of
an allocation is kept apart from its commitment: it reads both lists and changes
neither.
-/

import TachyonBoot.Lmb.Region
import TachyonBoot.Library.Runs

namespace TachyonBoot.Lmb

open Library

inductive LmbMapOp where
  | reserve
  | free
  | add
deriving DecidableEq, Repr

/-- `struct lmb`, with the state of the module that listens to its changes. -/
structure LmbState (Listener : Type) where
  availableMem : Alist
  usedMem : Alist
  test : Bool
  listener : Listener

/-- What a listener does with a change: the return value and its new state. -/
abbrev Notify (Listener : Type) :=
  Listener → UInt64 → UInt64 → LmbMapOp → UInt32 → Int × Listener

def lmbAllocAnywhere : UInt64 := 0

def alignDown (value align : UInt64) : UInt64 :=
  (value - (align - 1) + (align - 1)) &&& ~~~(align - 1)

/-! ### The search for a free range -/

/-- The candidate `_lmb_alloc_base()` starts from in one bank, if the bank qualifies. -/
def lmbBankCandidate (bank : LmbRegion) (size align maxAddr : UInt64) : Option UInt64 :=
  if bank.size < size then none
  else if maxAddr = lmbAllocAnywhere then some (alignDown (bank.base + bank.size - size) align)
  else if bank.base < maxAddr then
    let base := bank.base + bank.size
    let base := if base < bank.base then -1 else base
    let base := if base < maxAddr then base else maxAddr
    some (alignDown (base - size) align)
  else none

/-- The inner loop of `_lmb_alloc_base()`: lower the candidate below each reservation it overlaps.
The inner result is the free address; the outer one is missing when the fuel runs out. -/
def lmbSearchBank (used : List LmbRegion) (bank : LmbRegion) (size align : UInt64) :
    Nat → UInt64 → Option (Option UInt64)
  | 0, _ => none
  | fuel + 1, base =>
    if base ≠ 0 ∧ bank.base ≤ base then
      match lmbOverlapsRegion used base size with
      | none => some (some base)
      | some rgn =>
        let resBase := used[rgn]!.base
        if resBase < size then some none
        else lmbSearchBank used bank size align fuel (alignDown (resBase - size) align)
    else some none

/-- The outer loop of `_lmb_alloc_base()` over the banks in the order it visits them. -/
def lmbSearchBanks (used : List LmbRegion) (size align maxAddr : UInt64) :
    List LmbRegion → Option (Option UInt64)
  | [] => some none
  | bank :: rest =>
    match lmbBankCandidate bank size align maxAddr with
    | none => lmbSearchBanks used size align maxAddr rest
    | some base =>
      match lmbSearchBank used bank size align (used.length + 1) base with
      | none => none
      | some none => lmbSearchBanks used size align maxAddr rest
      | some (some found) => some (some found)

/-! ### The operations -/

section Operations

variable {Listener : Type} (notify : Notify Listener)

def lmbMapUpdateNotify (lmb : LmbState Listener) (addr size : UInt64) (op : LmbMapOp)
    (flags : UInt32) : Int × LmbState Listener :=
  if !lmb.test && flags &&& lmbNonotify == 0 then
    let (ret, listener) := notify lmb.listener addr size op flags
    (ret, { lmb with listener })
  else (0, lmb)

def lmbAdd (grows : Bool) (lmb : LmbState Listener) (base size : UInt64) :
    Int × LmbState Listener :=
  let (ret, availableMem) := lmbAddRegionFlags grows lmb.availableMem base size lmbNone
  let lmb := { lmb with availableMem }
  if ret ≠ 0 then (ret, lmb) else lmbMapUpdateNotify notify lmb base size .add lmbNone

def lmbFreeFlags (grows : Bool) (lmb : LmbState Listener) (base size : UInt64) (flags : UInt32) :
    Int × LmbState Listener :=
  let (ret, usedMem) := lmbFreeRegion grows lmb.usedMem base size
  let lmb := { lmb with usedMem }
  if ret < 0 then (ret, lmb) else lmbMapUpdateNotify notify lmb base size .free flags

def lmbFree (grows : Bool) (lmb : LmbState Listener) (base size : UInt64) :
    Int × LmbState Listener :=
  lmbFreeFlags notify grows lmb base size lmbNone

def lmbReserve (grows : Bool) (lmb : LmbState Listener) (base size : UInt64) (flags : UInt32) :
    Int × LmbState Listener :=
  let (ret, usedMem) := lmbAddRegionFlags grows lmb.usedMem base size flags
  let lmb := { lmb with usedMem }
  if ret ≠ 0 then (ret, lmb) else lmbMapUpdateNotify notify lmb base size .reserve flags

/-- `_lmb_alloc_base()`, which `lmb_alloc_base()` wraps with a message: the address, or zero.
A listener that fails has its return value handed out as the address. -/
def lmbAllocBase (grows : Bool) (lmb : LmbState Listener) (size align maxAddr : UInt64)
    (flags : UInt32) : UInt64 × LmbState Listener :=
  match lmbSearchBanks lmb.usedMem.data size align maxAddr lmb.availableMem.data.reverse with
  | some (some base) =>
    let (ret, usedMem) := lmbAddRegionFlags grows lmb.usedMem base size flags
    let lmb := { lmb with usedMem }
    if ret ≠ 0 then (0, lmb)
    else
      let (ret, lmb) := lmbMapUpdateNotify notify lmb base size .reserve flags
      if ret ≠ 0 then (UInt64.ofInt ret, lmb) else (base, lmb)
  | _ => (0, lmb)

/-- `io_lmb_alloc()`: the same search, without a bound, on a map of its own that nobody listens
to. -/
def ioLmbAlloc (grows : Bool) (ioLmb : LmbState Listener) (size align : UInt64) :
    UInt64 × LmbState Listener :=
  match lmbSearchBanks ioLmb.usedMem.data size align lmbAllocAnywhere
    ioLmb.availableMem.data.reverse with
  | some (some base) =>
    let (ret, usedMem) := lmbAddRegionFlags grows ioLmb.usedMem base size lmbNone
    let ioLmb := { ioLmb with usedMem }
    if ret < 0 then (0, ioLmb) else (base, ioLmb)
  | _ => (0, ioLmb)

def lmbAllocAddr (grows : Bool) (lmb : LmbState Listener) (base size : UInt64) (flags : UInt32) :
    Int × LmbState Listener :=
  match lmbOverlapsRegion lmb.availableMem.data base size with
  | none => (-1, lmb)
  | some rgn =>
    let bank := lmb.availableMem.data[rgn]!
    if lmbAddrsOverlap bank.base bank.size (base + size - 1) 1 then
      let (ret, lmb) := lmbReserve notify grows lmb base size flags
      if ret = 0 then (0, lmb) else (-1, lmb)
    else (-1, lmb)

/-! ### Runs -/

/-- One call of the module, with the outcome of the allocation it may make. -/
inductive LmbCall where
  | add (grows : Bool) (base size : UInt64)
  | reserve (grows : Bool) (base size : UInt64) (flags : UInt32)
  | allocBase (grows : Bool) (size align maxAddr : UInt64) (flags : UInt32)
  | allocAddr (grows : Bool) (base size : UInt64) (flags : UInt32)
  | free (grows : Bool) (base size : UInt64)
deriving DecidableEq, Repr

/-- The state after a call. -/
def lmbStep (lmb : LmbState Listener) : LmbCall → LmbState Listener
  | .add grows base size => (lmbAdd notify grows lmb base size).2
  | .reserve grows base size flags => (lmbReserve notify grows lmb base size flags).2
  | .allocBase grows size align maxAddr flags =>
    (lmbAllocBase notify grows lmb size align maxAddr flags).2
  | .allocAddr grows base size flags => (lmbAllocAddr notify grows lmb base size flags).2
  | .free grows base size => (lmbFree notify grows lmb base size).2

/-- `lmb_setup()`: two empty lists. -/
def lmbSetup (test : Bool) (listener : Listener) : LmbState Listener :=
  { availableMem := alistInit, usedMem := alistInit, test, listener }

end Operations

end TachyonBoot.Lmb
