/-
This file models the environment hash table of `lib/hashtable.c`: creation,
search with insertion and overwriting, and deletion.

The table is an array indexed from one; a slot is free, deleted, or holds an
entry together with the first hash value of its key. The permission check and
the callback of a variable are policies handed to each call, so that any single
operation may be rejected. Whether a plain `char` is signed is up to the
compiler, so the value of a key byte in the hash is a parameter.
-/

import Mathlib.Algebra.Order.Ring.Nat
import Mathlib.Logic.Function.Basic
import TachyonBoot.Library.Probe

namespace TachyonBoot.Env

open Library

/-! ### Data -/

/-- The bytes of a C string before its terminator. -/
abbrev CString := List UInt8

/-- `struct env_entry`, without the callback and flags that only the policies read. -/
structure EnvEntry where
  key : CString
  data : CString
deriving DecidableEq, Repr

/-- `struct env_entry_node`: the field `used` is `USED_FREE`, `USED_DELETED` or the first hash
value of the key. -/
inductive Slot where
  | free
  | deleted
  | live (used : Nat) (entry : EnvEntry)
deriving DecidableEq, Repr

/-- `struct hsearch_data`. -/
structure HTab where
  size : Nat
  filled : Nat
  table : Nat → Slot

inductive EnvOp where
  | create
  | delete
  | overwrite
deriving DecidableEq, Repr

/-- `enum env_action`, with the value an `ENV_ENTER` brings along. -/
inductive EnvAction where
  | find
  | enter (data : CString)
deriving DecidableEq, Repr

/-- `change_ok` and the callback of an entry. A non-zero result rejects the operation. -/
structure Policy where
  changeOk : EnvEntry → Option CString → EnvOp → Int → Int
  callback : EnvEntry → CString → Option CString → EnvOp → Int → Int

def eperm : Int := 1

def enoent : Int := 2

def esrch : Int := 3

def enomem : Int := 12

def einval : Int := 22

/-! ### Creation -/

/-- The loop of `isprime()`: the first odd divisor candidate at which it stops. -/
def isprimeLoop (number : Nat) : Nat → Nat → Nat
  | 0, div => div
  | fuel + 1, div =>
    if div * div < number ∧ number % div ≠ 0 then isprimeLoop number fuel (div + 2) else div

def isprime (number : Nat) : Bool := number % isprimeLoop number number 3 != 0

/-- The loop of `hcreate_r()` that looks for a prime. -/
def hcreateLoop : Nat → Nat → Option Nat
  | 0, _ => none
  | fuel + 1, nel => if isprime nel then some nel else hcreateLoop fuel (nel + 2)

/-- `hcreate_r()` with a successful allocation. -/
def hcreateR (nel : Nat) : Option HTab :=
  (hcreateLoop (nel + 1) (nel ||| 1)).map fun size =>
    { size, filled := 0, table := fun _ => .free }

/-! ### Search -/

/-- What `hsearch_r()` returns and sets: the index or zero, the entry, the error number, and
the table. -/
structure SearchResult where
  ret : Nat
  retval : Option EnvEntry
  errno : Option Int
  htab : HTab

def searchError (errno : Int) (htab : HTab) : SearchResult :=
  { ret := 0, retval := none, errno := some errno, htab }

/-- A search that ends at a slot. -/
def searchFound (ret : Nat) (entry : EnvEntry) (htab : HTab) : SearchResult :=
  { ret, retval := some entry, errno := none, htab }

def HTab.setSlot (htab : HTab) (idx : Nat) (slot : Slot) : HTab :=
  { htab with table := Function.update htab.table idx slot }

/-- `_hdelete()`. -/
def hdeleteSlot (htab : HTab) (idx : Nat) : HTab :=
  { htab.setSlot idx .deleted with filled := htab.filled - 1 }

/-- The part of `_compare_and_overwrite_entry()` for the entry of the key. -/
def overwriteEntry (policy : Policy) (key : CString) (action : EnvAction) (htab : HTab) (flag : Int)
    (hval idx : Nat) (entry : EnvEntry) : SearchResult :=
  match action with
  | .find => searchFound idx entry htab
  | .enter data =>
    if policy.changeOk entry (some data) .overwrite flag ≠ 0 then searchError eperm htab
    else if policy.callback entry key (some data) .overwrite flag ≠ 0 then searchError einval htab
    else searchFound idx { entry with data } (htab.setSlot idx (.live hval { entry with data }))

/-- `_compare_and_overwrite_entry()`. No result means to keep searching. -/
def compareAndOverwriteEntry (policy : Policy) (key : CString) (action : EnvAction) (htab : HTab)
    (flag : Int) (hval idx : Nat) : Option SearchResult :=
  match htab.table idx with
  | .live used entry =>
    if used = hval ∧ key = entry.key then
      some (overwriteEntry policy key action htab flag hval idx entry)
    else none
  | _ => none

/-- Where the probing loop of `hsearch_r()` ends: inside with a result, or outside with the
last index and the first deleted slot, zero if there was none. -/
inductive ProbeEnd where
  | returned (result : SearchResult)
  | left (idx firstDeleted : Nat)

/-- The probing loop of `hsearch_r()`. There is no result when the fuel runs out. -/
def hsearchLoop (policy : Policy) (key : CString) (action : EnvAction) (htab : HTab) (flag : Int)
    (hval hval2 : Nat) : Nat → Nat → Nat → Option ProbeEnd
  | 0, _, _ => none
  | fuel + 1, idx, firstDeleted =>
    let idx := stepDown htab.size hval2 idx
    if idx = hval then some (.left idx firstDeleted)
    else
      let firstDeleted :=
        if htab.table idx = .deleted ∧ firstDeleted = 0 then idx else firstDeleted
      match compareAndOverwriteEntry policy key action htab flag hval idx with
      | some result => some (.returned result)
      | none =>
        if htab.table idx ≠ .free then
          hsearchLoop policy key action htab flag hval hval2 fuel idx firstDeleted
        else some (.left idx firstDeleted)

/-- The end of `hsearch_r()`, when the key was not found. -/
def hsearchInsert (policy : Policy) (key : CString) (action : EnvAction) (htab : HTab) (flag : Int)
    (hval idx firstDeleted : Nat) : SearchResult :=
  match action with
  | .find => searchError esrch htab
  | .enter data =>
    if htab.filled = htab.size then searchError enomem htab
    else
      let idx := if firstDeleted ≠ 0 then firstDeleted else idx
      let entry : EnvEntry := { key, data }
      let htab := { htab.setSlot idx (.live hval entry) with filled := htab.filled + 1 }
      if policy.changeOk entry (some data) .create flag ≠ 0 then
        searchError eperm (hdeleteSlot htab idx)
      else if policy.callback entry key (some data) .create flag ≠ 0 then
        searchError einval (hdeleteSlot htab idx)
      else searchFound 1 entry htab

section Hash

variable (charValue : UInt8 → UInt32)

/-- The hash of a key before reduction: the length, then the bytes from the last to the
first. -/
def hashKey (key : CString) : UInt32 :=
  let len := UInt32.ofNat key.length
  (key.take len.toNat).foldr (fun char hval => (hval <<< 4) + charValue char) len

/-- The first hash function: the remainder, but not zero. -/
def hashIndex (size : Nat) (key : CString) : Nat :=
  let hval := (hashKey charValue key).toNat % size
  if hval = 0 then 1 else hval

/-- The second hash function, the stride of the probing. -/
def hashStride (size hval : Nat) : Nat := 1 + hval % (size - 2)

def hsearchR (policy : Policy) (key : CString) (action : EnvAction) (htab : HTab) (flag : Int) :
    Option SearchResult :=
  let hval := hashIndex charValue htab.size key
  if htab.table hval ≠ .free then
    let firstDeleted := if htab.table hval = .deleted then hval else 0
    match compareAndOverwriteEntry policy key action htab flag hval hval with
    | some result => some result
    | none =>
      match hsearchLoop policy key action htab flag hval (hashStride htab.size hval) htab.size hval
        firstDeleted with
      | none => none
      | some (.returned result) => some result
      | some (.left idx firstDeleted) =>
        some (hsearchInsert policy key action htab flag hval idx firstDeleted)
  else some (hsearchInsert policy key action htab flag hval hval 0)

/-! ### Deletion -/

/-- `hdelete_r()`: the return value and the table. -/
def hdeleteR (policy : Policy) (key : CString) (htab : HTab) (flag : Int) : Option (Int × HTab) :=
  match hsearchR charValue policy key .find htab 0 with
  | none => none
  | some result =>
    match result.retval with
    -- the index is zero exactly when there is no entry
    | none => some (-enoent, htab)
    | some entry =>
      if policy.changeOk entry none .delete flag ≠ 0 then some (-eperm, htab)
      else if policy.callback entry key none .delete flag ≠ 0 then some (-einval, htab)
      else some (0, hdeleteSlot htab result.ret)

end Hash

end TachyonBoot.Env
