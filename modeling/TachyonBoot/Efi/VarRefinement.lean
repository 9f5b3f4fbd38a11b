/-
This file proves that the variable store refines a finite map.

A store represents a map when the entries it holds have distinct keys and give
the map's values. A lookup leaves the map alone, an accepted insertion of a new
key and the deletion of a stored one update it. The length of a name is kept in
32 bits while it is inserted, so a name of `2 ^ 32 - 1` characters or more is cut;
in every run without such names the buffer behaves like the map.
-/

import TachyonBoot.Efi.VarOperations
import TachyonBoot.Library.Runs

namespace TachyonBoot.Efi

open Library List

/-! ### The map of a list of entries -/

/-- What the store is for: a value for some of the keys. -/
abbrev VarMap := EfiGuid × U16String → Option VarValue

/-- The map that a list of entries stands for. -/
def entriesMap (entries : List VarEntry) : VarMap := fun key =>
  (entries.find? fun entry => entry.key = key).map VarEntry.value

variable {entries : List VarEntry} {key : EfiGuid × U16String} {name : U16String} {guid : EfiGuid}

theorem find_key_eq_none :
    (entries.find? fun entry => entry.key = key) = none ↔ ∀ entry ∈ entries, entry.key ≠ key := by
  rw [find?_eq_none]
  simp only [decide_eq_true_eq, ne_eq]

theorem entriesMap_eq_none :
    entriesMap entries key = none ↔ ∀ entry ∈ entries, entry.key ≠ key := by
  rw [entriesMap, Option.map_eq_none_iff, find_key_eq_none]

theorem entriesMap_append (front back : List VarEntry) (key : EfiGuid × U16String) :
    entriesMap (front ++ back) key = (entriesMap front key).or (entriesMap back key) := by
  rw [entriesMap, find?_append, entriesMap, entriesMap]
  cases front.find? fun entry => entry.key = key <;> rfl

theorem entriesMap_cons_self (entry : VarEntry) (rest : List VarEntry) :
    entriesMap (entry :: rest) entry.key = some entry.value := by
  rw [entriesMap, find?_cons_of_pos (by simp)]
  rfl

theorem entriesMap_cons_of_ne {entry : VarEntry} (different : key ≠ entry.key)
    (rest : List VarEntry) :
    entriesMap (entry :: rest) key = entriesMap rest key := by
  rw [entriesMap, find?_cons_of_neg (by simp [different.symm]), entriesMap]

section Entries

variable {before after : List VarEntry} {entry : VarEntry}

section

variable (distinct : ((before ++ entry :: after).map VarEntry.key).Nodup)

include distinct

theorem other_keys_ne :
    ∀ other ∈ before ++ after, other.key ≠ entry.key := by
  intro other member same
  rw [map_append, map_cons, nodup_middle, nodup_cons,
    ← map_append] at distinct
  exact distinct.1 (same ▸ mem_map_of_mem member)

theorem entriesMap_split :
    entriesMap (before ++ entry :: after) entry.key = some entry.value := by
  have absent : entriesMap before entry.key = none :=
    entriesMap_eq_none.mpr fun other member =>
      other_keys_ne distinct other (mem_append_left _ member)
  rw [entriesMap_append, absent, Option.none_or, entriesMap_cons_self]

theorem entriesMap_remove :
    entriesMap (before ++ after) =
      Function.update (entriesMap (before ++ entry :: after)) entry.key none := by
  funext key
  by_cases same : key = entry.key
  · subst same
    rw [Function.update_self, entriesMap_eq_none]
    exact other_keys_ne distinct
  · rw [Function.update_of_ne same, entriesMap_append, entriesMap_append,
      entriesMap_cons_of_ne same]

end

theorem entriesMap_concat (absent : ∀ other ∈ entries, other.key ≠ entry.key) :
    entriesMap (entries ++ [entry]) =
      Function.update (entriesMap entries) entry.key (some entry.value) := by
  funext key
  rw [entriesMap_append]
  by_cases same : key = entry.key
  · subst same
    rw [Function.update_self, entriesMap_eq_none.mpr absent, Option.none_or, entriesMap_cons_self]
  · rw [Function.update_of_ne same, entriesMap_cons_of_ne same]
    exact Option.or_none

theorem distinct_remove (distinct : ((before ++ entry :: after).map VarEntry.key).Nodup) :
    ((before ++ after).map VarEntry.key).Nodup :=
  distinct.sublist (((sublist_cons_self entry after).append_left before).map _)

theorem distinct_concat (distinct : (entries.map VarEntry.key).Nodup)
    (absent : ∀ other ∈ entries, other.key ≠ entry.key) :
    ((entries ++ [entry]).map VarEntry.key).Nodup := by
  have new : entry.key ∉ entries.map VarEntry.key := fun member => by
    obtain ⟨old, oldMember, same⟩ := mem_map.mp member
    exact absent old oldMember same
  rw [map_append, map_singleton, ← concat_eq_append]
  exact distinct.concat new

end Entries

/-! ### Representation -/

/-- The store holds entries with distinct keys that stand for the map. -/
def Represents (bufSize : VarBufSize) (store : EfiVarStore) (map : VarMap) : Prop :=
  ∃ entries, Stores bufSize store entries ∧ (entries.map VarEntry.key).Nodup ∧
    entriesMap entries = map

/-- What the code reads at the pointer to a variable: its GUID, name, attributes, time and
data. -/
structure Carries (bufSize : VarBufSize) (mem : Memory) (var : Nat) (guid : EfiGuid)
    (name : U16String) (value : VarValue) : Prop where
  guid : varGuid mem var = guid.bytes
  name : mem.Holds (var + varEntrySize) (u16Bytes (name.chars ++ [0]))
  attr : varAttr mem var = value.attr
  time : varTime mem var = value.time
  data : ∃ data, varData mem bufSize var = .ok data ∧
    mem.read data (varLength mem var).toNat = value.data

theorem EntryAt.carries {bufSize : VarBufSize} {mem : Memory} {var : Nat} {entry : VarEntry}
    (stored : EntryAt mem var entry) (inside : var + entry.bytes.length ≤ bufSize.limit) :
    Carries bufSize mem var entry.guid entry.name entry.value := by
  refine ⟨stored.varGuid, stored.name, stored.varAttr, stored.varTime, _,
    stored.varData inside, ?_⟩
  rw [stored.varLength]
  exact stored.data.read

section Refinement

variable {bufSize : VarBufSize} {store : EfiVarStore} {map : VarMap}

theorem represents_init (bufSize : VarBufSize) :
    Represents bufSize efiVarMemInit (fun _ => none) :=
  ⟨[], efiVarMemInit_stores bufSize, nodup_nil, rfl⟩

section

variable (represents : Represents bufSize store map)

include represents

theorem Represents.find (guid : EfiGuid) (name : U16String) :
    ∃ found, efiVarMemFind bufSize store guid name = .ok found ∧
      Represents bufSize found.store map ∧ found.store.buf = store.buf ∧
      ((map (guid, name) = none ∧ found.var = none) ∨
        ∃ value var, map (guid, name) = some value ∧ found.var = some var ∧
          Carries bufSize store.buf.bytes var guid name value) := by
  obtain ⟨entries, stores, distinct, rfl⟩ := represents
  rcases stores.find guid name with
    ⟨before, entry, after, split, key, result⟩ | ⟨absent, next, result⟩
  · refine ⟨_, result, ⟨entries, stores.remember split, distinct, rfl⟩, rfl, .inr ?_⟩
    have carries := (stores.entryAt split).carries (stores.entry_inside split)
    have value := entriesMap_split (split ▸ distinct)
    rw [← split, key] at value
    obtain ⟨rfl, rfl⟩ := Prod.mk.inj key
    exact ⟨entry.value, _, value, rfl, carries⟩
  · exact ⟨_, result, ⟨entries, stores, distinct, rfl⟩, rfl,
      Or.inl ⟨entriesMap_eq_none.mpr absent, rfl⟩⟩

/-- An insertion of a new key adds it to the map when it fits, and is refused otherwise. -/
theorem Represents.ins {data1 data2 : List UInt8} (new : map (guid, name) = none)
    (named : name.chars ≠ []) (short : name.chars.length + 1 < 2 ^ 32)
    (small : data1.length + data2.length < 2 ^ 32) (attributes : UInt32) (time : UInt64) :
    (bufSize.size < insertEnd store name data1 data2 ∧
      efiVarMemIns bufSize store name guid attributes data1 data2 time =
        (.outOfResources, store)) ∨
    (insertEnd store name data1 data2 ≤ bufSize.size ∧
      ∃ longer, efiVarMemIns bufSize store name guid attributes data1 data2 time =
          (.success, longer) ∧
        Represents bufSize longer
          (Function.update map (guid, name) (some ⟨attributes, time, data1 ++ data2⟩))) := by
  obtain ⟨entries, stores, distinct, rfl⟩ := represents
  have absent := entriesMap_eq_none.mp new
  have noWrap : insertEnd store name data1 data2 < 2 ^ 64 := by
    have low := store.buf.length.toNat_lt
    rw [insertEnd, varEntrySize]
    omega
  rcases stores.ins named short noWrap guid attributes time with
    full | ⟨room, entry, longer, key, value, result, _, longerStores⟩
  · exact .inl full
  · rw [← key] at absent
    refine .inr ⟨room, longer, result, entries ++ [entry], longerStores,
      distinct_concat distinct absent, ?_⟩
    rw [← key, ← value]
    exact entriesMap_concat absent

theorem Represents.del {found : Found}
    (lookup : efiVarMemFind bufSize store guid name = .ok found) :
    ∃ shorter, efiVarMemDel bufSize store found.var = .ok shorter ∧
      Represents bufSize shorter (Function.update map (guid, name) none) := by
  obtain ⟨entries, stores, distinct, rfl⟩ := represents
  rcases stores.find guid name with
    ⟨before, entry, after, rfl, key, result⟩ | ⟨absent, next, result⟩
  · rw [lookup, Except.ok.injEq] at result
    subst result
    obtain ⟨shorter, deleted, shorterStores⟩ := stores.del rfl
    refine ⟨shorter, deleted, before ++ after, shorterStores, distinct_remove distinct, ?_⟩
    rw [← key]
    exact entriesMap_remove distinct
  · rw [lookup, Except.ok.injEq] at result
    subst result
    refine ⟨store, rfl, entries, stores, distinct, ?_⟩
    rw [Function.update_eq_self_iff.mpr (entriesMap_eq_none.mpr absent).symm]

end

variable (bufSize store) in
/-- The value that a lookup yields, as the code reads it. -/
def storedValue (key : EfiGuid × U16String) : Option VarValue :=
  match efiVarMemFind bufSize store key.1 key.2 with
  | .ok ⟨some var, _, _⟩ =>
    match varData store.buf.bytes bufSize var with
    | .ok data => some ⟨varAttr store.buf.bytes var, varTime store.buf.bytes var,
        store.buf.bytes.read data (varLength store.buf.bytes var).toNat⟩
    | .error _ => none
  | _ => none

theorem Represents.storedValue_eq (represents : Represents bufSize store map) :
    storedValue bufSize store = map := by
  funext key
  obtain ⟨found, result, _, _, ⟨new, missing⟩ | ⟨value, var, stored, pointer, carries⟩⟩ :=
    represents.find key.1 key.2
  · obtain ⟨var, next, after⟩ := found
    subst missing
    simp only [storedValue, result]
    exact new.symm
  · obtain ⟨pointed, next, after⟩ := found
    subst pointer
    obtain ⟨data, start, read⟩ := carries.data
    simp only [storedValue, result, start, read, carries.attr, carries.time]
    exact stored.symm

end Refinement

/-! ### Runs -/

/-- One call on the store. A deletion is given what a lookup of the key returns. -/
inductive VarCall where
  | find (guid : EfiGuid) (name : U16String)
  | ins (name : U16String) (guid : EfiGuid) (attributes : UInt32) (data1 data2 : List UInt8)
      (time : UInt64)
  | del (guid : EfiGuid) (name : U16String)

section Runs

variable (bufSize : VarBufSize)

/-- What a call leaves behind and whether it changed a variable, if it makes no bad access. -/
def varCall (store : EfiVarStore) : VarCall → Except Fault (EfiVarStore × Bool)
  | .find guid name =>
    (efiVarMemFind bufSize store guid name).map fun found => (found.store, false)
  | .ins name guid attributes data1 data2 time =>
    let (status, after) := efiVarMemIns bufSize store name guid attributes data1 data2 time
    .ok (after, status == .success)
  | .del guid name =>
    match efiVarMemFind bufSize store guid name with
    | .error fault => .error fault
    | .ok found =>
      (efiVarMemDel bufSize store found.var).map fun after => (after, found.var.isSome)

/-- The store after a call. -/
def varStep (store : EfiVarStore) (call : VarCall) : EfiVarStore :=
  match varCall bufSize store call with
  | .ok (after, _) => after
  | .error _ => store

/-- The call changes a variable: an insertion that succeeds, a deletion of a stored variable. -/
def varAccepts (store : EfiVarStore) (call : VarCall) : Bool :=
  match varCall bufSize store call with
  | .ok (_, accepted) => accepted
  | .error _ => false

/-- The calls of a run that changed a variable. -/
def acceptedVarCalls : EfiVarStore → List VarCall → List VarCall
  | _, [] => []
  | store, call :: rest =>
    let later := acceptedVarCalls (varStep bufSize store call) rest
    if varAccepts bufSize store call then call :: later else later

/-- What a call does to the map when it changes a variable. -/
def VarCall.apply (map : VarMap) : VarCall → VarMap
  | .find _ _ => map
  | .ins name guid attributes data1 data2 time =>
    Function.update map (guid, name) (some ⟨attributes, time, data1 ++ data2⟩)
  | .del guid name => Function.update map (guid, name) none

/-- What was inserted last for the key and not deleted since. -/
def lastInserted (key : EfiGuid × U16String) (calls : List VarCall) : Option VarValue :=
  calls.foldl VarCall.apply (fun _ => none) key

/-- The pointer that a lookup returns. -/
def varLookup (store : EfiVarStore) (guid : EfiGuid) (name : U16String) : Option Nat :=
  match efiVarMemFind bufSize store guid name with
  | .ok found => found.var
  | .error _ => none

/-- What a call must meet in the state it is made in: an insertion is one of a variable that is
not stored, with a name that is not empty, and its sizes fit their 32 bits. -/
def VarFits (store : EfiVarStore) : VarCall → Prop
  | .find _ _ | .del _ _ => True
  | .ins name guid _ data1 data2 _ =>
    varLookup bufSize store guid name = none ∧ name.chars ≠ [] ∧
      data1.length + data2.length < 2 ^ 32 ∧ name.chars.length + 1 < 2 ^ 32

instance instDecidableVarFits (store : EfiVarStore) (call : VarCall) :
    Decidable (VarFits bufSize store call) :=
  match call with
  | .find _ _ | .del _ _ => isTrue trivial
  | .ins _ _ _ _ _ _ => inferInstanceAs (Decidable (_ ∧ _ ∧ _ ∧ _))

variable {bufSize} {store : EfiVarStore} {map : VarMap}

theorem Represents.lookup_none (represents : Represents bufSize store map)
    (missing : varLookup bufSize store guid name = none) :
    map (guid, name) = none := by
  obtain ⟨found, result, _, _, ⟨new, _⟩ | ⟨_, var, _, stored, _⟩⟩ := represents.find guid name
  · exact new
  · simp only [varLookup, result, stored] at missing
    cases missing

theorem Represents.call (represents : Represents bufSize store map) {call : VarCall}
    (fits : VarFits bufSize store call) :
    ∃ after accepted, varCall bufSize store call = .ok (after, accepted) ∧
      Represents bufSize after (if accepted then call.apply map else map) := by
  cases call with
  | find guid name =>
    obtain ⟨found, result, same, _, _⟩ := represents.find guid name
    exact ⟨_, _, by rw [varCall, result]; rfl, same⟩
  | ins name guid attributes data1 data2 time =>
    obtain ⟨missing, named, small, short⟩ := fits
    rcases represents.ins (represents.lookup_none missing) named short small attributes time with
      ⟨_, refused⟩ | ⟨_, longer, accepted, longerRepresents⟩
    · exact ⟨_, _, by rw [varCall, refused], represents⟩
    · exact ⟨_, _, by rw [varCall, accepted], longerRepresents⟩
  | del guid name =>
    obtain ⟨found, result, _, _, outcome⟩ := represents.find guid name
    obtain ⟨shorter, deleted, shorterRepresents⟩ := represents.del result
    refine ⟨shorter, found.var.isSome, by simp only [varCall, result, deleted, Except.map], ?_⟩
    rcases outcome with ⟨new, missing⟩ | ⟨_, var, _, stored, _⟩
    · rw [Function.update_eq_self_iff.mpr new.symm] at shorterRepresents
      rw [missing]
      exact shorterRepresents
    · rw [stored]
      exact shorterRepresents

theorem Represents.step (represents : Represents bufSize store map) {call : VarCall}
    (fits : VarFits bufSize store call) :
    Represents bufSize (varStep bufSize store call)
      (if varAccepts bufSize store call then call.apply map else map) := by
  obtain ⟨after, accepted, result, stepped⟩ := represents.call fits
  simp only [varStep, varAccepts, result]
  exact stepped

/-- The refinement of a run: the store represents the map that the accepted calls leave. -/
theorem Represents.run (represents : Represents bufSize store map) {calls : List VarCall}
    (fits : Admissible (VarFits bufSize) (varStep bufSize) store calls) :
    Represents bufSize (runSteps (varStep bufSize) store calls)
      ((acceptedVarCalls bufSize store calls).foldl VarCall.apply map) := by
  induction calls generalizing store map with
  | nil => exact represents
  | cons call rest ih =>
    obtain ⟨fitsFirst, fitsRest⟩ := fits
    have stepped := ih (represents.step fitsFirst) fitsRest
    rw [runSteps_cons, acceptedVarCalls]
    cases accepted : varAccepts bufSize store call with
    | false => simpa only [accepted, Bool.false_eq_true, if_false] using stepped
    | true => simpa only [accepted, if_true, foldl_cons] using stepped

variable (bufSize)

/-- What it means for the store after a run to behave like a map: calls return, a lookup finds what
was inserted and not deleted since, an insertion is refused exactly for lack of room, and the buffer
is a sequence of entries, each at a multiple of eight, that ends at the length. -/
structure VarRefinesMap (calls : List VarCall) (store : EfiVarStore) : Prop where
  returns : ∀ call, VarFits bufSize store call → ∃ result, varCall bufSize store call = .ok result
  lookup : ∀ guid name, ∃ found, efiVarMemFind bufSize store guid name = .ok found ∧
    match lastInserted (guid, name) (acceptedVarCalls bufSize efiVarMemInit calls) with
    | none => found.var = none
    | some value => ∃ var, found.var = some var ∧
        Carries bufSize store.buf.bytes var guid name value
  refused : ∀ name guid attributes data1 data2 time,
    VarFits bufSize store (.ins name guid attributes data1 data2 time) →
      ((efiVarMemIns bufSize store name guid attributes data1 data2 time).1 ≠ .success ↔
        bufSize.size < insertEnd store name data1 data2)
  layout : ∃ entries, Laid store.buf.bytes varFileSize entries ∧
    entriesEnd varFileSize entries = store.buf.length.toNat ∧
    ∀ before entry after, entries = before ++ entry :: after →
      entriesEnd varFileSize before % 8 = 0

/-- The variable store refines a finite map in every run from its initialisation. -/
theorem varRun_refinesMap (calls : List VarCall)
    (fits : Admissible (VarFits bufSize) (varStep bufSize) efiVarMemInit calls) :
    VarRefinesMap bufSize calls (runSteps (varStep bufSize) efiVarMemInit calls) := by
  have represents := (represents_init bufSize).run fits
  refine ⟨fun call fitsCall => ?_, ?_, ?_, ?_⟩
  · obtain ⟨after, accepted, result, _⟩ := represents.call fitsCall
    exact ⟨_, result⟩
  · intro guid name
    obtain ⟨found, result, _, _, outcome⟩ := represents.find guid name
    refine ⟨found, result, ?_⟩
    rw [lastInserted]
    rcases outcome with ⟨new, missing⟩ | ⟨value, var, stored, pointer, carries⟩
    · rw [new]
      exact missing
    · rw [stored]
      exact ⟨var, pointer, carries⟩
  · intro name guid attributes data1 data2 time ⟨missing, named, small, short⟩
    rcases represents.ins (represents.lookup_none missing) named short small attributes time with
      ⟨full, refused⟩ | ⟨room, longer, accepted, _⟩
    · rw [refused]
      exact ⟨fun _ => full, fun _ => EfiStatus.noConfusion⟩
    · rw [accepted]
      exact ⟨fun failed => absurd rfl failed, fun full => absurd room (Nat.not_le.mpr full)⟩
  · obtain ⟨entries, stores, _, _⟩ := represents
    exact ⟨entries, stores.laid, stores.ends, fun before _ _ _ => entriesEnd_aligned rfl before⟩

/-- The smallest buffer that can be configured. -/
def smallestBuffer : VarBufSize := ⟨4096, by decide, by decide⟩

def zeroGuid : EfiGuid := ⟨List.replicate 16 0, rfl⟩

/-- Two variables are inserted, and the first one is deleted after the second was looked up. -/
def twoVariables : List VarCall :=
  [.ins ⟨[65], by decide⟩ zeroGuid 7 [1, 2] [3] 5, .ins ⟨[65, 66], by decide⟩ zeroGuid 3 [] [9] 0,
    .find zeroGuid ⟨[65, 66], by decide⟩, .del zeroGuid ⟨[65], by decide⟩]

theorem varRun_refinesMap_twoVariables :
    VarRefinesMap smallestBuffer twoVariables
      (runSteps (varStep smallestBuffer) efiVarMemInit twoVariables) :=
  varRun_refinesMap smallestBuffer twoVariables (by decide +kernel)

/-- The name of the given number of letters `a`. -/
def repeatedName (count : Nat) : U16String :=
  ⟨List.replicate count 97, fun member => absurd (eq_of_mem_replicate member) (by decide)⟩

/-- The outcome of inserting a variable with that name into the empty store. -/
def insertRepeated (count : Nat) : EfiStatus × EfiVarStore :=
  efiVarMemIns smallestBuffer efiVarMemInit (repeatedName count) zeroGuid 7 [] [] 0

/-- With a name of `2 ^ 32` letters the insertion succeeds, but the variable is not found, and one
that was never inserted is. -/
theorem insertRepeated_cut :
    (insertRepeated (2 ^ 32)).1 = .success ∧
      varLookup smallestBuffer (insertRepeated (2 ^ 32)).2 zeroGuid (repeatedName (2 ^ 32)) =
        none ∧
      varLookup smallestBuffer (insertRepeated (2 ^ 32)).2 zeroGuid (repeatedName 1) =
        some varFileSize := by
  have size : (repeatedName (2 ^ 32)).chars.length = 2 ^ 32 := length_replicate
  simp only [insertRepeated, efiVarMemIns, insertEntry, size]
  -- the length is rewritten before the rest is evaluated: only the first letters are looked at
  decide +kernel

end Runs

end TachyonBoot.Efi
