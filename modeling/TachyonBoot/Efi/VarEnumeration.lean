/-
This file models `efi_get_next_variable_name_mem()` and proves that it enumerates
the visible variables.

A call finds the variable that the previous call returned and goes on to the
entry behind it, past every entry whose attributes lack the mask. What is carried
through the calls is the list of entries that are still to come: a call takes the
first visible one off it. Since the keys are distinct the next call finds the
entry that was returned, and not an earlier one with its name.
-/

import TachyonBoot.Efi.VarFile

namespace TachyonBoot.Efi

open Library List

/-! ### Enumeration -/

/-- What `efi_get_next_variable_name_mem()` returns, with the values of `*variable_name_size`, the
name buffer and `*vendor`. -/
structure NextName where
  status : EfiStatus
  size : Nat
  name : Memory
  vendor : EfiGuid
  store : EfiVarStore

section Model

variable (bufSize : VarBufSize) (mask : UInt32)

/-- `efi_get_next_variable_name_mem()`, for at most the given number of passes from `skip` on. A
name without a terminator in the buffer is refused. -/
def efiGetNextVariableNameMem :
    Nat → EfiVarStore → Nat → Memory → EfiGuid → Except Fault NextName
  | 0, _, _, _, _ => .error .recursionTooDeep
  | passes + 1, store, size, name, vendor =>
    match readName name (size / 2) 0 with
    | .error _ => .ok ⟨.invalidParameter, size, name, vendor, store⟩
    | .ok previous =>
      match efiVarMemFind bufSize store vendor previous with
      | .error fault => .error fault
      | .ok found =>
        if found.var = none ∧ previous.chars ≠ [] then
          .ok ⟨.invalidParameter, size, name, vendor, found.store⟩
        else
          match found.next with
          | none => .ok ⟨.notFound, size, name, vendor, found.store⟩
          | some var =>
            let mem := found.store.buf.bytes
            match varData mem bufSize var with
            | .error fault => .error fault
            | .ok data =>
              let needed := data - (var + varEntrySize)
              if size < needed then .ok ⟨.bufferTooSmall, needed, name, vendor, found.store⟩
              else
                let name := name.write 0 (mem.read (var + varEntrySize) needed)
                let vendor := fileGuid mem var
                if mask ≠ 0 ∧ varAttr mem var &&& mask ≠ mask then
                  efiGetNextVariableNameMem passes found.store size name vendor
                else .ok ⟨.success, needed, name, vendor, found.store⟩

/-- What a caller learns from a call: the variable, or the status of the failure. -/
def NextName.answer (result : NextName) : Except EfiStatus (EfiGuid × U16String) :=
  match result.status, readName result.name (result.size / 2) 0 with
  | .success, .ok name => .ok (result.vendor, name)
  | status, _ => .error status

/-- The answers to a number of calls, each of which is given what the one before it left in the
name buffer and the vendor. The size of the name buffer is stated anew for each call. -/
def nextNames (passes size : Nat) :
    Nat → EfiVarStore → Memory → EfiGuid →
      Except Fault (List (Except EfiStatus (EfiGuid × U16String)))
  | 0, _, _, _ => .ok []
  | calls + 1, store, name, vendor =>
    match efiGetNextVariableNameMem bufSize mask passes store size name vendor with
    | .error fault => .error fault
    | .ok result =>
      (nextNames passes size calls result.store result.name result.vendor).map (result.answer :: ·)

/-- The calls from the empty name on return every variable that has the attributes of the mask,
each one once, and then report that there is none left. -/
def Enumerates (store : EfiVarStore) (size : Nat) : Prop :=
  ∀ passes, bufSize.limit ≤ passes → ∀ name vendor, readU16 name 0 = 0 →
    ∃ names : List (EfiGuid × U16String), names.Nodup ∧
      (∀ key, key ∈ names ↔
        ∃ value, storedValue bufSize store key = some value ∧ value.attr &&& mask = mask) ∧
      nextNames bufSize mask passes size (names.length + 1) store name vendor =
        .ok (names.map .ok ++ [.error .notFound])

end Model

/-! ### One call -/

section Calls

variable {bufSize : VarBufSize} {mask : UInt32} {store : EfiVarStore} {size : Nat} {name : Memory}
  {vendor : EfiGuid} {entries done rest : List VarEntry} {entry : VarEntry}

/-- The entry is shown under a mask. -/
def VarEntry.shown (mask : UInt32) (entry : VarEntry) : Bool := entry.attr &&& mask = mask

/-- The name buffer and the vendor lead to the entries that are left: the lookup succeeds, or is
of the empty name, and its successor is where these entries start. -/
def LeadsTo (bufSize : VarBufSize) (entries rest : List VarEntry) (size : Nat)
    (store : EfiVarStore) (name : Memory) (vendor : EfiGuid) : Prop :=
  ∃ done previous found, entries = done ++ rest ∧ readName name (size / 2) 0 = .ok previous ∧
    efiVarMemFind bufSize store vendor previous = .ok found ∧
    ¬ (found.var = none ∧ previous.chars ≠ []) ∧
    Stores bufSize found.store entries ∧
    found.next = belowLast found.store.buf.length.toNat (entriesEnd varFileSize done)

theorem leadsTo_empty (stores : Stores bufSize store entries) (two : 2 ≤ size)
    (empty : readU16 name 0 = 0) (vendor : EfiGuid) :
    LeadsTo bufSize entries entries size store name vendor := by
  obtain ⟨count, positive⟩ : ∃ count, size / 2 = count + 1 := ⟨size / 2 - 1, by omega⟩
  refine ⟨[], ⟨[], not_mem_nil⟩, _, rfl, ?_, rfl, fun both => both.2 rfl, stores, rfl⟩
  rw [positive, readName, dif_pos empty]

theorem leadsTo_entry (stores : Stores bufSize store entries)
    (distinct : (entries.map VarEntry.key).Nodup) (split : entries = done ++ entry :: rest)
    (holds : name.Holds 0 (u16Bytes (entry.name.chars ++ [0])))
    (room : 2 * (entry.name.chars.length + 1) ≤ size) :
    LeadsTo bufSize entries rest size store name entry.guid := by
  have read := @readName_eq (size / 2) name _ entry.name.noNul 0 holds (by omega)
  rcases stores.find entry.guid entry.name with
    ⟨before, other, after, otherSplit, key, result⟩ | ⟨absent, _⟩
  · -- with distinct keys the entry that is found is the one that was returned
    have notLeft : other ∉ done ++ rest := fun member =>
      other_keys_ne (split ▸ distinct) other member key
    obtain ⟨notDone, notRest⟩ := not_or.mp (mem_append.not.mp notLeft)
    obtain ⟨rfl, rfl, rfl⟩ := (append_cons_inj_of_notMem notDone notRest).mp
      (split.symm.trans otherSplit)
    refine ⟨done ++ [entry], entry.name, _, ?_, read, result, fun both => ?_,
      stores.remember split, rfl⟩
    · rw [split, append_assoc, singleton_append]
    · cases both.1
  · refine absurd rfl (absent entry ?_)
    rw [split]
    exact mem_append_right _ mem_cons_self

theorem LeadsTo.length_le (leads : LeadsTo bufSize entries rest size store name vendor) :
    rest.length ≤ entries.length := by
  obtain ⟨done, _, _, split, _⟩ := leads
  rw [split, length_append]
  omega

/-- Every name fits into the name buffer. -/
def NamesFit (entries : List VarEntry) (size : Nat) : Prop :=
  ∀ entry ∈ entries, 2 * (entry.name.chars.length + 1) ≤ size

/-- What a call leaves: none of the entries that were left is shown and nothing is found, or the
first one that is shown is returned and the rest is left. -/
inductive Answers (bufSize : VarBufSize) (mask : UInt32) (entries rest : List VarEntry)
    (size : Nat) (result : NextName) : Prop
  | finished (nothing : rest.filter (VarEntry.shown mask) = [])
    (answer : result.answer = .error .notFound)
  | returned (entry : VarEntry) (left : List VarEntry)
    (first : rest.filter (VarEntry.shown mask) = entry :: left.filter (VarEntry.shown mask))
    (answer : result.answer = .ok entry.key)
    (leads : LeadsTo bufSize entries left size result.store result.name result.vendor)

/-- One call, by induction on the entries that are left. -/
theorem LeadsTo.call (leads : LeadsTo bufSize entries rest size store name vendor)
    (distinct : (entries.map VarEntry.key).Nodup) (fit : NamesFit entries size) {passes : Nat}
    (enough : rest.length < passes) :
    ∃ result, efiGetNextVariableNameMem bufSize mask passes store size name vendor = .ok result ∧
      Answers bufSize mask entries rest size result := by
  induction rest generalizing store name vendor passes with
  | nil =>
    obtain ⟨done, previous, found, split, read, looked, named, stores, next⟩ := leads
    obtain ⟨passes, rfl⟩ := Nat.exists_eq_add_of_lt enough
    have last : found.next = none := by
      rw [append_nil] at split
      rw [next, belowLast, ← split, stores.ends, if_pos le_rfl]
    rw [efiGetNextVariableNameMem, read]
    simp only [looked, if_neg named, last]
    exact ⟨_, rfl, .finished rfl rfl⟩
  | cons entry rest ih =>
    obtain ⟨done, previous, found, split, read, looked, named, stores, next⟩ := leads
    rw [length_cons] at enough
    obtain ⟨passes, rfl⟩ := Nat.exists_eq_add_of_lt (Nat.zero_lt_of_lt enough)
    rw [Nat.zero_add] at enough ⊢
    have stored := stores.entryAt split
    have inside := stores.entry_inside split
    have further : found.next = some (entriesEnd varFileSize done) := by
      have behind := lt_align8_bytes (entriesEnd varFileSize done) entry
      have above := le_entriesEnd (align8 (entriesEnd varFileSize done + entry.bytes.length)) rest
      have ends := stores.ends
      rw [split, entriesEnd_append, entriesEnd_cons] at ends
      rw [next, belowLast, if_neg (by omega)]
    have member : entry ∈ entries := by
      rw [split]
      exact mem_append_right _ mem_cons_self
    have room := fit entry member
    have needed : entriesEnd varFileSize done + varEntrySize +
        2 * (entry.name.chars.length + 1) - (entriesEnd varFileSize done + varEntrySize) =
          2 * (entry.name.chars.length + 1) := Nat.add_sub_cancel_left _ _
    have copied := stored.name.read
    rw [length_u16Bytes, length_append, length_singleton] at copied
    have guid : fileGuid found.store.buf.bytes (entriesEnd varFileSize done) = entry.guid :=
      EfiGuid.eq_of_bytes stored.varGuid
    have holds := Memory.write_holds name 0 (u16Bytes (entry.name.chars ++ [0]))
    have leads := leadsTo_entry stores distinct split holds room
    rw [efiGetNextVariableNameMem, read]
    simp only [looked, if_neg named, further, stored.varData inside, needed,
      if_neg (Nat.not_lt.mpr room), copied, guid, stored.varAttr]
    by_cases shown : entry.attr &&& mask = mask
    · rw [if_neg fun both => both.2 shown]
      have first := @filter_cons_of_pos _ (VarEntry.shown mask) entry rest
        (decide_eq_true shown)
      refine ⟨_, rfl, .returned entry rest first ?_ leads⟩
      rw [NextName.answer]
      dsimp only
      rw [readName_eq entry.name.noNul holds (by omega)]
      rfl
    · have hidden : mask ≠ 0 := by
        rintro rfl
        exact shown UInt32.and_zero
      rw [if_pos ⟨hidden, shown⟩]
      obtain ⟨result, returned, answers⟩ :=
        ih leads (by omega : rest.length < passes)
      have skipped : (entry :: rest).filter (VarEntry.shown mask) =
          rest.filter (VarEntry.shown mask) := filter_cons_of_neg (by simpa [VarEntry.shown])
      refine ⟨result, returned, ?_⟩
      cases answers with
      | finished none answer => exact .finished (skipped.trans none) answer
      | returned other left first answer leads =>
        exact .returned other left (skipped.trans first) answer leads

/-! ### All calls -/

/-- The calls return the entries that are left and shown, and then nothing. -/
theorem LeadsTo.nextNames (leads : LeadsTo bufSize entries rest size store name vendor)
    (distinct : (entries.map VarEntry.key).Nodup) (fit : NamesFit entries size) {passes : Nat}
    (enough : entries.length < passes) {shown : List VarEntry}
    (shown_eq : rest.filter (VarEntry.shown mask) = shown) :
    nextNames bufSize mask passes size (shown.length + 1) store name vendor =
      .ok ((shown.map VarEntry.key).map .ok ++ [.error .notFound]) := by
  induction shown generalizing rest store name vendor with
  | nil =>
    obtain ⟨result, returned, answers⟩ := @LeadsTo.call _ mask _ _ _ _ _ _ leads distinct fit passes
      (leads.length_le.trans_lt enough)
    cases answers with
    | finished none answer =>
      rw [Efi.nextNames, returned]
      simp only [answer]
      rfl
    | returned other left first answer leads => rw [shown_eq] at first; cases first
  | cons entry shown ih =>
    obtain ⟨result, returned, answers⟩ := @LeadsTo.call _ mask _ _ _ _ _ _ leads distinct fit passes
      (leads.length_le.trans_lt enough)
    cases answers with
    | finished nothing answer => rw [shown_eq] at nothing; cases nothing
    | returned other left first answer leads =>
      rw [shown_eq] at first
      obtain ⟨rfl, rfl⟩ := List.cons.inj first
      rw [length_cons, Efi.nextNames, returned]
      simp only [answer, ih leads rfl]
      rfl

theorem entriesMap_eq_some {key : EfiGuid × U16String} {value : VarValue}
    (distinct : (entries.map VarEntry.key).Nodup) :
    entriesMap entries key = some value ↔
      ∃ entry ∈ entries, entry.key = key ∧ entry.value = value := by
  constructor
  · intro found
    obtain ⟨entry, first, rfl⟩ := Option.map_eq_some_iff.mp found
    have key_eq := find?_some first
    exact ⟨entry, mem_of_find?_eq_some first, of_decide_eq_true key_eq, rfl⟩
  · rintro ⟨entry, member, rfl, rfl⟩
    obtain ⟨before, after, rfl⟩ := append_of_mem member
    exact entriesMap_split distinct

theorem Represents.enumerates {map : VarMap} (represents : Represents bufSize store map)
    (two : 2 ≤ size)
    (room : ∀ key value, map key = some value → 2 * (key.2.chars.length + 1) ≤ size) :
    Enumerates bufSize mask store size := by
  have values := represents.storedValue_eq
  obtain ⟨entries, stores, distinct, rfl⟩ := represents
  intro passes many name vendor empty
  have fit : NamesFit entries size := fun entry member =>
    room entry.key entry.value ((entriesMap_eq_some distinct).mpr ⟨entry, member, rfl, rfl⟩)
  have enough : entries.length < passes := by
    have least := length_le_entriesEnd varFileSize entries
    have inside := stores.inside
    rw [stores.ends, varFileSize] at least
    omega
  refine ⟨(entries.filter (VarEntry.shown mask)).map VarEntry.key, ?_, fun key => ?_, ?_⟩
  · exact distinct.sublist (filter_sublist.map _)
  · rw [values, mem_map]
    constructor
    · rintro ⟨entry, member, rfl⟩
      obtain ⟨member, shown⟩ := mem_filter.mp member
      exact ⟨entry.value, (entriesMap_eq_some distinct).mpr ⟨entry, member, rfl, rfl⟩,
        of_decide_eq_true shown⟩
    · rintro ⟨value, stored, shown⟩
      obtain ⟨entry, member, key_eq, rfl⟩ := (entriesMap_eq_some distinct).mp stored
      exact ⟨entry, mem_filter.mpr ⟨member, decide_eq_true shown⟩, key_eq⟩
  · rw [length_map]
    exact (leadsTo_empty stores two empty vendor).nextNames distinct fit enough rfl

theorem Represents.names_le {map : VarMap} (represents : Represents bufSize store map)
    {key : EfiGuid × U16String} {value : VarValue} (stored : map key = some value) :
    2 * (key.2.chars.length + 1) ≤ bufSize.limit := by
  obtain ⟨entries, stores, distinct, rfl⟩ := represents
  obtain ⟨entry, member, rfl, rfl⟩ := (entriesMap_eq_some distinct).mp stored
  obtain ⟨before, after, split⟩ := append_of_mem member
  have inside := stores.entry_inside split
  rw [entry.length_bytes] at inside
  exact (by omega : 2 * (entry.name.chars.length + 1) ≤ bufSize.limit)

end Calls

/-- Every reachable store is enumerated, for every mask. -/
theorem enumerates_of_reachable {platform : VarPlatform} {depth : Nat} {state : VarState}
    (reachable : Reachable platform depth state) (mask : UInt32) {size : Nat} (two : 2 ≤ size)
    (room : ∀ key value, storedValue platform.bufSize state.store key = some value →
      2 * (key.2.chars.length + 1) ≤ size) :
    Enumerates platform.bufSize mask state.store size := by
  obtain ⟨map, represents⟩ := reachable.represents
  rw [represents.storedValue_eq] at room
  exact represents.enumerates two room

theorem enumerates_of_reachable_mixedState :
    Enumerates smallestBuffer 7 mixedState.store 4096 := by
  refine enumerates_of_reachable mixedState_reachable 7 (by decide) fun key value stored => ?_
  obtain ⟨map, represents⟩ := mixedState_reachable.represents
  rw [represents.storedValue_eq] at stored
  exact represents.names_le stored

/-- After two insertions of a name of `2 ^ 32` letters, both cut to one letter, the second call
returns the variable that the first one returned. -/
theorem insertedTwice_repeats :
    varLookup smallestBuffer efiVarMemInit zeroGuid (repeatedName (4294967295 + 1)) = none ∧
      varLookup smallestBuffer (insertedOnce (repeatedName (4294967295 + 1))) zeroGuid
        (repeatedName (4294967295 + 1)) = none ∧
      nextNames smallestBuffer 0 4096 4096 2 (insertedTwice (repeatedName (4294967295 + 1)))
          (fun _ => 0) zeroGuid =
        .ok [.ok (zeroGuid, repeatedName 1), .ok (zeroGuid, repeatedName 1)] := by
  obtain ⟨once, twice⟩ := insertedTwice_eq
  rw [once, twice]
  exact ⟨by decide +kernel, by decide +kernel, by decide +kernel⟩

end TachyonBoot.Efi
