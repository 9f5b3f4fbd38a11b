/-
This file models the variable file and proves that it restores what it was
written from.

The file is what `efi_var_collect_mem()` copies out of the store, and
`efi_var_restore()` of `lib/efi_loader/efi_var_file.c` inserts its entries one by
one. The writer advances by the aligned length of an entry and the reader by the
aligned end of its data; as every entry starts at a multiple of eight both walk
over the same entries. The store that a file is restored into has room for them,
because no entry ends later there than it did in the store it was copied from.
-/

import TachyonBoot.Efi.SetSemantics

namespace TachyonBoot.Efi

open Library List

/-! ### Restoring -/

def shimLockGuid : EfiGuid :=
  efiGuid 0x605dab50 0xe046 0x4300 [0xab, 0xb6, 0x3d, 0xd8, 0x10, 0xdd, 0x8b, 0x23] rfl

/-- The NUL-terminated string at an address, over at most the given number of characters. -/
def readName (mem : Memory) : Nat → Nat → Except Fault U16String
  | 0, _ => .error .outOfBounds
  | count + 1, address =>
    if isNul : readU16 mem address = 0 then .ok ⟨[], not_mem_nil⟩
    else (readName mem count (address + 2)).map fun rest =>
      ⟨readU16 mem address :: rest.chars, fun member =>
        (mem_cons.mp member).elim (fun same => isNul same.symm) rest.noNul⟩

/-- `var->guid` of an entry of a file. -/
def fileGuid (file : Memory) (var : Nat) : EfiGuid := ⟨varGuid file var, Memory.length_read _ _ _⟩

section Restore

variable (bufSize : VarBufSize)

/-- The loop of `efi_var_restore()` over a file in a buffer of the given size. -/
def restoreLoop (file : Memory) (room last : Nat) (safe : Bool) :
    Nat → Nat → EfiVarStore → Except Fault EfiVarStore
  | 0, _, _ => .error .outOfBounds
  | count + 1, var, store =>
    if var < last then
      match readName file ((room - (var + varEntrySize)) / 2) (var + varEntrySize) with
      | .error fault => .error fault
      | .ok name =>
        let data := var + varEntrySize + 2 * (name.chars.length + 1)
        let length := (varLength file var).toNat
        let next := align8 (data + length)
        -- secure-boot related and volatile variables are only restored from the preseed
        if safe = false ∧ (efiAuthVarGetType name (fileGuid file var) ≠ .none ∨
            fileGuid file var = shimLockGuid ∨
            varAttr file var &&& efiVariableNonVolatile = 0) then
          restoreLoop file room last safe count next store
        else if length = 0 then restoreLoop file room last safe count next store
        else
          match efiVarMemFind bufSize store (fileGuid file var) name with
          | .error fault => .error fault
          | .ok ⟨some _, _, store⟩ => restoreLoop file room last safe count next store
          | .ok ⟨none, _, store⟩ =>
            if room < data + length then .error .outOfBounds
            else
              let (_, store) := efiVarMemIns bufSize store name (fileGuid file var)
                (varAttr file var) (file.read data length) [] (varTime file var)
              restoreLoop file room last safe count next store
    else .ok store

/-- `efi_var_restore()` from a buffer of the given size. -/
def efiVarRestore (room : Nat) (buf : EfiVarFile) (safe : Bool) (store : EfiVarStore) :
    Except Fault (EfiStatus × EfiVarStore) :=
  if buf.reserved ≠ 0 ∨ buf.magic ≠ efiVarFileMagic then .ok (.invalidParameter, store)
  else if room < varFileSize + (buf.length - varFileSize.toUInt32).toNat then
    .error .outOfBounds
  else if buf.crc32 ≠ varCrc32 buf.bytes buf.length then .ok (.invalidParameter, store)
  else
    (restoreLoop bufSize buf.bytes room buf.length.toNat safe (room + 1) varFileSize store).map
      fun store => (.success, store)

end Restore

/-! ### What is collected -/

variable {start count : Nat} {entry : VarEntry} {entries : List VarEntry}

theorem align8_add (aligned : start % 8 = 0) (size : Nat) :
    align8 (start + size) = start + align8 size := by
  rw [align8, align8]
  omega

section Collect

variable {bufSize : VarBufSize} {mem : Memory}

theorem EntryAt.entryLen {var : Nat} (stored : EntryAt mem var entry)
    (inside : var + entry.bytes.length ≤ bufSize.limit) :
    efiVarEntryLen bufSize mem var = .ok (align8 entry.bytes.length).toUInt32 := by
  rw [efiVarEntryLen, stored.varData inside, entry.length_bytes]
  simp only [Except.map, stored.varLength]
  congr 3
  omega

theorem EntryAt.copied {var : Nat} (stored : EntryAt mem var entry) {file : Memory}
    {place size : Nat} (large : entry.bytes.length ≤ size)
    (holds : file.Holds place (mem.read var size)) : EntryAt file place entry := by
  refine entryAt_iff.mpr ((entryAt_iff.mp stored).shift fun index bound => ?_)
  exact holds index _ (Memory.getElem?_read mem var (bound.trans_le large))

/-- The entries whose attributes contain the mask. -/
def collected (mask : UInt32) (entries : List VarEntry) : List VarEntry :=
  entries.filter fun entry => entry.attr &&& mask = mask

theorem collectLoop_collects {last : Nat} (laid : Laid mem start entries)
    (ends : entriesEnd start entries = last) (inside : last ≤ bufSize.limit)
    (aligned : start % 8 = 0) (enough : entries.length < count) {mask : UInt32}
    {room : Option Nat} {length : UInt32} (lengthAligned : length.toNat % 8 = 0) {total : Nat}
    (total_eq : entriesEnd length.toNat (collected mask entries) = total) (small : total < 2 ^ 32)
    (copied : List UInt8) :
    ∃ result, collectLoop bufSize mem last mask room count start length copied =
        .ok (total.toUInt32, result) ∧
      ∀ size, room = some size → total ≤ size → ∃ more, result = copied ++ more ∧
        length.toNat + more.length = total ∧
        ∀ file : Memory, ∀ place, place % 8 = 0 → file.Holds place more →
          Laid file place (collected mask entries) := by
  induction entries generalizing start count length copied with
  | nil =>
    obtain ⟨count, rfl⟩ := Nat.exists_eq_add_of_lt enough
    rw [entriesEnd_nil] at ends
    have done : ¬ start < last := by omega
    obtain rfl : length.toNat = total := total_eq
    refine ⟨copied, ?_, fun _ _ _ =>
      ⟨[], (append_nil copied).symm, rfl, fun _ _ _ _ => trivial⟩⟩
    rw [collectLoop, if_neg done, show length.toNat.toUInt32 = length from UInt32.ofNat_toNat]
  | cons entry rest ih =>
    obtain ⟨stored, tail⟩ := laid
    have fits := (entry_le_entriesEnd start entry rest).trans (ends.le.trans inside)
    have further : start < last := by
      have behind := le_entriesEnd (align8 (start + entry.bytes.length)) rest
      have above := lt_align8_bytes start entry
      rw [entriesEnd_cons] at ends
      omega
    rw [length_cons] at enough
    obtain ⟨count, rfl⟩ := Nat.exists_eq_add_of_lt (Nat.lt_of_le_of_lt (Nat.zero_le _) enough)
    rw [entriesEnd_cons] at ends
    have lengthEntry : (align8 entry.bytes.length).toUInt32.toNat = align8 entry.bytes.length := by
      refine UInt32.toNat_ofNat_of_lt' ?_
      have bound := bufSize.limit_lt
      have behind := le_entriesEnd (align8 (start + entry.bytes.length)) rest
      rw [align8_add aligned] at behind ends
      show align8 entry.bytes.length < 2 ^ 32
      omega
    have next : align8 (start + entry.bytes.length) % 8 = 0 := by
      rw [align8]
      omega
    rw [Nat.zero_add, collectLoop, if_pos further, stored.entryLen fits]
    simp only [stored.varAttr, lengthEntry, ← align8_add aligned]
    by_cases selected : entry.attr &&& mask = mask
    · have kept : collected mask (entry :: rest) = entry :: collected mask rest := by
        rw [collected, filter_cons_of_pos (by simpa using selected)]
        rfl
      rw [kept, entriesEnd_cons, align8_add lengthAligned] at total_eq
      have below := le_entriesEnd (length.toNat + align8 entry.bytes.length)
        (collected mask rest)
      have sum : (length + (align8 entry.bytes.length).toUInt32).toNat =
          length.toNat + align8 entry.bytes.length := by
        rw [UInt32.toNat_add, lengthEntry, Nat.mod_eq_of_lt (by omega)]
      have sumAligned : (length + (align8 entry.bytes.length).toUInt32).toNat % 8 = 0 := by
        rw [sum, ← align8_add lengthAligned, align8]
        omega
      rw [if_neg (not_not.mpr selected)]
      obtain ⟨result, looped, complete⟩ := ih tail ends next
        (by omega : rest.length < count) sumAligned (sum ▸ total_eq)
        (if room.any fun size => decide
            ((length + (align8 entry.bytes.length).toUInt32).toNat ≤ size) then
          copied ++ mem.read start (align8 entry.bytes.length) else copied)
      refine ⟨result, looped, fun size given roomy => ?_⟩
      obtain ⟨more, result_eq, size_eq, laidMore⟩ := complete size given roomy
      have here : (room.any fun size => decide
          ((length + (align8 entry.bytes.length).toUInt32).toNat ≤ size)) = true := by
        rw [given, Option.any_some, decide_eq_true_eq, sum]
        omega
      rw [if_pos here, append_assoc] at result_eq
      refine ⟨_, result_eq, ?_, fun file place placeAligned holds => ?_⟩
      · rw [length_append, Memory.length_read]
        omega
      · rw [Memory.holds_append, Memory.length_read] at holds
        rw [kept]
        refine ⟨stored.copied (le_align8 _) holds.1, ?_⟩
        rw [align8_add placeAligned]
        refine laidMore file _ ?_ holds.2
        rw [← align8_add placeAligned, align8]
        omega
    · have left : collected mask (entry :: rest) = collected mask rest := by
        rw [collected, filter_cons_of_neg (by simpa using selected)]
        rfl
      rw [left] at total_eq ⊢
      rw [if_pos selected]
      exact ih tail ends next (by omega : rest.length < count) lengthAligned
        total_eq copied

end Collect

/-! ### What is restored -/

theorem readName_eq {mem : Memory} {chars : List UInt16} (noNul : 0 ∉ chars) {address : Nat}
    (holds : mem.Holds address (u16Bytes (chars ++ [0]))) (room : chars.length < count) :
    readName mem count address = .ok ⟨chars, noNul⟩ := by
  induction chars generalizing address count with
  | nil =>
    obtain ⟨first, _⟩ := holds_u16Bytes_cons holds
    obtain ⟨count, rfl⟩ := Nat.exists_eq_add_of_lt room
    rw [readName, dif_pos first]
  | cons char rest ih =>
    obtain ⟨first, tail⟩ := holds_u16Bytes_cons holds
    obtain ⟨different, restNoNul⟩ := not_or.mp (mem_cons.not.mp noNul)
    rw [length_cons] at room
    obtain ⟨count, rfl⟩ := Nat.exists_eq_add_of_lt room
    have notNul : ¬ readU16 mem address = 0 := fun zero => different (zero.symm.trans first)
    rw [readName, dif_neg notNul, ih restNoNul tail (by omega)]
    simp only [Except.map, first]

theorem EfiGuid.eq_of_bytes {first second : EfiGuid} (same : first.bytes = second.bytes) :
    first = second := by
  obtain ⟨bytes, size⟩ := first
  obtain ⟨otherBytes, otherSize⟩ := second
  obtain rfl : bytes = otherBytes := same
  rfl

theorem VarEntry.eq_of_key_value {first second : VarEntry} (key : first.key = second.key)
    (value : first.value = second.value) : first = second := by
  obtain ⟨guid, name, attr, time, data, small⟩ := first
  obtain ⟨otherGuid, otherName, otherAttr, otherTime, otherData, otherSmall⟩ := second
  obtain ⟨rfl, rfl⟩ := Prod.mk.inj key
  obtain ⟨rfl, rfl, rfl⟩ := VarValue.mk.inj value
  rfl

/-- The entries that have data. -/
def withData (entries : List VarEntry) : List VarEntry :=
  entries.filter fun entry => entry.data ≠ []

section Restored

variable {bufSize : VarBufSize} {file : Memory} {room : Nat}

/-- The entry that an insertion of an entry's contents appends is that entry. -/
theorem Stores.restore {store : EfiVarStore} {stored : List VarEntry}
    (stores : Stores bufSize store stored) (named : entry.name.chars ≠ [])
    (fits : Within bufSize.size varFileSize (stored ++ [entry])) :
    ∃ longer, efiVarMemIns bufSize store entry.name entry.guid entry.attr entry.data [] entry.time =
        (.success, longer) ∧ Stores bufSize longer (stored ++ [entry]) := by
  have ending : entriesEnd varFileSize stored + entry.bytes.length ≤ bufSize.size :=
    (within_append.mp fits).2.1
  have atMost := bufSize.atMost
  have size : insertEnd store entry.name entry.data [] =
      entriesEnd varFileSize stored + entry.bytes.length := by
    rw [insertEnd, ← stores.ends, entry.length_bytes, length_nil]
    omega
  have short : entry.name.chars.length + 1 < 2 ^ 32 := by
    rw [entry.length_bytes] at ending
    omega
  rcases stores.ins named short (by omega : insertEnd store entry.name entry.data [] < 2 ^ 64)
    entry.guid entry.attr entry.time with
    ⟨full, _⟩ | ⟨_, new, longer, key, value, result, _, longerStores⟩
  · omega
  · rw [append_nil] at value
    rw [@VarEntry.eq_of_key_value new entry key value] at longerStores
    exact ⟨longer, result, longerStores⟩

/-- The loop appends the entries of the file that have data, when none of them is stored yet and
there is room for all. -/
theorem restoreLoop_restores {last : Nat} (laid : Laid file start entries)
    (ends : entriesEnd start entries = last) (inside : last ≤ room)
    (enough : entries.length < count) {store : EfiVarStore} {stored : List VarEntry}
    (stores : Stores bufSize store stored) (named : ∀ entry ∈ entries, entry.name.chars ≠ [])
    (distinct : ((stored ++ withData entries).map VarEntry.key).Nodup)
    (fits : Within bufSize.size varFileSize (stored ++ withData entries)) :
    ∃ restored, restoreLoop bufSize file room last true count start store = .ok restored ∧
      Stores bufSize restored (stored ++ withData entries) := by
  induction entries generalizing start count store stored with
  | nil =>
    obtain ⟨count, rfl⟩ := Nat.exists_eq_add_of_lt enough
    rw [entriesEnd_nil] at ends
    have done : ¬ start < last := by omega
    refine ⟨store, by rw [restoreLoop, if_neg done], ?_⟩
    rw [withData, filter_nil, append_nil]
    exact stores
  | cons entry rest ih =>
    obtain ⟨there, tail⟩ := laid
    have entryInside := (entry_le_entriesEnd start entry rest).trans (ends.le.trans inside)
    rw [entry.length_bytes] at entryInside
    have further : start < last := by
      have behind := entry_le_entriesEnd start entry rest
      rw [entry.length_bytes, ends] at behind
      omega
    rw [length_cons] at enough
    obtain ⟨count, rfl⟩ := Nat.exists_eq_add_of_lt (Nat.lt_of_le_of_lt (Nat.zero_le _) enough)
    have name : readName file ((room - (start + varEntrySize)) / 2) (start + varEntrySize) =
        .ok entry.name := readName_eq entry.name.noNul there.name (by omega)
    have guid : fileGuid file start = entry.guid := EfiGuid.eq_of_bytes there.varGuid
    have next : align8 (start + varEntrySize + 2 * (entry.name.chars.length + 1) +
        entry.data.length) = align8 (start + entry.bytes.length) := by
      rw [entry.length_bytes]
      congr 1
      omega
    have restNamed := fun other member => named other (mem_cons_of_mem entry member)
    rw [entriesEnd_cons] at ends
    rw [Nat.zero_add, restoreLoop, if_pos further, name]
    simp only [there.varLength, guid, there.varAttr, there.varTime, next, Bool.true_eq_false,
      false_and, if_false]
    by_cases empty : entry.data = []
    · have skipped : withData (entry :: rest) = withData rest := by
        rw [withData, filter_cons_of_neg (by simpa using empty)]
        rfl
      rw [skipped] at distinct fits ⊢
      rw [if_pos (by rw [empty]; rfl)]
      exact ih tail ends (by omega : rest.length < count) stores restNamed
        distinct fits
    · have kept : withData (entry :: rest) = entry :: withData rest := by
        rw [withData, filter_cons_of_pos (by simpa using empty)]
        rfl
      rw [kept, append_cons] at distinct fits ⊢
      have data := there.data.read
      rw [if_neg (by simpa using empty)]
      rcases stores.find entry.guid entry.name with
        ⟨before, other, after, split, key, _⟩ | ⟨_, next, result⟩
      · -- no entry with the key is stored
        rw [map_append, map_append] at distinct
        have apart := (nodup_append.mp (nodup_append.mp distinct).1).2.2
        refine absurd rfl (apart other.key ?_ other.key ?_)
        · rw [split]
          exact mem_map_of_mem (mem_append_right _ mem_cons_self)
        · rw [key]
          exact mem_singleton_self entry.key
      · obtain ⟨longer, inserted, longerStores⟩ :=
          stores.restore (named entry mem_cons_self) (within_append.mp fits).1
        rw [result]
        simp only [data, inserted]
        rw [if_neg (by omega)]
        exact ih tail ends (by omega : rest.length < count) longerStores
          restNamed distinct fits

end Restored

/-! ### The round trip -/

/-- The variables that a file keeps: the non-volatile ones that have data. -/
def persistent (map : VarMap) : VarMap := fun key =>
  (map key).filter fun value =>
    value.attr &&& efiVariableNonVolatile = efiVariableNonVolatile ∧ value.data ≠ []

theorem entriesMap_filter (distinct : (entries.map VarEntry.key).Nodup) (keeps : VarValue → Bool)
    (key : EfiGuid × U16String) :
    entriesMap (entries.filter fun entry => keeps entry.value) key =
      (entriesMap entries key).filter keeps := by
  induction entries with
  | nil => rfl
  | cons entry rest ih =>
    rw [map_cons, nodup_cons] at distinct
    obtain ⟨new, restDistinct⟩ := distinct
    by_cases same : key = entry.key
    · subst same
      have absent : entriesMap (rest.filter fun entry => keeps entry.value) entry.key = none := by
        rw [entriesMap_eq_none]
        intro other member equal
        exact new (equal ▸ mem_map_of_mem (mem_of_mem_filter member))
      rw [entriesMap_cons_self, Option.filter_some]
      cases kept : keeps entry.value with
      | false => rw [filter_cons_of_neg (by simp [kept]), absent]; rfl
      | true => rw [filter_cons_of_pos (by simp [kept]), entriesMap_cons_self]; rfl
    · rw [entriesMap_cons_of_ne same, ← ih restDistinct]
      cases kept : keeps entry.value with
      | false => rw [filter_cons_of_neg (by simp [kept])]
      | true => rw [filter_cons_of_pos (by simp [kept]), entriesMap_cons_of_ne same]

/-- A collection of the non-volatile variables returns. When it succeeds, the file restores into
an empty store exactly those of them that have data; when the buffer is too small, the length
that it asks for is the least with which the call succeeds. -/
def FileRoundTrips (bufSize : VarBufSize) (store : EfiVarStore) : Prop :=
  ∀ hasBuf len, ∃ status length file,
    efiVarCollectMem bufSize store hasBuf len efiVariableNonVolatile =
      .ok (status, length, file) ∧
    (status = .success → ∃ written restored, file = some written ∧
      efiVarRestore bufSize len written true efiVarMemInit = .ok (.success, restored) ∧
      storedValue bufSize restored = persistent (storedValue bufSize store)) ∧
    (status = .bufferTooSmall → ∀ other,
      (∃ written, efiVarCollectMem bufSize store true other efiVariableNonVolatile =
        .ok (.success, length, some written)) ↔ length ≤ other)

section RoundTrip

variable {bufSize : VarBufSize} {store : EfiVarStore} {entries : List VarEntry}

/-- What a collection returns: the length of the entries it selects, and on success a file that
they are laid out in. -/
theorem Stores.collect (stores : Stores bufSize store entries) (mask : UInt32) {total : Nat}
    (total_eq : entriesEnd varFileSize (collected mask entries) = total) (hasBuf : Bool)
    (len : Nat) :
    (hasBuf = false ∧ total ≤ len ∧
      efiVarCollectMem bufSize store hasBuf len mask = .ok (.invalidParameter, total, none)) ∨
    ((hasBuf = false ∨ len < total) ∧
      efiVarCollectMem bufSize store hasBuf len mask = .ok (.bufferTooSmall, total, none)) ∨
    (hasBuf = true ∧ total ≤ len ∧ ∃ copied : List UInt8, varFileSize + copied.length = total ∧
      efiVarCollectMem bufSize store hasBuf len mask =
        .ok (.success, total, some ⟨0, efiVarFileMagic, total.toUInt32, crc32 0 copied,
          Memory.write (fun _ => 0) varFileSize copied⟩) ∧
      Laid (Memory.write (fun _ => 0) varFileSize copied) varFileSize
        (collected mask entries)) := by
  have inside := stores.inside
  have totalInside : total ≤ bufSize.limit := by
    have shorter := entriesEnd_filter_le (le_refl varFileSize) entries
      fun entry => entry.attr &&& mask = mask
    rw [stores.ends, ← collected, total_eq] at shorter
    exact shorter.trans inside
  have small := totalInside.trans_lt bufSize.limit_lt
  have enough : entries.length < bufSize.limit + 1 := by
    have least := length_le_entriesEnd varFileSize entries
    rw [stores.ends] at least
    omega
  have length : total.toUInt32.toNat = total := UInt32.toNat_ofNat_of_lt' small
  have loop (room : Option Nat) := @collectLoop_collects _ _ _ bufSize _ _ stores.laid stores.ends
    inside (by decide) enough mask room varFileSize.toUInt32 (by decide) _ total_eq small []
  simp only [efiVarCollectMem]
  cases hasBuf with
  | false =>
    obtain ⟨result, looped, _⟩ := loop none
    simp only [Bool.false_eq_true, if_false, looped, length, not_false_eq_true, true_and,
      true_or, if_true]
    by_cases fits : total ≤ len
    · exact .inl ⟨fits, if_pos fits⟩
    · exact .inr (.inl (if_neg fits))
  | true =>
    obtain ⟨result, looped, complete⟩ := loop (some len)
    simp only [if_true, looped, length, not_true_eq_false, false_and, false_or, if_false]
    by_cases fits : total ≤ len
    · obtain ⟨copied, result_eq, size, laid⟩ := complete len rfl fits
      rw [nil_append] at result_eq
      refine .inr (.inr ⟨trivial, fits, copied, size, ?_, ?_⟩)
      · rw [if_neg (Nat.not_lt.mpr fits), result_eq]
      · exact laid _ _ (by decide) (Memory.write_holds _ _ _)
    · exact .inr (.inl ⟨.inr (Nat.lt_of_not_le fits), if_pos (Nat.lt_of_not_le fits)⟩)

theorem Stores.restored (stores : Stores bufSize store entries)
    (distinct : (entries.map VarEntry.key).Nodup) {mask : UInt32} {len : Nat}
    {copied : List UInt8}
    (size : varFileSize + copied.length = entriesEnd varFileSize (collected mask entries))
    (fits : varFileSize + copied.length ≤ len)
    (laid : Laid (Memory.write (fun _ => 0) varFileSize copied) varFileSize
      (collected mask entries)) :
    ∃ restored, efiVarRestore bufSize len ⟨0, efiVarFileMagic,
        (varFileSize + copied.length).toUInt32, crc32 0 copied,
        Memory.write (fun _ => 0) varFileSize copied⟩ true efiVarMemInit =
        .ok (.success, restored) ∧
      Stores bufSize restored (withData (collected mask entries)) := by
  have small : varFileSize + copied.length < 2 ^ 32 := by
    have shorter := entriesEnd_filter_le (le_refl varFileSize) entries
      fun entry => entry.attr &&& mask = mask
    rw [stores.ends, ← collected, ← size] at shorter
    exact (shorter.trans stores.inside).trans_lt bufSize.limit_lt
  have length : (varFileSize + copied.length).toUInt32.toNat = varFileSize + copied.length :=
    UInt32.toNat_ofNat_of_lt' small
  have entriesSize : ((varFileSize + copied.length).toUInt32 - varFileSize.toUInt32).toNat =
      copied.length := by
    have header : varFileSize.toUInt32.toNat = varFileSize := rfl
    rw [UInt32.toNat_sub_of_le _ _ (by rw [UInt32.le_iff_toNat_le, header, length]; omega),
      length, header, Nat.add_sub_cancel_left]
  have crc : varCrc32 (Memory.write (fun _ => 0) varFileSize copied)
      (varFileSize + copied.length).toUInt32 = crc32 0 copied := by
    rw [varCrc32, entriesSize]
    exact congrArg (crc32 0) (Memory.write_holds _ _ _).read
  have enough : (collected mask entries).length < len + 1 := by
    have least := length_le_entriesEnd varFileSize (collected mask entries)
    omega
  have kept : (withData (collected mask entries)).Sublist entries :=
    filter_sublist.trans filter_sublist
  obtain ⟨restored, looped, restoredStores⟩ := restoreLoop_restores laid size.symm fits enough
    (efiVarMemInit_stores bufSize)
    (fun entry member => stores.named entry (mem_of_mem_filter member))
    (distinct.sublist (kept.map _))
    ((stores.within.filter le_rfl _).filter le_rfl _)
  refine ⟨restored, ?_, restoredStores⟩
  simp only [efiVarRestore, entriesSize, crc, length, looped]
  rw [if_neg (by simp), if_neg (Nat.not_lt.mpr fits), if_neg (by simp)]
  rfl

end RoundTrip

section Reachable

variable {platform : VarPlatform} {depth : Nat} {state : VarState}

/-- The variable file of every reachable store keeps its non-volatile variables. -/
theorem fileRoundTrips_of_reachable (reachable : Reachable platform depth state) :
    FileRoundTrips platform.bufSize state.store := by
  obtain ⟨map, represents⟩ := reachable.represents
  rw [FileRoundTrips, represents.storedValue_eq]
  obtain ⟨entries, stores, distinct, rfl⟩ := represents
  intro hasBuf len
  rcases stores.collect efiVariableNonVolatile rfl hasBuf len with
    ⟨_, _, result⟩ | ⟨_, result⟩ | ⟨_, fits, copied, size, result, laid⟩
  · exact ⟨_, _, _, result, EfiStatus.noConfusion, EfiStatus.noConfusion⟩
  · refine ⟨_, _, _, result, EfiStatus.noConfusion, fun _ other => ?_⟩
    rcases stores.collect efiVariableNonVolatile rfl true other with
      ⟨absurdity, _⟩ | ⟨short, otherResult⟩ | ⟨_, otherFits, _, _, otherResult, _⟩
    · cases absurdity
    · refine ⟨fun ⟨_, success⟩ => ?_, fun fits => ?_⟩
      · rw [otherResult] at success
        cases success
      · rcases short with no | less
        · cases no
        · exact absurd fits (Nat.not_le.mpr less)
    · exact ⟨fun _ => otherFits, fun _ => ⟨_, otherResult⟩⟩
  · obtain ⟨restored, success, restoredStores⟩ := stores.restored distinct size (size ▸ fits) laid
    rw [size] at success
    refine ⟨_, _, _, result, fun _ => ⟨_, restored, rfl, success, ?_⟩, EfiStatus.noConfusion⟩
    have kept : (withData (collected efiVariableNonVolatile entries)).Sublist entries :=
      filter_sublist.trans filter_sublist
    have restoredRepresents : Represents platform.bufSize restored
        (entriesMap (withData (collected efiVariableNonVolatile entries))) :=
      ⟨_, restoredStores, distinct.sublist (kept.map _), rfl⟩
    rw [restoredRepresents.storedValue_eq]
    funext key
    rw [persistent, ← entriesMap_filter distinct, withData, collected, filter_filter]
    congr 2
    funext entry
    rw [Bool.eq_iff_iff]
    simp only [Bool.and_eq_true, decide_eq_true_eq, VarEntry.value, and_comm]
    exact decide_eq_true_iff.symm

end Reachable

def volatileCall : VarCall := .ins ⟨[67], by decide⟩ zeroGuid 6 [1, 2] [3] 5

def persistentCall : VarCall := .ins ⟨[66], by decide⟩ zeroGuid 7 [] [9] 0

def mixedState : VarState :=
  ⟨varStep smallestBuffer (varStep smallestBuffer efiVarMemInit volatileCall) persistentCall,
    false, .setup⟩

theorem mixedState_reachable : Reachable trustingPlatform 1 mixedState := by
  have fitsFirst : VarFits smallestBuffer efiVarMemInit volatileCall := by
    decide +kernel
  have fitsSecond : VarFits smallestBuffer
      (varStep smallestBuffer efiVarMemInit volatileCall) persistentCall := by
    decide +kernel
  have first : Reachable trustingPlatform 1
      ⟨varStep smallestBuffer efiVarMemInit volatileCall, false, .setup⟩ :=
    .stored .start fitsFirst
  exact .stored first fitsSecond

theorem fileRoundTrips_of_reachable_mixedState :
    FileRoundTrips trustingPlatform.bufSize mixedState.store :=
  fileRoundTrips_of_reachable mixedState_reachable

/-- An insertion that writes the letter `a` without a terminator. -/
def insertLetter (store : EfiVarStore) (attributes : UInt32) (data1 : List UInt8) :
    EfiStatus × EfiVarStore :=
  insertEntry smallestBuffer store (repeatedName 1) 1 zeroGuid attributes data1 [] 0

/-- Of a name whose length is cut to none, the first letter is written in place of a terminator. -/
theorem efiVarMemIns_repeated (cut : (count + 1 + 1).toUInt32 = 1) (store : EfiVarStore)
    (attributes : UInt32) (data1 : List UInt8) :
    efiVarMemIns smallestBuffer store (repeatedName (count + 1)) zeroGuid attributes data1 [] 0 =
      insertLetter store attributes data1 := by
  have size : (repeatedName (count + 1)).chars.length = count + 1 := length_replicate
  have letter : ((repeatedName (count + 1)).chars ++ [0]).take 1 =
      ((repeatedName 1).chars ++ [0]).take 1 := rfl
  simp only [efiVarMemIns, insertLetter, insertEntry, fillEntry, size, cut, UInt32.toNat_one,
    letter]

/-- The store after the insertion of a volatile variable. -/
def insertedOnce (name : U16String) : EfiVarStore :=
  (efiVarMemIns smallestBuffer efiVarMemInit name zeroGuid 2 [0, 0] [] 0).2

/-- The store after a further insertion of a non-volatile variable with the same name. -/
def insertedTwice (name : U16String) : EfiVarStore :=
  (efiVarMemIns smallestBuffer (insertedOnce name) name zeroGuid 7 [0, 0, 5, 5] [] 0).2

theorem insertedTwice_eq :
    insertedOnce (repeatedName (4294967295 + 1)) = (insertLetter efiVarMemInit 2 [0, 0]).2 ∧
      insertedTwice (repeatedName (4294967295 + 1)) =
        (insertLetter (insertLetter efiVarMemInit 2 [0, 0]).2 7 [0, 0, 5, 5]).2 := by
  have cut : (4294967295 + 1 + 1).toUInt32 = 1 := by decide
  have once : insertedOnce (repeatedName (4294967295 + 1)) =
      (insertLetter efiVarMemInit 2 [0, 0]).2 := by
    rw [insertedOnce, efiVarMemIns_repeated cut]
  refine ⟨once, ?_⟩
  rw [insertedTwice, efiVarMemIns_repeated cut, once]

/-- What is found in the store that a collected file is restored into. -/
def afterRestore (len : Nat) (key : EfiGuid × U16String)
    (outcome : Except Fault (EfiStatus × Nat × Option EfiVarFile)) :
    Option (EfiStatus × Option VarValue) :=
  match outcome with
  | .ok (status, _, some written) =>
    match efiVarRestore smallestBuffer len written true efiVarMemInit with
    | .ok (_, restored) => some (status, storedValue smallestBuffer restored key)
    | .error _ => none
  | _ => none

/-- Both insertions are of a name that is not found, of `2 ^ 32` letters, and both cut it to the
same one letter. The store shows the volatile variable under that letter, and the file restores
the other one. -/
theorem insertedTwice_not_fileRoundTrips :
    varLookup smallestBuffer efiVarMemInit zeroGuid (repeatedName (4294967295 + 1)) = none ∧
      varLookup smallestBuffer (insertedOnce (repeatedName (4294967295 + 1))) zeroGuid
        (repeatedName (4294967295 + 1)) = none ∧
      ¬ FileRoundTrips smallestBuffer (insertedTwice (repeatedName (4294967295 + 1))) := by
  obtain ⟨once, twice⟩ := insertedTwice_eq
  rw [once, twice]
  have stored : storedValue smallestBuffer
      (insertLetter (insertLetter efiVarMemInit 2 [0, 0]).2 7 [0, 0, 5, 5]).2
      (zeroGuid, repeatedName 1) = some ⟨2, 0, [0, 0]⟩ := by
    decide +kernel
  have restored : afterRestore 4096 (zeroGuid, repeatedName 1)
      (efiVarCollectMem smallestBuffer
        (insertLetter (insertLetter efiVarMemInit 2 [0, 0]).2 7 [0, 0, 5, 5]).2 true 4096
        efiVariableNonVolatile) = some (.success, some ⟨7, 0, [5, 5, 0, 0]⟩) := by
    decide +kernel
  refine ⟨by decide +kernel, by decide +kernel, fun trips => ?_⟩
  obtain ⟨status, length, file, result, restores, _⟩ := trips true 4096
  rw [result] at restored
  cases file with
  | none => cases restored
  | some written =>
    cases outcome : efiVarRestore smallestBuffer 4096 written true efiVarMemInit with
    | error fault =>
      simp only [afterRestore, outcome] at restored
      cases restored
    | ok after =>
      simp only [afterRestore, outcome, Option.some.injEq, Prod.mk.injEq] at restored
      obtain ⟨_, kept, same, again, equal⟩ := restores restored.1
      obtain rfl := Option.some.inj same
      rw [outcome, Except.ok.injEq] at again
      rw [again] at restored
      have value := restored.2
      rw [equal, persistent, stored] at value
      revert value
      decide +kernel

end TachyonBoot.Efi
