/-
This file proves what each operation on the variable store does to the entries.

A store holds a list of entries when they are laid out from behind the file
header to its length, no name is empty, and the remembered entry is one of them.
A lookup returns an entry with the key, a deletion removes the entry it is given
and keeps the others, and an insertion appends one entry or is refused for lack
of room. None of this needs the keys to be distinct: while a variable is replaced
the buffer holds its old and its new entry.
-/

import TachyonBoot.Efi.VarLayout

namespace TachyonBoot.Efi

open Library List

/-! ### The invariant -/

/-- The remembered entry is one of the entries. -/
def Remembers (entries : List VarEntry) (var : Nat) : Prop :=
  ∃ before entry after, entries = before ++ entry :: after ∧ var = entriesEnd varFileSize before

/-- The store holds exactly these entries, in this order. -/
structure Stores (bufSize : VarBufSize) (store : EfiVarStore) (entries : List VarEntry) :
    Prop where
  laid : Laid store.buf.bytes varFileSize entries
  ends : entriesEnd varFileSize entries = store.buf.length.toNat
  inside : store.buf.length.toNat ≤ bufSize.limit
  within : Within bufSize.size varFileSize entries
  named : ∀ entry ∈ entries, entry.name.chars ≠ []
  current : ∀ var ∈ store.current, Remembers entries var

theorem efiVarMemInit_stores (bufSize : VarBufSize) : Stores bufSize efiVarMemInit [] := by
  refine ⟨trivial, rfl, ?_, trivial, forall_mem_nil _,
    fun _ member => absurd member (Option.not_mem_none _)⟩
  have large := bufSize.atLeast
  show 24 ≤ bufSize.limit
  rw [VarBufSize.limit]
  omega

theorem VarBufSize.size_le_limit (bufSize : VarBufSize) : bufSize.size ≤ bufSize.limit := by
  rw [limit]
  omega

theorem VarBufSize.limit_lt (bufSize : VarBufSize) : bufSize.limit < 2 ^ 32 := by
  have small := bufSize.atMost
  rw [limit]
  omega

section Operations

variable {bufSize : VarBufSize} {store : EfiVarStore} {entries before after : List VarEntry}
  {entry : VarEntry}

theorem Stores.entryAt (stores : Stores bufSize store entries)
    (split : entries = before ++ entry :: after) :
    EntryAt store.buf.bytes (entriesEnd varFileSize before) entry := by
  have laid := stores.laid
  rw [split, laid_append] at laid
  exact laid.2.1

theorem Stores.entry_inside (stores : Stores bufSize store entries)
    (split : entries = before ++ entry :: after) :
    entriesEnd varFileSize before + entry.bytes.length ≤ bufSize.limit := by
  have ends := stores.ends
  rw [split, entriesEnd_append] at ends
  have behind := entry_le_entriesEnd (entriesEnd varFileSize before) entry after
  exact (behind.trans ends.le).trans stores.inside

/-! ### Lookup -/

theorem findLoop_cases {mem : Memory} {start last : Nat} (laid : Laid mem start entries)
    (ends : entriesEnd start entries = last) (inside : last ≤ bufSize.limit)
    (nonempty : entries ≠ []) {count : Nat} (room : entries.length ≤ count) (guid : EfiGuid)
    (name : U16String) :
    (∃ before entry after, entries = before ++ entry :: after ∧ entry.key = (guid, name) ∧
      findLoop bufSize mem last guid name count start =
        .ok (some (entriesEnd start before,
          belowLast last (entriesEnd start (before ++ [entry]))))) ∨
    ((∀ entry ∈ entries, entry.key ≠ (guid, name)) ∧
      findLoop bufSize mem last guid name count start = .ok none) := by
  induction entries generalizing start count with
  | nil => exact absurd rfl nonempty
  | cons entry rest ih =>
    obtain ⟨stored, tail⟩ := laid
    have fits := (entry_le_entriesEnd start entry rest).trans (ends.le.trans inside)
    rw [length_cons] at room
    obtain ⟨count, rfl⟩ := Nat.exists_eq_add_of_lt (Nat.lt_of_lt_of_le (Nat.succ_pos _) room)
    rw [Nat.zero_add, findLoop, stored.compare fits]
    by_cases found : entry.key = (guid, name)
    · refine .inl ⟨[], entry, rest, rfl, found, ?_⟩
      simp only [found, decide_true, if_true]
      rfl
    · simp only [found, decide_false, Bool.false_eq_true, if_false]
      rw [entriesEnd_cons] at ends
      by_cases final : rest = []
      · subst final
        refine .inr ⟨?_, ?_⟩
        · intro other member
          rw [mem_singleton.mp member]
          exact found
        · have reached : last ≤ align8 (start + entry.bytes.length) := ends.ge
          rw [belowLast, if_pos reached]
      · have further : ¬ last ≤ align8 (start + entry.bytes.length) := by
          rw [← ends, entriesEnd_le_iff]
          exact final
        rw [belowLast, if_neg further]
        rcases ih tail ends final (by omega : rest.length ≤ count) with
          ⟨before, other, after, rfl, key, result⟩ | ⟨absent, result⟩
        · exact .inl ⟨entry :: before, other, after, rfl, key, result⟩
        · refine .inr ⟨?_, result⟩
          intro other member
          rcases mem_cons.mp member with rfl | member
          · exact found
          · exact absent other member

/-- A lookup returns the entry with the key and remembers it, or returns none and changes
nothing. -/
def Finds (store : EfiVarStore) (entries : List VarEntry) (guid : EfiGuid) (name : U16String)
    (found : Except Fault Found) : Prop :=
  (∃ before entry after, entries = before ++ entry :: after ∧ entry.key = (guid, name) ∧
    found = .ok ⟨some (entriesEnd varFileSize before),
      belowLast store.buf.length.toNat (entriesEnd varFileSize (before ++ [entry])),
      { store with current := some (entriesEnd varFileSize before) }⟩) ∨
  ((∀ entry ∈ entries, entry.key ≠ (guid, name)) ∧ ∃ next, found = .ok ⟨none, next, store⟩)

theorem Stores.find (stores : Stores bufSize store entries) (guid : EfiGuid) (name : U16String) :
    Finds store entries guid name (efiVarMemFind bufSize store guid name) := by
  have walk : Finds store entries guid name (findInBuffer bufSize store guid name) := by
    by_cases empty : entries = []
    · refine .inr ⟨by rw [empty]; exact forall_mem_nil _, none, ?_⟩
      have ends := stores.ends
      rw [empty, entriesEnd_nil] at ends
      rw [findInBuffer, if_neg (by omega)]
    · have further : varFileSize < store.buf.length.toNat := by
        rw [← stores.ends, ← Nat.not_le, entriesEnd_le_iff]
        exact empty
      have room : entries.length ≤ bufSize.limit := by
        have least := length_le_entriesEnd varFileSize entries
        have inside := stores.inside
        rw [stores.ends] at least
        omega
      rcases findLoop_cases stores.laid stores.ends stores.inside empty room guid name with
        ⟨before, entry, after, split, key, result⟩ | ⟨absent, result⟩
      · refine .inl ⟨before, entry, after, split, key, ?_⟩
        simp only [findInBuffer, if_pos further, result]
      · refine .inr ⟨absent, none, ?_⟩
        simp only [findInBuffer, if_pos further, result]
  rw [efiVarMemFind]
  by_cases anonymous : name.chars = []
  · -- no entry has an empty name
    refine .inr ⟨fun entry member key => ?_, _, if_pos anonymous⟩
    have same : entry.name = name := congrArg Prod.snd key
    exact stores.named entry member (same ▸ anonymous)
  simp only [if_neg anonymous]
  cases remembered : store.current with
  | none => exact walk
  | some var =>
    obtain ⟨before, entry, after, split, rfl⟩ := stores.current var remembered
    have compared := (stores.entryAt split).compare (stores.entry_inside split) guid name
    simp only [compared]
    by_cases found : entry.key = (guid, name)
    · refine .inl ⟨before, entry, after, split, found, ?_⟩
      simp only [found, decide_true, entriesEnd_append, entriesEnd_cons, entriesEnd_nil]
      rw [← remembered]
    · simp only [found, decide_false]
      exact walk

theorem Stores.remember (stores : Stores bufSize store entries)
    (split : entries = before ++ entry :: after) :
    Stores bufSize { store with current := some (entriesEnd varFileSize before) } entries := by
  refine { stores with current := ?_ }
  intro var member
  rw [← Option.some.inj member]
  exact ⟨before, entry, after, split, rfl⟩

/-! ### Deletion -/

/-- An entry before the deleted one stays where it is. -/
theorem Remembers.of_lt {var : Nat} (remembers : Remembers (before ++ entry :: after) var)
    (lower : var < entriesEnd varFileSize before) (rest : List VarEntry) :
    Remembers (before ++ rest) var := by
  obtain ⟨front, other, back, split, rfl⟩ := remembers
  rcases append_eq_append_iff.mp split with ⟨mid, front_eq, _⟩ | ⟨mid, before_eq, tail⟩
  · have above := le_entriesEnd (entriesEnd varFileSize before) mid
    rw [← entriesEnd_append, ← front_eq] at above
    omega
  · cases mid with
    | nil =>
      rw [before_eq, append_nil] at lower
      exact absurd lower (lt_irrefl _)
    | cons first mid =>
      injection tail with heads _
      refine ⟨front, first, mid ++ rest, ?_, rfl⟩
      rw [before_eq, append_assoc, cons_append]

theorem Stores.del (stores : Stores bufSize store entries)
    (split : entries = before ++ entry :: after) :
    ∃ shorter, efiVarMemDel bufSize store (some (entriesEnd varFileSize before)) = .ok shorter ∧
      Stores bufSize shorter (before ++ after) := by
  subst split
  have stored := stores.entryAt rfl
  have data := stored.varData (stores.entry_inside rfl)
  have small := stores.inside.trans_lt bufSize.limit_lt
  obtain ⟨var, var_eq⟩ : ∃ var, entriesEnd varFileSize before = var := ⟨_, rfl⟩
  obtain ⟨next, next_eq⟩ : ∃ next, align8 (var + entry.bytes.length) = next := ⟨_, rfl⟩
  obtain ⟨laid, shorter⟩ := stores.laid.delete rfl var_eq next_eq
  have ends := stores.ends
  rw [entriesEnd_append, entriesEnd_cons, var_eq, next_eq] at ends
  rw [var_eq] at stored data ⊢
  rw [ends] at laid shorter
  have grows := lt_align8_bytes var entry
  have behind := le_entriesEnd next after
  rw [next_eq] at grows
  rw [ends] at behind
  have place : align8 (var + varEntrySize + 2 * (entry.name.chars.length + 1) +
      (varLength store.buf.bytes var).toNat) = next := by
    rw [stored.varLength, ← next_eq, entry.length_bytes, Nat.add_assoc, Nat.add_assoc,
      ← Nat.add_assoc varEntrySize]
  have removed : (next - var).toUInt32.toNat = next - var :=
    UInt32.toNat_ofNat_of_lt' (show next - var < 2 ^ 32 by omega)
  have length : (store.buf.length - (next - var).toUInt32).toNat =
      entriesEnd varFileSize (before ++ after) := by
    rw [UInt32.toNat_sub_of_le _ _ (by rw [UInt32.le_iff_toNat_le, removed]; omega), removed]
    omega
  simp only [efiVarMemDel, data, place, if_neg (Nat.not_lt.mpr behind)]
  obtain ⟨withinBefore, _, withinAfter⟩ := within_append.mp stores.within
  rw [var_eq, next_eq] at withinAfter
  refine ⟨_, rfl, laid, length.symm, ?_, ?_, ?_, ?_⟩
  · show (store.buf.length - (next - var).toUInt32).toNat ≤ bufSize.limit
    have inside := stores.inside
    rw [length]
    omega
  · refine within_append.mpr ⟨withinBefore, withinAfter.lower ?_⟩
    rw [var_eq]
    exact grows.le
  · intro other member
    refine stores.named other ?_
    rw [mem_append] at member ⊢
    exact member.imp_right (mem_cons_of_mem entry)
  · intro remembered member
    obtain ⟨member, lower⟩ := Option.mem_filter_iff.mp member
    rw [decide_eq_true_eq, ← var_eq] at lower
    exact (stores.current remembered member).of_lt lower after

/-! ### Insertion -/

theorem fillEntry_outside (mem : Memory) {var place : Nat} {name : U16String}
    {varNameLen : UInt32} {guid : EfiGuid} {attributes : UInt32} {data1 data2 : List UInt8}
    {time : UInt64} (outside : place < var ∨
      var + varEntrySize + 2 * varNameLen.toNat + data1.length + data2.length ≤ place) :
    fillEntry mem var name varNameLen guid attributes data1 data2 time place = mem place := by
  have nameSize : (u16Bytes ((name.chars ++ [0]).take varNameLen.toNat)).length ≤
      2 * varNameLen.toNat := by
    rw [length_u16Bytes, length_take]
    omega
  have guidSize := guid.size
  simp only [fillEntry]
  rw [varEntrySize] at *
  rw [Memory.write_outside (by omega), Memory.write_outside (by omega),
    Memory.write_outside (by omega), Memory.write_outside (by omega),
    Memory.write_outside (by simp only [length_littleEndian]; omega),
    Memory.write_outside (by simp only [length_littleEndian]; omega),
    Memory.write_outside (by simp only [length_littleEndian]; omega)]

theorem fillEntry_spec (mem : Memory) (var : Nat) {varNameLen : UInt32} {data1 data2 : List UInt8}
    (nameLen : varNameLen.toNat = entry.name.chars.length + 1)
    (data_eq : entry.data = data1 ++ data2) :
    EntryAt (fillEntry mem var entry.name varNameLen entry.guid entry.attr data1 data2 entry.time)
        var entry ∧
      ∀ place < var, fillEntry mem var entry.name varNameLen entry.guid entry.attr data1 data2
        entry.time place = mem place := by
  have whole : (entry.name.chars ++ [0]).take (entry.name.chars.length + 1) =
      entry.name.chars ++ [0] := take_of_length_le (by simp)
  have nameSize : (u16Bytes (entry.name.chars ++ [0])).length =
      2 * (entry.name.chars.length + 1) := by simp
  have guidSize := entry.guid.size
  have dataSize : entry.data.length = data1.length + data2.length := by
    rw [data_eq, length_append]
  refine ⟨?_, fun place below => fillEntry_outside mem (.inl below)⟩
  simp only [fillEntry, nameLen, whole]
  refine ⟨?_, ?_, ?_, ?_, ?_, ?_⟩
  -- each field is written once, and the later writes miss it
  · rw [dataSize]
    refine (((((Memory.write_holds _ _ _).write ?_).write ?_).write ?_).write ?_).write ?_ <;>
      simp only [length_littleEndian, nameSize, guidSize, varEntrySize] <;> omega
  · refine ((((((Memory.write_holds _ _ _).write ?_).write ?_).write ?_).write ?_).write ?_).write
      ?_ <;>
      simp only [length_littleEndian, nameSize, guidSize, varEntrySize] <;> omega
  · refine ((((Memory.write_holds _ _ _).write ?_).write ?_).write ?_).write ?_ <;>
      simp only [length_littleEndian, nameSize, guidSize, varEntrySize] <;> omega
  · refine (((Memory.write_holds _ _ _).write ?_).write ?_).write ?_ <;>
      simp only [nameSize, guidSize, varEntrySize] <;> omega
  · refine ((Memory.write_holds _ _ _).write ?_).write ?_ <;> rw [nameSize] <;> omega
  · rw [data_eq, Memory.holds_append]
    exact ⟨(Memory.write_holds _ _ _).write (.inl le_rfl), Memory.write_holds _ _ _⟩

/-- Where the data of a new entry would end. -/
def insertEnd (store : EfiVarStore) (name : U16String) (data1 data2 : List UInt8) : Nat :=
  store.buf.length.toNat + varEntrySize + 2 * (name.chars.length + 1) + data1.length + data2.length

/-- An insertion appends an entry when it fits into the buffer, and is refused otherwise. -/
theorem Stores.ins (stores : Stores bufSize store entries) {name : U16String}
    (named : name.chars ≠ []) (short : name.chars.length + 1 < 2 ^ 32)
    {data1 data2 : List UInt8} (noWrap : insertEnd store name data1 data2 < 2 ^ 64)
    (guid : EfiGuid) (attributes : UInt32) (time : UInt64) :
    (bufSize.size < insertEnd store name data1 data2 ∧
      efiVarMemIns bufSize store name guid attributes data1 data2 time =
        (.outOfResources, store)) ∨
    (insertEnd store name data1 data2 ≤ bufSize.size ∧
      ∃ entry longer, entry.key = (guid, name) ∧
        entry.value = ⟨attributes, time, data1 ++ data2⟩ ∧
        efiVarMemIns bufSize store name guid attributes data1 data2 time = (.success, longer) ∧
        longer.current = store.current ∧ Stores bufSize longer (entries ++ [entry])) := by
  have nameLen : (name.chars.length + 1).toUInt32.toNat = name.chars.length + 1 :=
    UInt32.toNat_ofNat_of_lt' short
  have sum : (store.buf.length.toNat + varEntrySize + 2 * (name.chars.length + 1) +
      data1.length + data2.length) % 2 ^ 64 = insertEnd store name data1 data2 :=
    Nat.mod_eq_of_lt noWrap
  simp only [efiVarMemIns, insertEntry, nameLen, sum]
  by_cases full : bufSize.size < insertEnd store name data1 data2
  · exact .inl ⟨full, if_pos full⟩
  have fits := Nat.not_lt.mp full
  have atMost := bufSize.atMost
  let entry : VarEntry := ⟨guid, name, attributes, time, data1 ++ data2, by
    rw [insertEnd] at fits
    rw [length_append]
    omega⟩
  refine .inr ⟨fits, entry, ?_⟩
  rw [if_neg full]
  obtain ⟨stored, below⟩ := @fillEntry_spec entry store.buf.bytes store.buf.length.toNat _ _ _
    nameLen rfl
  refine ⟨_, rfl, rfl, rfl, rfl, ?_⟩
  have size : store.buf.length.toNat + entry.bytes.length = insertEnd store name data1 data2 := by
    rw [entry.length_bytes, insertEnd]
    show _ + (varEntrySize + 2 * (name.chars.length + 1) + (data1 ++ data2).length) = _
    rw [length_append]
    omega
  have place : align8 (store.buf.length.toNat + varEntrySize +
      2 * (name.chars.length + 1) + entry.data.length) =
        align8 (insertEnd store name data1 data2) := by
    congr 1
    show _ + (data1 ++ data2).length = _
    rw [length_append, ← Nat.add_assoc, insertEnd]
  have room : align8 (insertEnd store name data1 data2) ≤ bufSize.limit :=
    align8_le (fits.trans bufSize.size_le_limit) (by
      rw [VarBufSize.limit]
      omega)
  have length : (align8 (insertEnd store name data1 data2)).toUInt32.toNat =
      align8 (insertEnd store name data1 data2) :=
    UInt32.toNat_ofNat_of_lt' (room.trans_lt bufSize.limit_lt)
  rw [stored.varLength, place]
  refine ⟨?_, ?_, ?_, ?_, ?_, ?_⟩
  · rw [laid_append, stores.ends]
    refine ⟨stores.laid.frame fun place lower => below place ?_, stored, trivial⟩
    rw [stores.ends] at lower
    exact lower
  · rw [entriesEnd_append, stores.ends, entriesEnd_cons, entriesEnd_nil, size]
    exact length.symm
  · exact length.le.trans room
  · rw [within_append, stores.ends]
    exact ⟨stores.within, size.trans_le fits, trivial⟩
  · intro other member
    rcases mem_append.mp member with member | member
    · exact stores.named other member
    · rw [mem_singleton.mp member]
      exact named
  · intro var member
    obtain ⟨before, old, after, split, rfl⟩ := stores.current var member
    refine ⟨before, old, after ++ [entry], ?_, rfl⟩
    rw [split, append_assoc, cons_append]

end Operations

end TachyonBoot.Efi
