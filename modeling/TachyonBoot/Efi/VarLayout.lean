/-
This file says what the buffer of UEFI variables holds.

An entry is the record that a lookup returns a pointer to. A list of entries is
laid out in memory when each one's bytes stand at the next multiple of eight
behind its predecessor. The walks over one entry, to its terminator and to its
successor, are then determined by the record, and a layout can be moved as a
whole by any multiple of eight.
-/

import TachyonBoot.Efi.VarStore

namespace TachyonBoot.Efi

open Library List

/-! ### Entries as bytes -/

/-- A stored variable. Its length field has 32 bits. -/
structure VarEntry where
  guid : EfiGuid
  name : U16String
  attr : UInt32
  time : UInt64
  data : List UInt8
  small : data.length < 2 ^ 32

/-- What is stored for a variable. -/
structure VarValue where
  attr : UInt32
  time : UInt64
  data : List UInt8
deriving DecidableEq, Repr

namespace VarEntry

/-- What identifies a variable. -/
def key (entry : VarEntry) : EfiGuid × U16String := (entry.guid, entry.name)

/-- What an entry stores for its key. -/
def value (entry : VarEntry) : VarValue := ⟨entry.attr, entry.time, entry.data⟩

/-- The entry as it stands in the buffer. -/
def bytes (entry : VarEntry) : List UInt8 :=
  littleEndian 4 entry.data.length ++ littleEndian 4 entry.attr.toNat ++
    littleEndian 8 entry.time.toNat ++ entry.guid.bytes ++ u16Bytes (entry.name.chars ++ [0]) ++
    entry.data

end VarEntry

@[simp] theorem length_u16Bytes (chars : List UInt16) :
    (u16Bytes chars).length = 2 * chars.length := by
  induction chars with
  | nil => rfl
  | cons char rest ih =>
    rw [u16Bytes, flatMap_cons, length_append, length_littleEndian]
    rw [u16Bytes] at ih
    rw [ih, length_cons]
    omega

theorem VarEntry.length_bytes (entry : VarEntry) :
    entry.bytes.length = varEntrySize + 2 * (entry.name.chars.length + 1) + entry.data.length := by
  simp only [bytes, length_append, length_littleEndian, length_u16Bytes, entry.guid.size,
    length_cons, length_nil, varEntrySize]

/-- What the memory at an entry holds, field by field. -/
structure EntryAt (mem : Memory) (var : Nat) (entry : VarEntry) : Prop where
  length : mem.Holds var (littleEndian 4 entry.data.length)
  attr : mem.Holds (var + 4) (littleEndian 4 entry.attr.toNat)
  time : mem.Holds (var + 8) (littleEndian 8 entry.time.toNat)
  guid : mem.Holds (var + 16) entry.guid.bytes
  name : mem.Holds (var + varEntrySize) (u16Bytes (entry.name.chars ++ [0]))
  data : mem.Holds (var + varEntrySize + 2 * (entry.name.chars.length + 1)) entry.data

variable {mem after : Memory} {address count low high start size var data : Nat}
  {entries front back : List VarEntry} {entry : VarEntry} {char : UInt16} {chars : List UInt16}

theorem entryAt_iff :
    EntryAt mem var entry ↔ mem.Holds var entry.bytes := by
  have fields : mem.Holds var entry.bytes ↔
      ((((mem.Holds var (littleEndian 4 entry.data.length) ∧
        mem.Holds (var + 4) (littleEndian 4 entry.attr.toNat)) ∧
        mem.Holds (var + 8) (littleEndian 8 entry.time.toNat)) ∧
        mem.Holds (var + 16) entry.guid.bytes) ∧
        mem.Holds (var + varEntrySize) (u16Bytes (entry.name.chars ++ [0]))) ∧
        mem.Holds (var + varEntrySize + 2 * (entry.name.chars.length + 1)) entry.data := by
    simp only [VarEntry.bytes, Memory.holds_append, length_append, length_littleEndian,
      length_u16Bytes, entry.guid.size, length_cons, length_nil, varEntrySize,
      Nat.add_assoc, Nat.reduceAdd]
  rw [fields]
  constructor
  · rintro ⟨length, attr, time, guid, name, data⟩
    exact ⟨⟨⟨⟨⟨length, attr⟩, time⟩, guid⟩, name⟩, data⟩
  · rintro ⟨⟨⟨⟨⟨length, attr⟩, time⟩, guid⟩, name⟩, data⟩
    exact ⟨length, attr, time, guid, name, data⟩

/-! ### Reading an entry -/

theorem readU16_eq (holds : mem.Holds address (littleEndian 2 char.toNat)) :
    readU16 mem address = char := by
  rw [readU16, holds.readNumber char.toNat_lt]
  exact UInt16.ofNat_toNat

theorem holds_u16Bytes_cons {rest : List UInt16}
    (holds : mem.Holds address (u16Bytes (char :: rest))) :
    readU16 mem address = char ∧ mem.Holds (address + 2) (u16Bytes rest) := by
  rw [u16Bytes, flatMap_cons, Memory.holds_append, length_littleEndian] at holds
  exact ⟨readU16_eq holds.1, holds.2⟩

section

variable (noNul : 0 ∉ chars) (holds : mem.Holds data (u16Bytes (chars ++ [0])))
  (room : chars.length < count)

include noNul holds room

theorem nameEnd_eq :
    nameEnd mem count data = .ok (data + 2 * chars.length) := by
  induction chars generalizing data count with
  | nil =>
    obtain ⟨first, _⟩ := holds_u16Bytes_cons holds
    obtain ⟨count, rfl⟩ := Nat.exists_eq_add_of_lt room
    rw [nameEnd, if_pos first]
    rfl
  | cons char rest ih =>
    obtain ⟨first, tail⟩ := holds_u16Bytes_cons holds
    rw [mem_cons, not_or] at noNul
    rw [length_cons] at room ⊢
    obtain ⟨count, rfl⟩ := Nat.exists_eq_add_of_lt room
    have different : ¬ readU16 mem data = 0 := fun zero => noNul.1 (zero.symm.trans first)
    rw [nameEnd, if_neg different, ih noNul.2 tail (by omega)]
    congr 1
    omega

/-- The comparison with a stored name walks to its terminator and compares the two. -/
theorem compareName_eq {varName : List UInt16} (varNoNul : 0 ∉ varName) (isMatch : Bool) :
    compareName mem count data varName isMatch =
      .ok (isMatch && chars == varName, data + 2 * chars.length) := by
  induction chars generalizing data count varName isMatch with
  | nil =>
    obtain ⟨first, _⟩ := holds_u16Bytes_cons holds
    obtain ⟨count, rfl⟩ := Nat.exists_eq_add_of_lt room
    rw [compareName]
    simp only [first, if_true, length_nil, Nat.mul_zero, Nat.add_zero]
    cases varName with
    | nil => rfl
    | cons other others =>
      rw [mem_cons, not_or] at varNoNul
      have different : ((0 : UInt16) == other) = false := beq_false_of_ne varNoNul.1
      simp only [headD_cons, different]
      rfl
  | cons char rest ih =>
    obtain ⟨first, tail⟩ := holds_u16Bytes_cons holds
    rw [mem_cons, not_or] at noNul
    rw [length_cons] at room ⊢
    obtain ⟨count, rfl⟩ := Nat.exists_eq_add_of_lt room
    have different : ¬ char = 0 := fun zero => noNul.1 zero.symm
    rw [compareName]
    simp only [first, if_neg different]
    rw [ih noNul.2 tail (by omega)
      (fun member => varNoNul (mem_of_mem_tail member))]
    congr 2
    · cases varName with
      | nil => simp [different]
      | cons other others => simp [Bool.and_assoc]
    · omega

end

section Reading

variable {mem : Memory} {bufSize : VarBufSize} {var : Nat} {entry : VarEntry}

section

variable (stored : EntryAt mem var entry)

include stored

theorem EntryAt.varLength :
    (varLength mem var).toNat = entry.data.length := by
  rw [Efi.varLength, stored.length.readNumber entry.small]
  exact UInt32.toNat_ofNat_of_lt' entry.small

theorem EntryAt.varAttr : varAttr mem var = entry.attr := by
  rw [Efi.varAttr, stored.attr.readNumber entry.attr.toNat_lt]
  exact UInt32.ofNat_toNat

theorem EntryAt.varTime : varTime mem var = entry.time := by
  rw [Efi.varTime, stored.time.readNumber entry.time.toNat_lt]
  exact UInt64.ofNat_toNat

theorem EntryAt.varGuid : varGuid mem var = entry.guid.bytes := by
  have bytes := stored.guid.read
  rw [entry.guid.size] at bytes
  exact bytes

end

theorem charsFrom_room (inside : var + entry.bytes.length ≤ bufSize.limit) :
    entry.name.chars.length < bufSize.charsFrom (var + varEntrySize) := by
  rw [entry.length_bytes] at inside
  rw [VarBufSize.charsFrom]
  omega

theorem EntryAt.varData (stored : EntryAt mem var entry)
    (inside : var + entry.bytes.length ≤ bufSize.limit) :
    varData mem bufSize var = .ok (var + varEntrySize + 2 * (entry.name.chars.length + 1)) := by
  rw [Efi.varData, nameEnd_eq entry.name.noNul stored.name (charsFrom_room inside)]
  rfl

/-- The comparison with an entry compares the GUID and the name and yields the place behind the
entry. -/
theorem EntryAt.compare (stored : EntryAt mem var entry)
    (inside : var + entry.bytes.length ≤ bufSize.limit) (guid : EfiGuid) (name : U16String) :
    efiVarMemCompare mem bufSize var guid name =
      .ok (decide (entry.key = (guid, name)), align8 (var + entry.bytes.length)) := by
  have compared : (entry.guid.bytes == guid.bytes && entry.name.chars == name.chars) =
      decide (entry.key = (guid, name)) := by
    obtain ⟨⟨guidBytes, _⟩, ⟨chars, _⟩, _, _, _, _⟩ := entry
    obtain ⟨bytes, _⟩ := guid
    obtain ⟨others, _⟩ := name
    rw [Bool.eq_iff_iff]
    simp [VarEntry.key]
  rw [efiVarMemCompare, compareName_eq entry.name.noNul stored.name (charsFrom_room inside)
    name.noNul, stored.varGuid, compared, entry.length_bytes]
  simp only [Except.map, stored.varLength]
  congr 3
  omega

end Reading

/-! ### Layouts -/

/-- Where a list of entries ends that starts at a place. -/
def entriesEnd (start : Nat) (entries : List VarEntry) : Nat :=
  entries.foldl (fun place entry => align8 (place + entry.bytes.length)) start

/-- The entries stand in the memory one behind the other. -/
def Laid (mem : Memory) : Nat → List VarEntry → Prop
  | _, [] => True
  | start, entry :: rest =>
    EntryAt mem start entry ∧ Laid mem (align8 (start + entry.bytes.length)) rest

/-- The entries, laid out from a place on, all end within the size. -/
def Within (size : Nat) : Nat → List VarEntry → Prop
  | _, [] => True
  | start, entry :: rest =>
    start + entry.bytes.length ≤ size ∧ Within size (align8 (start + entry.bytes.length)) rest

@[simp] theorem entriesEnd_nil (start : Nat) : entriesEnd start [] = start := rfl

@[simp] theorem entriesEnd_cons (start : Nat) (entry : VarEntry) (rest : List VarEntry) :
    entriesEnd start (entry :: rest) =
      entriesEnd (align8 (start + entry.bytes.length)) rest := rfl

theorem entriesEnd_append (start : Nat) (front back : List VarEntry) :
    entriesEnd start (front ++ back) = entriesEnd (entriesEnd start front) back :=
  foldl_append

theorem le_align8 (address : Nat) : address ≤ align8 address := by
  rw [align8]
  omega

theorem align8_le {bound : Nat} (below : address ≤ bound) (aligned : bound % 8 = 0) :
    align8 address ≤ bound := by
  rw [align8]
  omega

theorem align8_mono (below : low ≤ high) : align8 low ≤ align8 high := by
  rw [align8, align8]
  omega

theorem align8_add_mul (address count : Nat) :
    align8 (address + 8 * count) = align8 address + 8 * count := by
  rw [align8, align8]
  omega

theorem lt_align8_bytes (start : Nat) (entry : VarEntry) :
    start < align8 (start + entry.bytes.length) := by
  have above := le_align8 (start + entry.bytes.length)
  rw [entry.length_bytes] at above ⊢
  omega

theorem le_entriesEnd (start : Nat) (entries : List VarEntry) :
    start ≤ entriesEnd start entries := by
  induction entries generalizing start with
  | nil => exact le_rfl
  | cons entry rest ih =>
    exact (lt_align8_bytes start entry).le.trans (ih _)

theorem entry_le_entriesEnd (start : Nat) (entry : VarEntry) (rest : List VarEntry) :
    start + entry.bytes.length ≤ entriesEnd start (entry :: rest) :=
  (le_align8 _).trans (le_entriesEnd _ rest)

theorem entriesEnd_le_iff (start : Nat) (entries : List VarEntry) :
    entriesEnd start entries ≤ start ↔ entries = [] := by
  constructor
  · intro ends
    cases entries with
    | nil => rfl
    | cons entry rest =>
      have behind := le_entriesEnd (align8 (start + entry.bytes.length)) rest
      have above := lt_align8_bytes start entry
      rw [entriesEnd_cons] at ends
      omega
  · rintro rfl
    exact le_rfl

theorem length_le_entriesEnd (start : Nat) (entries : List VarEntry) :
    start + entries.length ≤ entriesEnd start entries := by
  induction entries generalizing start with
  | nil => exact le_rfl
  | cons entry rest ih =>
    have behind := ih (align8 (start + entry.bytes.length))
    have above := lt_align8_bytes start entry
    rw [entriesEnd_cons, length_cons]
    omega

theorem entriesEnd_aligned (aligned : start % 8 = 0) (entries : List VarEntry) :
    entriesEnd start entries % 8 = 0 := by
  induction entries generalizing start with
  | nil => exact aligned
  | cons entry rest ih =>
    refine ih ?_
    show align8 (start + entry.bytes.length) % 8 = 0
    rw [align8]
    omega

theorem entriesEnd_add_mul (start count : Nat) (entries : List VarEntry) :
    entriesEnd (start + 8 * count) entries = entriesEnd start entries + 8 * count := by
  induction entries generalizing start with
  | nil => rfl
  | cons entry rest ih =>
    rw [entriesEnd_cons, entriesEnd_cons, Nat.add_right_comm, align8_add_mul,
      ih]

theorem laid_append :
    Laid mem start (front ++ back) ↔
      Laid mem start front ∧ Laid mem (entriesEnd start front) back := by
  induction front generalizing start with
  | nil => exact (and_iff_right trivial).symm
  | cons entry rest ih =>
    rw [cons_append, Laid, Laid, ih, and_assoc, entriesEnd_cons]

theorem entriesEnd_filter_le (below : low ≤ high) (entries : List VarEntry)
    (keeps : VarEntry → Bool) :
    entriesEnd low (entries.filter keeps) ≤ entriesEnd high entries := by
  induction entries generalizing low high with
  | nil => exact below
  | cons entry rest ih =>
    cases kept : keeps entry with
    | false =>
      rw [filter_cons_of_neg (by simp [kept])]
      exact ih (below.trans (lt_align8_bytes high entry).le)
    | true =>
      rw [filter_cons_of_pos kept]
      exact ih (align8_mono (by omega))

theorem within_append :
    Within size start (front ++ back) ↔
      Within size start front ∧ Within size (entriesEnd start front) back := by
  induction front generalizing start with
  | nil => exact (and_iff_right trivial).symm
  | cons entry rest ih =>
    rw [cons_append, Within, Within, ih, and_assoc, entriesEnd_cons]

/-- Leaving out entries moves the others down. -/
theorem Within.filter (within : Within size high entries) (below : low ≤ high)
    (keeps : VarEntry → Bool) :
    Within size low (entries.filter keeps) := by
  induction entries generalizing low high with
  | nil => trivial
  | cons entry rest ih =>
    obtain ⟨first, tail⟩ := within
    cases kept : keeps entry with
    | false =>
      rw [filter_cons_of_neg (by simp [kept])]
      exact ih tail (below.trans (lt_align8_bytes high entry).le)
    | true =>
      rw [filter_cons_of_pos kept]
      exact ⟨by omega, ih tail (align8_mono (by omega))⟩

theorem Within.lower (within : Within size high entries) (below : low ≤ high) :
    Within size low entries := by
  have all := within.filter below fun _ => true
  rwa [filter_true] at all

/-- A memory that has the bytes of a layout, moved by a multiple of eight, has the layout
there. -/
theorem Laid.shift (laid : Laid mem (start + 8 * count) entries)
    (same : ∀ place, start ≤ place → place < entriesEnd start entries →
      after place = mem (place + 8 * count)) : Laid after start entries := by
  induction entries generalizing start with
  | nil => trivial
  | cons entry rest ih =>
    obtain ⟨first, tail⟩ := laid
    rw [Nat.add_right_comm, align8_add_mul] at tail
    have fits := entry_le_entriesEnd start entry rest
    have above := lt_align8_bytes start entry
    refine ⟨entryAt_iff.mpr ((entryAt_iff.mp first).shift fun index bound => ?_),
      ih tail fun place low high => same place (by omega) high⟩
    rw [same (start + index) (by omega) (by omega), Nat.add_right_comm]

theorem Laid.frame (laid : Laid mem start entries)
    (same : ∀ place, place < entriesEnd start entries → after place = mem place) :
    Laid after start entries :=
  @Laid.shift _ _ 0 _ _ laid fun place _ high => same place high

/-- The entries behind an entry, moved down onto it, leave a layout without it. -/
theorem Laid.delete {before after : List VarEntry}
    (laid : Laid mem start (before ++ entry :: after)) (aligned : start % 8 = 0) {next : Nat}
    (var_eq : entriesEnd start before = var) (next_eq : align8 (var + entry.bytes.length) = next) :
    Laid (mem.move var next (entriesEnd next after - next)) start (before ++ after) ∧
      entriesEnd start (before ++ after) + (next - var) = entriesEnd next after := by
  obtain ⟨laidBefore, _, laidAfter⟩ := laid_append.mp laid
  have multiple := entriesEnd_aligned aligned before
  have grows := lt_align8_bytes var entry
  rw [var_eq] at multiple laidAfter
  obtain ⟨count, rfl⟩ : ∃ count, next = var + 8 * count := by
    refine ⟨(next - var) / 8, ?_⟩
    rw [align8] at next_eq
    omega
  rw [next_eq] at laidAfter grows
  have behind := le_entriesEnd var after
  rw [laid_append, entriesEnd_append, var_eq, entriesEnd_add_mul]
  refine ⟨⟨laidBefore.frame fun place below => ?_, laidAfter.shift fun place low high => ?_⟩,
    by omega⟩
  · rw [var_eq] at below
    rw [Memory.move_apply mem (by omega), if_neg (by omega)]
  · rw [Memory.move_apply mem (by omega), if_pos (by omega), Nat.add_sub_cancel_left]

end TachyonBoot.Efi
