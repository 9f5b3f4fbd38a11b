/-
This file is a small library of records in lists of bytes.

A record is a list of bytes in which each field has its offset and its width. When the
bytes are written as a concatenation, a field is found by skipping the pieces in front
of it, and records of one length that follow each other are found by their index.
-/

import TachyonBoot.Library.Bytes
import Mathlib.Data.List.Flatten

namespace TachyonBoot.Library

open List

/-! ### Fields -/

/-- The bytes of a field. -/
def bytesAt (bytes : List UInt8) (offset width : Nat) : List UInt8 := (bytes.drop offset).take width

/-- A field of one byte. -/
def uint8At (bytes : List UInt8) (offset : Nat) : UInt8 := bytes.getD offset 0

/-- A field of two bytes. -/
def uint16At (bytes : List UInt8) (offset : Nat) : UInt16 :=
  UInt16.ofNat (ofLittleEndian (bytesAt bytes offset 2))

/-- A field of four bytes. -/
def uint32At (bytes : List UInt8) (offset : Nat) : UInt32 :=
  UInt32.ofNat (ofLittleEndian (bytesAt bytes offset 4))

/-- A field of eight bytes. -/
def uint64At (bytes : List UInt8) (offset : Nat) : UInt64 :=
  UInt64.ofNat (ofLittleEndian (bytesAt bytes offset 8))

variable {front rest bytes data : List UInt8} {offset width position : Nat}

theorem bytesAt_skip (skipped : front.length ≤ offset) :
    bytesAt (front ++ rest) offset width = bytesAt rest (offset - front.length) width := by
  rw [bytesAt, bytesAt, drop_append, drop_of_length_le skipped, nil_append]

theorem bytesAt_here (whole : front.length = width) :
    bytesAt (front ++ rest) 0 width = front := by
  rw [bytesAt, drop_zero, ← whole, take_left]

theorem bytesAt_take {count : Nat} (inside : offset + width ≤ count) :
    bytesAt (bytes.take count) offset width = bytesAt bytes offset width := by
  rw [bytesAt, bytesAt, drop_take, take_take, Nat.min_eq_left (by omega)]

theorem uint16At_skip (skipped : front.length ≤ offset) :
    uint16At (front ++ rest) offset = uint16At rest (offset - front.length) := by
  rw [uint16At, bytesAt_skip skipped, uint16At]

theorem uint32At_skip (skipped : front.length ≤ offset) :
    uint32At (front ++ rest) offset = uint32At rest (offset - front.length) := by
  rw [uint32At, bytesAt_skip skipped, uint32At]

theorem uint64At_skip (skipped : front.length ≤ offset) :
    uint64At (front ++ rest) offset = uint64At rest (offset - front.length) := by
  rw [uint64At, bytesAt_skip skipped, uint64At]

theorem uint16At_here (value : UInt16) (rest : List UInt8) :
    uint16At (littleEndian 2 value.toNat ++ rest) 0 = value := by
  rw [uint16At, bytesAt_here (length_littleEndian ..), ofLittleEndian_littleEndian,
    Nat.mod_eq_of_lt (show value.toNat < 256 ^ 2 from value.toNat_lt), UInt16.ofNat_toNat]

theorem uint32At_here (value : UInt32) (rest : List UInt8) :
    uint32At (littleEndian 4 value.toNat ++ rest) 0 = value := by
  rw [uint32At, bytesAt_here (length_littleEndian ..), ofLittleEndian_littleEndian,
    Nat.mod_eq_of_lt (show value.toNat < 256 ^ 4 from value.toNat_lt), UInt32.ofNat_toNat]

theorem uint64At_here (value : UInt64) (rest : List UInt8) :
    uint64At (littleEndian 8 value.toNat ++ rest) 0 = value := by
  rw [uint64At, bytesAt_here (length_littleEndian ..), ofLittleEndian_littleEndian,
    Nat.mod_eq_of_lt (show value.toNat < 256 ^ 8 from value.toNat_lt), UInt64.ofNat_toNat]

/-! ### Replaced bytes -/

/-- The bytes of a field, if all are there. -/
def readBytes (bytes : List UInt8) (offset width : Nat) : Option (List UInt8) :=
  if offset + width ≤ bytes.length then some (bytesAt bytes offset width) else none

/-- Bytes with some of them replaced. -/
def overwrite (bytes : List UInt8) (position : Nat) (data : List UInt8) : List UInt8 :=
  bytes.take position ++ data ++ bytes.drop (position + data.length)

variable {index length : Nat} {α : Type} {encode : α → List UInt8} {records : List α}

section

variable (room : position + data.length ≤ bytes.length)

include room

theorem getElem?_overwrite (outside : index < position ∨ position + data.length ≤ index) :
    (overwrite bytes position data)[index]? = bytes[index]? := by
  have front : (bytes.take position).length = position := length_take_of_le (by omega)
  rw [overwrite, append_assoc]
  rcases outside with before | behind
  · rw [getElem?_append_left (by omega), getElem?_take_of_lt before]
  · rw [getElem?_append_right (by omega), getElem?_append_right (by omega),
      getElem?_drop, front]
    congr 1
    omega

theorem length_overwrite :
    (overwrite bytes position data).length = bytes.length := by
  rw [overwrite, length_append, length_append, length_take, length_drop]
  omega

theorem bytesAt_overwrite :
    bytesAt (overwrite bytes position data) position data.length = data := by
  have front : (bytes.take position).length = position := length_take_of_le (by omega)
  rw [overwrite, append_assoc, bytesAt_skip (Nat.le_of_eq front), front, Nat.sub_self,
    bytesAt_here rfl]

theorem readBytes_overwrite_outside
    (outside : offset + width ≤ position ∨ position + data.length ≤ offset) :
    readBytes (overwrite bytes position data) offset width = readBytes bytes offset width := by
  rw [readBytes, readBytes, length_overwrite room]
  congr 2
  refine ext_getElem? fun index => ?_
  rw [bytesAt, bytesAt, getElem?_take, getElem?_take, getElem?_drop,
    getElem?_drop]
  split_ifs
  · exact getElem?_overwrite room (by omega)
  · rfl

end

theorem readBytes_append {more : Nat} (first : readBytes bytes offset width = some front)
    (second : readBytes bytes (offset + width) more = some rest) :
    readBytes bytes offset (width + more) = some (front ++ rest) := by
  unfold readBytes at *
  split_ifs at first second
  rw [if_pos (by omega), ← Option.some.inj first, ← Option.some.inj second, bytesAt, bytesAt,
    bytesAt, take_add, drop_drop]

/-! ### Records of one length -/

theorem flatMap_length_of_records (const : ∀ record ∈ records, (encode record).length = length) :
    (records.flatMap encode).length = records.length * length := by
  rw [length_flatMap, map_congr_left const, map_const', sum_replicate_nat]

theorem bytesAt_flatMap (const : ∀ record ∈ records, (encode record).length = length) {record : α}
    (found : records[index]? = some record) (rest : List UInt8) :
    bytesAt (records.flatMap encode ++ rest) (length * index) length = encode record := by
  induction records generalizing index with
  | nil => cases found
  | cons first others ih =>
    have firstLength := const first mem_cons_self
    rw [flatMap_cons, append_assoc]
    cases index with
    | zero =>
      obtain rfl := Option.some.inj found
      exact bytesAt_here firstLength
    | succ index =>
      rw [Nat.mul_succ, bytesAt_skip (by omega), firstLength, Nat.add_sub_cancel]
      exact ih (fun record member => const record (mem_cons_of_mem _ member))
        found

end TachyonBoot.Library
