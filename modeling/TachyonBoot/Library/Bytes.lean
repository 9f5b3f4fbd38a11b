/-
This file is a small library of byte-addressed memory.

A memory gives every address a byte. Bytes are read and written as lists, numbers
in little-endian order, and a block may be moved downwards onto itself by a copy
that runs forwards. That a memory holds a list of bytes at an address is stated
byte by byte, so that it carries over to any memory that has the same bytes at
the same or at shifted places.
-/

import Mathlib.Data.List.Basic
import Mathlib.Algebra.Order.Ring.Nat

namespace TachyonBoot.Library

open List

/-- The bytes of a text. -/
def ascii (chars : List Char) : List UInt8 := chars.map fun char => char.toNat.toUInt8

/-! ### Reading and writing -/

/-- A byte for every address. -/
def Memory := Nat → UInt8

variable {mem : Memory} {address : Nat}

namespace Memory

/-- The bytes from an address on. -/
def read (mem : Memory) (address : Nat) : Nat → List UInt8
  | 0 => []
  | count + 1 => mem address :: read mem (address + 1) count

/-- The memory with a list of bytes stored at an address. -/
def write (mem : Memory) (address : Nat) (bytes : List UInt8) : Memory :=
  fun place => if address ≤ place then bytes.getD (place - address) (mem place) else mem place

/-- The memory after a bytewise copy that runs forwards. -/
def move (mem : Memory) (target source : Nat) : Nat → Memory
  | 0 => mem
  | count + 1 => move (write mem target [mem source]) (target + 1) (source + 1) count

/-- The memory holds the bytes at the address. -/
def Holds (mem : Memory) (address : Nat) (bytes : List UInt8) : Prop :=
  ∀ index byte, bytes[index]? = some byte → mem (address + index) = byte

@[simp] theorem length_read (mem : Memory) (address count : Nat) :
    (mem.read address count).length = count := by
  induction count generalizing address with
  | zero => rfl
  | succ count ih => rw [read, length_cons, ih]

variable {count target : Nat} {bytes : List UInt8}

theorem getElem?_read (mem : Memory) (address : Nat) {index : Nat} (bound : index < count) :
    (mem.read address count)[index]? = some (mem (address + index)) := by
  induction count generalizing address index with
  | zero => cases bound
  | succ count ih =>
    cases index with
    | zero => rfl
    | succ index =>
      rw [read, getElem?_cons_succ, ih (address + 1) (by omega),
        Nat.add_assoc, Nat.add_comm 1]

theorem drop_read (mem : Memory) (address skipped count : Nat) :
    (mem.read address (skipped + count)).drop skipped = mem.read (address + skipped) count := by
  induction skipped generalizing address with
  | zero => rw [Nat.zero_add, drop_zero, Nat.add_zero]
  | succ skipped ih =>
    rw [Nat.add_right_comm, read, drop_succ_cons, ih, Nat.add_assoc,
      Nat.add_comm 1]

theorem read_add (mem : Memory) (address count more : Nat) :
    mem.read address (count + more) =
      mem.read address count ++ mem.read (address + count) more := by
  induction count generalizing address with
  | zero => rw [Nat.zero_add, Nat.add_zero]; rfl
  | succ count ih =>
    rw [Nat.add_right_comm, read, read, ih, cons_append, Nat.add_assoc,
      Nat.add_comm 1]

/-- Memories with the same bytes, perhaps at shifted places, are read alike. -/
theorem read_congr {other : Memory} {shifted : Nat}
    (same : ∀ index < count, mem (address + index) = other (shifted + index)) :
    mem.read address count = other.read shifted count := by
  induction count generalizing address shifted with
  | zero => rfl
  | succ count ih =>
    have first := same 0 (Nat.succ_pos count)
    have later : mem.read (address + 1) count = other.read (shifted + 1) count := by
      refine ih fun index bound => ?_
      have next := same (index + 1) (Nat.succ_lt_succ bound)
      rwa [Nat.add_comm index, ← Nat.add_assoc, ← Nat.add_assoc] at next
    rw [read, read, later]
    exact congrArg (· :: _) first

theorem holds_nil (mem : Memory) (address : Nat) : mem.Holds address [] := by
  intro index byte found
  cases found

theorem holds_cons {first : UInt8} {rest : List UInt8} :
    mem.Holds address (first :: rest) ↔ mem address = first ∧ mem.Holds (address + 1) rest := by
  constructor
  · intro holds
    refine ⟨holds 0 first rfl, fun index byte found => ?_⟩
    rw [Nat.add_assoc, Nat.add_comm 1]
    exact holds (index + 1) byte found
  · rintro ⟨head, tail⟩ index byte found
    cases index with
    | zero => exact head.trans (Option.some.inj found)
    | succ index =>
      rw [Nat.add_comm index, ← Nat.add_assoc]
      exact tail index byte found

theorem holds_append {front back : List UInt8} :
    mem.Holds address (front ++ back) ↔
      mem.Holds address front ∧ mem.Holds (address + front.length) back := by
  induction front generalizing address with
  | nil => exact ⟨fun holds => ⟨holds_nil mem address, holds⟩, And.right⟩
  | cons first rest ih =>
    rw [cons_append, holds_cons, holds_cons, ih, and_assoc,
      length_cons, Nat.add_assoc, Nat.add_comm 1]

theorem Holds.read (holds : mem.Holds address bytes) : mem.read address bytes.length = bytes := by
  induction bytes generalizing address with
  | nil => rfl
  | cons first rest ih =>
    obtain ⟨head, tail⟩ := holds_cons.mp holds
    rw [length_cons, Memory.read, head, ih tail]

theorem read_part (mem : Memory) (address : Nat) {start amount : Nat}
    (inside : start + amount ≤ count) :
    mem.read (address + start) amount = ((mem.read address count).drop start).take amount := by
  obtain ⟨left, rfl⟩ := Nat.exists_eq_add_of_le inside
  rw [Nat.add_assoc, drop_read, read_add, take_left' (length_read ..)]

/-- A memory with the same bytes, perhaps at shifted places, holds the same list. -/
theorem Holds.shift {after : Memory} {shifted : Nat} (holds : mem.Holds address bytes)
    (same : ∀ index, index < bytes.length → after (shifted + index) = mem (address + index)) :
    after.Holds shifted bytes := by
  intro index byte found
  have bound : index < bytes.length := (List.getElem?_eq_some_iff.mp found).1
  rw [same index bound]
  exact holds index byte found

theorem write_holds (mem : Memory) (address : Nat) (bytes : List UInt8) :
    (mem.write address bytes).Holds address bytes := by
  intro index byte found
  rw [write, if_pos (Nat.le_add_right address index), Nat.add_sub_cancel_left,
    getD_eq_getElem?_getD, found, Option.getD_some]

theorem write_outside {place : Nat} (outside : place < address ∨ address + bytes.length ≤ place) :
    mem.write address bytes place = mem place := by
  rw [write]
  split_ifs with above
  · have past : bytes.length ≤ place - address := by omega
    rw [getD_eq_getElem?_getD, getElem?_eq_none past, Option.getD_none]
  · rfl

@[simp] theorem write_nil (mem : Memory) (address : Nat) : mem.write address [] = mem :=
  funext fun place => write_outside (by rw [length_nil]; omega)

theorem write_append (mem : Memory) (address : Nat) (front back : List UInt8) :
    (mem.write address front).write (address + front.length) back =
      mem.write address (front ++ back) := by
  funext place
  by_cases below : place < address
  · rw [write_outside (.inl (by omega)), write_outside (.inl below), write_outside (.inl below)]
  obtain ⟨index, rfl⟩ := Nat.exists_eq_add_of_le (Nat.le_of_not_lt below)
  by_cases inFront : index < front.length
  · rw [write_outside (.inl (by omega))]
    simp [write, getElem?_append_left inFront]
  · obtain ⟨later, rfl⟩ := Nat.exists_eq_add_of_le (Nat.le_of_not_lt inFront)
    rw [← Nat.add_assoc]
    by_cases inBack : later < back.length
    · have stored := write_holds (mem.write address front) (address + front.length) back later _
        (getElem?_eq_getElem inBack)
      have storedWhole := write_holds mem address (front ++ back) (front.length + later) _
        (by rw [getElem?_append_right (Nat.le_add_right ..), Nat.add_sub_cancel_left,
          getElem?_eq_getElem inBack])
      rw [stored, ← storedWhole, Nat.add_assoc]
    · rw [write_outside (.inr (by omega)), write_outside (.inr (by omega)),
        write_outside (.inr (by rw [length_append]; omega))]

theorem read_write_outside (apart : address + count ≤ target ∨ target + bytes.length ≤ address) :
    (mem.write target bytes).read address count = mem.read address count :=
  read_congr fun index bound => write_outside (by omega)

theorem read_write_self (mem : Memory) (address : Nat) (bytes : List UInt8) :
    (mem.write address bytes).read address bytes.length = bytes :=
  (write_holds mem address bytes).read

theorem Holds.write {written : List UInt8} (holds : mem.Holds address bytes)
    (apart : address + bytes.length ≤ target ∨ target + written.length ≤ address) :
    (mem.write target written).Holds address bytes :=
  holds.shift fun index bound => write_outside (by omega)

/-- A forward copy downwards moves the block as a whole. -/
theorem move_apply (mem : Memory) {source : Nat} (downwards : target ≤ source) (count place : Nat) :
    mem.move target source count place =
      if target ≤ place ∧ place < target + count then mem (place + (source - target))
      else mem place := by
  induction count generalizing mem target source with
  | zero =>
    rw [move, if_neg]
    omega
  | succ count ih =>
    rw [move, ih _ (Nat.add_le_add_right downwards 1),
      Nat.add_sub_add_right]
    have single : ([mem source] : List UInt8).length = 1 := rfl
    by_cases here : place = target
    · subst here
      have stored : mem.write place [mem source] place = mem source := by
        have holds := write_holds mem place [mem source] 0 (mem source) rfl
        exact holds
      rw [if_neg (by omega), if_pos (by omega), stored, Nat.add_sub_cancel' downwards]
    · by_cases inside : target + 1 ≤ place ∧ place < target + 1 + count
      · rw [if_pos inside, if_pos (by omega), write_outside (by rw [single]; omega)]
      · rw [if_neg inside, if_neg (by omega), write_outside (by rw [single]; omega)]

end Memory

/-! ### Little-endian numbers -/

/-- A number in the given number of bytes, the lowest first. -/
def littleEndian : Nat → Nat → List UInt8
  | 0, _ => []
  | width + 1, value => value.toUInt8 :: littleEndian width (value / 256)

/-- The number that bytes stand for, the lowest first. -/
def ofLittleEndian (bytes : List UInt8) : Nat :=
  bytes.foldr (fun byte rest => byte.toNat + 256 * rest) 0

@[simp] theorem length_littleEndian (width value : Nat) :
    (littleEndian width value).length = width := by
  induction width generalizing value with
  | zero => rfl
  | succ width ih =>
    rw [littleEndian, length_cons, ih]

theorem ofLittleEndian_littleEndian (width value : Nat) :
    ofLittleEndian (littleEndian width value) = value % 256 ^ width := by
  induction width generalizing value with
  | zero => exact (Nat.mod_one value).symm
  | succ width ih =>
    have split : ofLittleEndian (littleEndian (width + 1) value) =
        value.toUInt8.toNat + 256 * ofLittleEndian (littleEndian width (value / 256)) := rfl
    rw [split, ih, Nat.pow_succ', Nat.mod_mul]
    rfl

theorem ofLittleEndian_cons (byte : UInt8) (rest : List UInt8) :
    ofLittleEndian (byte :: rest) = byte.toNat + 256 * ofLittleEndian rest := rfl

theorem ofLittleEndian_lt (bytes : List UInt8) : ofLittleEndian bytes < 256 ^ bytes.length := by
  induction bytes with
  | nil => exact Nat.one_pos
  | cons byte rest ih =>
    have small := byte.toNat_lt
    rw [ofLittleEndian_cons, length_cons, Nat.pow_succ']
    omega

/-- Bytes are those of the number that they stand for. -/
theorem littleEndian_ofLittleEndian (bytes : List UInt8) :
    littleEndian bytes.length (ofLittleEndian bytes) = bytes := by
  induction bytes with
  | nil => rfl
  | cons byte rest ih =>
    have small := byte.toNat_lt
    have first : (byte.toNat + 256 * ofLittleEndian rest).toUInt8 = byte := by
      rw [← UInt8.toNat_inj, UInt8.toNat_ofNat']
      omega
    rw [ofLittleEndian_cons, length_cons, littleEndian, first,
      show (byte.toNat + 256 * ofLittleEndian rest) / 256 = ofLittleEndian rest by omega,
      ih]

/-- What a memory holds as a number is read as that number. -/
theorem Memory.Holds.readNumber {width value : Nat}
    (holds : mem.Holds address (littleEndian width value)) (small : value < 256 ^ width) :
    ofLittleEndian (mem.read address width) = value := by
  have bytes := holds.read
  rw [length_littleEndian] at bytes
  rw [bytes, ofLittleEndian_littleEndian, Nat.mod_eq_of_lt small]

end TachyonBoot.Library
