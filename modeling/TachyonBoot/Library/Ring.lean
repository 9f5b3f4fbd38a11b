/-
This file is a small library of ring buffers in byte-addressed memory.

A ring of a given length is the part of a memory below that length, read and written
modulo the length. A list of bytes is stored from a start on in at most two pieces, up
to the end of the ring and then from its beginning. What a store does is described by
the places at offsets from the start: those of the list hold it, all others are as
before. Stores that follow each other compose, and a store does not change what is read
from an arc of the ring that it does not reach.
-/

import Mathlib.Data.Nat.ModEq
import TachyonBoot.Library.Bytes

namespace TachyonBoot.Library

open List

/-! ### Arcs -/

theorem Memory.read_eq_map (mem : Memory) (address count : Nat) :
    mem.read address count = (List.range count).map fun index => mem (address + index) := by
  refine ext_getElem? fun index => ?_
  by_cases inside : index < count
  · rw [Memory.getElem?_read _ _ inside, getElem?_map, getElem?_range inside,
      Option.map_some]
  · rw [getElem?_eq_none (by rw [Memory.length_read]; omega),
      getElem?_eq_none (by rw [length_map, length_range]; omega)]

/-- The bytes of a ring from a start on. -/
def Memory.ringRead (mem : Memory) (length start count : Nat) : List UInt8 :=
  (List.range count).map fun index => mem ((start + index) % length)

section Arcs

variable {mem other : Memory} {length start count : Nat}

@[simp] theorem length_ringRead : (mem.ringRead length start count).length = count := by
  simp [Memory.ringRead]

theorem ringRead_congr (same : ∀ index < count,
    mem ((start + index) % length) = other ((start + index) % length)) :
    mem.ringRead length start count = other.ringRead length start count :=
  map_congr_left fun index inside => same index (mem_range.mp inside)

theorem ringRead_add (mem : Memory) (length start count more : Nat) :
    mem.ringRead length start (count + more) =
      mem.ringRead length start count ++ mem.ringRead length ((start + count) % length) more := by
  unfold Memory.ringRead
  rw [range_add, map_append, map_map]
  refine congrArg _ (map_congr_left fun index _ => ?_)
  rw [Function.comp_apply, Nat.mod_add_mod, Nat.add_assoc]

/-- Offsets below the length lead to different places. -/
theorem ring_offset_inj {first second : Nat} (firstLt : first < length) (secondLt : second < length)
    (same : (start + first) % length = (start + second) % length) : first = second := by
  have modular : first % length = second % length := Nat.ModEq.add_left_cancel' start same
  rwa [Nat.mod_eq_of_lt firstLt, Nat.mod_eq_of_lt secondLt] at modular

end Arcs

/-! ### Stores -/

/-- A piece that is copied to an offset of the memory. -/
structure Piece where
  offset : Nat
  bytes : List UInt8
deriving DecidableEq, Repr

def Memory.applyPieces (mem : Memory) (pieces : List Piece) : Memory :=
  pieces.foldl (fun mem piece => mem.write piece.offset piece.bytes) mem

theorem applyPieces_append (mem : Memory) (front back : List Piece) :
    mem.applyPieces (front ++ back) = (mem.applyPieces front).applyPieces back :=
  foldl_append

/-- The pieces of a list that is stored in a ring. -/
def ringPieces (length start : Nat) (bytes : List UInt8) : List Piece :=
  let first := min bytes.length (length - start)
  ⟨start, bytes.take first⟩ ::
    if first ≠ bytes.length then [⟨0, bytes.drop first⟩] else []

/-- The places of a piece are places of the arc from a start on. -/
def Piece.OnArc (length start count : Nat) (piece : Piece) : Prop :=
  piece.offset + piece.bytes.length ≤ length ∧
    ∀ index < piece.bytes.length, ∃ offset < count,
      piece.offset + index = (start + offset) % length

/-- The ring holds the bytes from the start on, and all other places are as before. -/
structure RingStored (mem after : Memory) (length start : Nat) (bytes : List UInt8) : Prop where
  inside : ∀ index byte, bytes[index]? = some byte → after ((start + index) % length) = byte
  outside : ∀ place, (∀ index < bytes.length, place ≠ (start + index) % length) →
    after place = mem place

section Stores

variable {mem middle after : Memory} {length start : Nat} {bytes more : List UInt8}

theorem ringPieces_onArc (startLt : start < length) (fits : bytes.length ≤ length) :
    ∀ piece ∈ ringPieces length start bytes, piece.OnArc length start bytes.length := by
  intro piece member
  unfold ringPieces at member
  dsimp only at member
  rcases mem_cons.mp member with rfl | second
  · have firstLength : (bytes.take (min bytes.length (length - start))).length =
        min bytes.length (length - start) := by
      rw [length_take]
      omega
    refine ⟨?_, fun index inside => ⟨index, ?_, ?_⟩⟩
    · dsimp only
      omega
    · dsimp only at inside
      omega
    · dsimp only at inside ⊢
      rw [Nat.mod_eq_of_lt (by omega)]
  · split_ifs at second with wraps
    swap
    · exact absurd second not_mem_nil
    obtain rfl := mem_singleton.mp second
    have firstEq : min bytes.length (length - start) = length - start := by omega
    rw [firstEq]
    refine ⟨?_, fun index inside => ⟨length - start + index, ?_, ?_⟩⟩
    · dsimp only
      rw [length_drop]
      omega
    · dsimp only at inside
      rw [length_drop] at inside
      omega
    · dsimp only at inside ⊢
      rw [length_drop] at inside
      rw [show start + (length - start + index) = index + length by omega, Nat.add_mod_right,
        Nat.mod_eq_of_lt (by omega), Nat.zero_add]

theorem ringPieces_stored (mem : Memory) (startLt : start < length)
    (fits : bytes.length ≤ length) :
    RingStored mem (mem.applyPieces (ringPieces length start bytes)) length start bytes := by
  have split := take_append_drop (min bytes.length (length - start)) bytes
  have frontLength : (bytes.take (min bytes.length (length - start))).length =
      min bytes.length (length - start) := by
    rw [length_take]
    omega
  unfold ringPieces Memory.applyPieces
  dsimp only [foldl_cons]
  split_ifs with wraps
  · have firstEq : min bytes.length (length - start) = length - start := by omega
    rw [firstEq] at split frontLength ⊢
    have backLength : (bytes.drop (length - start)).length = bytes.length - (length - start) :=
      length_drop
    simp only [foldl_cons, foldl_nil]
    refine ⟨fun index byte found => ?_, fun place outside => ?_⟩
    · have bound : index < bytes.length := (List.getElem?_eq_some_iff.mp found).1
      by_cases inFront : index < length - start
      · rw [Nat.mod_eq_of_lt (by omega), Memory.write_outside (.inr (by omega))]
        refine Memory.write_holds mem start _ index byte ?_
        rwa [getElem?_take_of_lt inFront]
      · obtain ⟨later, rfl⟩ := Nat.exists_eq_add_of_le (Nat.le_of_not_lt inFront)
        rw [show start + (length - start + later) = later + length by omega, Nat.add_mod_right,
          Nat.mod_eq_of_lt (by omega)]
        have holds := Memory.write_holds (mem.write start (bytes.take (length - start))) 0
          (bytes.drop (length - start)) later byte (by rwa [getElem?_drop])
        rwa [Nat.zero_add] at holds
    · have backOutside : bytes.length - (length - start) ≤ place := by
        refine Nat.le_of_not_lt fun inside => outside (length - start + place) (by omega) ?_
        rw [show start + (length - start + place) = place + length by omega, Nat.add_mod_right,
          Nat.mod_eq_of_lt (by omega)]
      rw [Memory.write_outside (.inr (by omega)), Memory.write_outside]
      refine Decidable.byContradiction fun inside => ?_
      refine outside (place - start) (by omega) ?_
      rw [Nat.mod_eq_of_lt (by omega)]
      omega
  · have whole : min bytes.length (length - start) = bytes.length := by omega
    rw [whole, take_length, foldl_nil]
    refine ⟨fun index byte found => ?_, fun place outside => Memory.write_outside ?_⟩
    · have bound : index < bytes.length := (List.getElem?_eq_some_iff.mp found).1
      rw [Nat.mod_eq_of_lt (by omega)]
      exact Memory.write_holds mem start bytes index byte found
    · refine Decidable.byContradiction fun inside => ?_
      refine outside (place - start) (by omega) ?_
      rw [Nat.mod_eq_of_lt (by omega)]
      omega

namespace RingStored

/-- A store that starts where another has ended stores the two lists together. -/
theorem append (first : RingStored mem middle length start bytes)
    (second : RingStored middle after length ((start + bytes.length) % length) more)
    (fits : bytes.length + more.length ≤ length) :
    RingStored mem after length start (bytes ++ more) := by
  have place (index : Nat) : ((start + bytes.length) % length + index) % length =
      (start + (bytes.length + index)) % length := by
    rw [Nat.mod_add_mod, Nat.add_assoc]
  refine ⟨fun index byte found => ?_, fun target outside => ?_⟩
  · by_cases inFront : index < bytes.length
    · rw [second.outside]
      · rw [getElem?_append_left inFront] at found
        exact first.inside index byte found
      · intro other otherLt same
        rw [place] at same
        have equal := ring_offset_inj (by omega) (by omega) same
        omega
    · obtain ⟨later, rfl⟩ := Nat.exists_eq_add_of_le (Nat.le_of_not_lt inFront)
      rw [getElem?_append_right (Nat.le_add_right ..), Nat.add_sub_cancel_left] at found
      rw [← place]
      exact second.inside later byte found
  · rw [length_append] at outside
    rw [second.outside, first.outside]
    · exact fun index inside => outside index (by omega)
    · intro index inside
      rw [place]
      exact outside (bytes.length + index) (by omega)

theorem ringRead (stored : RingStored mem after length start bytes) :
    after.ringRead length start bytes.length = bytes := by
  refine ext_getElem length_ringRead fun index inRead inBytes => ?_
  simp only [Memory.ringRead, getElem_map, getElem_range]
  exact stored.inside index _ (getElem?_eq_getElem inBytes)

end RingStored

variable {piece : Piece} {count whole : Nat}

theorem Piece.OnArc.avoids {tail unread : Nat}
    (onArc : piece.OnArc length ((tail + unread) % length) count) (fits : unread + count ≤ length)
    {index : Nat} (inside : index < piece.bytes.length) {offset : Nat}
    (offsetLt : offset < unread) :
    piece.offset + index ≠ (tail + offset) % length := by
  obtain ⟨later, laterLt, place⟩ := onArc.2 index inside
  intro same
  rw [place, Nat.mod_add_mod, Nat.add_assoc] at same
  have equal := ring_offset_inj (by omega) (by omega) same
  omega

theorem Piece.OnArc.widen (onArc : piece.OnArc length start count) (inside : count ≤ whole) :
    piece.OnArc length start whole := by
  refine ⟨onArc.1, fun index indexLt => ?_⟩
  obtain ⟨offset, offsetLt, place⟩ := onArc.2 index indexLt
  exact ⟨offset, by omega, place⟩

theorem Piece.OnArc.later {before : Nat}
    (onArc : piece.OnArc length ((start + before) % length) count)
    (inside : before + count ≤ whole) : piece.OnArc length start whole := by
  refine ⟨onArc.1, fun index indexLt => ?_⟩
  obtain ⟨offset, offsetLt, place⟩ := onArc.2 index indexLt
  refine ⟨before + offset, by omega, ?_⟩
  rw [place, Nat.mod_add_mod, Nat.add_assoc]

end Stores

end TachyonBoot.Library
