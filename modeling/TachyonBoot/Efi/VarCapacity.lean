/-
This file proves when the variable store keeps within its buffer.

The guard of `efi_var_mem_ins()` compares the end of a new entry with
`EFI_VAR_BUF_SIZE`, and computes that end as a sum of two sizes of the caller's
modulo `2 ^ 64`. An insertion stays inside the buffer exactly when the sum does
not wrap or is too large even after it has wrapped. This needs nothing of the
entries that are in the buffer already, so it holds in every state of the store.
-/

import TachyonBoot.Efi.VarRefinement

namespace TachyonBoot.Efi

open Library

/-! ### Insertion -/

/-- Where the copies of an insertion end. Of the length of the name, 32 bits count. -/
def copiesEnd (store : EfiVarStore) (name : U16String) (data1 data2 : List UInt8) : Nat :=
  store.buf.length.toNat + varEntrySize + 2 * (name.chars.length + 1).toUInt32.toNat +
    data1.length + data2.length

/-- What an insertion whose copies end at a place is to do: if it succeeds, the copies and the new
length are within the size and the buffer has become longer; otherwise nothing has changed. -/
structure InsertsWithin (bufSize : VarBufSize) (store : EfiVarStore) (stop : Nat)
    (result : EfiStatus × EfiVarStore) : Prop where
  copies : result.1 = .success → stop ≤ bufSize.size ∧
    ∀ place, place < store.buf.length.toNat ∨ bufSize.size ≤ place →
      result.2.buf.bytes place = store.buf.bytes place
  length : result.1 = .success → store.buf.length.toNat < result.2.buf.length.toNat ∧
    result.2.buf.length.toNat ≤ bufSize.size
  refused : result.1 ≠ .success → result.2 = store

/-- The sum of the guard does not wrap, or is too large even so. -/
def SumFits (bufSize : VarBufSize) (sum : Nat) : Prop :=
  sum < 2 ^ 64 ∨ bufSize.size < sum % 2 ^ 64

instance instDecidableSumFits (bufSize : VarBufSize) (sum : Nat) :
    Decidable (SumFits bufSize sum) :=
  inferInstanceAs (Decidable (_ ∨ _))

section Insertion

variable {bufSize : VarBufSize} {store : EfiVarStore} {name : U16String} {guid : EfiGuid}
  {attributes : UInt32} {data1 data2 : List UInt8} {time : UInt64}

theorem fillEntry_length (mem : Memory) (var : Nat) (name : U16String) (varNameLen : UInt32)
    (guid : EfiGuid) (attributes : UInt32) (time : UInt64)
    (small : data1.length + data2.length < 2 ^ 32) :
    (varLength (fillEntry mem var name varNameLen guid attributes data1 data2 time) var).toNat =
      data1.length + data2.length := by
  have guidSize := guid.size
  have holds : (fillEntry mem var name varNameLen guid attributes data1 data2 time).Holds var
      (littleEndian 4 (data1.length + data2.length)) := by
    simp only [fillEntry]
    refine (((((Memory.write_holds _ _ _).write ?_).write ?_).write ?_).write ?_).write ?_ <;>
      simp only [length_littleEndian, varEntrySize] <;> omega
  rw [varLength, holds.readNumber small]
  exact UInt32.toNat_ofNat_of_lt' small

theorem insertsWithin_of_sumFits (whole : bufSize.size % 8 = 0)
    (fits : SumFits bufSize (copiesEnd store name data1 data2)) :
    InsertsWithin bufSize store (copiesEnd store name data1 data2)
      (efiVarMemIns bufSize store name guid attributes data1 data2 time) := by
  rw [efiVarMemIns, insertEntry]
  dsimp only
  rw [← copiesEnd]
  by_cases refused : bufSize.size < copiesEnd store name data1 data2 % 2 ^ 64
  · rw [if_pos refused]
    exact ⟨EfiStatus.noConfusion, EfiStatus.noConfusion, fun _ => rfl⟩
  rw [if_neg refused]
  have room : copiesEnd store name data1 data2 ≤ bufSize.size := by
    rcases fits with noWrap | tooLarge
    · rw [Nat.mod_eq_of_lt noWrap] at refused
      exact Nat.not_lt.mp refused
    · exact absurd tooLarge refused
  have small := bufSize.atMost
  have next := align8_le room whole
  have above := le_align8 (copiesEnd store name data1 data2)
  have data : data1.length + data2.length < 2 ^ 32 := by
    rw [copiesEnd] at room
    omega
  have longer : store.buf.length.toNat < copiesEnd store name data1 data2 := by
    rw [copiesEnd, varEntrySize]
    omega
  rw [fillEntry_length _ _ _ _ _ _ _ data, ← Nat.add_assoc, ← copiesEnd]
  have length : (align8 (copiesEnd store name data1 data2)).toUInt32.toNat =
      align8 (copiesEnd store name data1 data2) :=
    UInt32.toNat_ofNat_of_lt' (show _ < 2 ^ 32 by omega)
  refine ⟨fun _ => ⟨room, fun place outside => fillEntry_outside _ ?_⟩, fun _ => ?_,
    fun failed => absurd rfl failed⟩
  · exact outside.imp_right room.trans
  · dsimp only
    rw [length]
    exact ⟨longer.trans_le above, next⟩

theorem InsertsWithin.sumFits
    (within : InsertsWithin bufSize store (copiesEnd store name data1 data2)
      (efiVarMemIns bufSize store name guid attributes data1 data2 time)) :
    SumFits bufSize (copiesEnd store name data1 data2) := by
  by_cases refused : bufSize.size < copiesEnd store name data1 data2 % 2 ^ 64
  · exact .inr refused
  · have accepted : (efiVarMemIns bufSize store name guid attributes data1 data2 time).1 =
        .success := by
      rw [efiVarMemIns, insertEntry]
      dsimp only
      rw [← copiesEnd, if_neg refused]
    have room := (within.copies accepted).1
    have small := bufSize.atMost
    exact .inl (by omega)

end Insertion

/-- An insertion into any buffer keeps within it if and only if the sum of its guard fits. -/
theorem efiVarMemIns_insertsWithin_iff (bufSize : VarBufSize) (whole : bufSize.size % 8 = 0)
    (store : EfiVarStore) (name : U16String) (guid : EfiGuid) (attributes : UInt32)
    (data1 data2 : List UInt8) (time : UInt64) :
    InsertsWithin bufSize store (copiesEnd store name data1 data2)
        (efiVarMemIns bufSize store name guid attributes data1 data2 time) ↔
      SumFits bufSize (copiesEnd store name data1 data2) :=
  ⟨InsertsWithin.sumFits, insertsWithin_of_sumFits whole⟩

theorem efiVarMemIns_insertsWithin_letters :
    InsertsWithin smallestBuffer efiVarMemInit
      (copiesEnd efiVarMemInit (repeatedName 3) [1] [2])
      (efiVarMemIns smallestBuffer efiVarMemInit (repeatedName 3) zeroGuid 7 [1] [2] 0) :=
  (efiVarMemIns_insertsWithin_iff smallestBuffer rfl efiVarMemInit (repeatedName 3) zeroGuid 7
    [1] [2] 0).mpr (by decide +kernel)

/-- With `2 ^ 64 - 60` bytes of data the sum is `2 ^ 64`: the insertion succeeds, and its copies run
over the end of the buffer. -/
theorem wrappedSum_overruns :
    (efiVarMemIns smallestBuffer efiVarMemInit (repeatedName 1) zeroGuid 7
        (List.replicate (2 ^ 64 - 60) 0) [] 0).1 = .success ∧
      smallestBuffer.size <
        copiesEnd efiVarMemInit (repeatedName 1) (List.replicate (2 ^ 64 - 60) 0) [] := by
  have sum : copiesEnd efiVarMemInit (repeatedName 1) (List.replicate (2 ^ 64 - 60) 0) [] =
      2 ^ 64 := by
    rw [copiesEnd, List.length_replicate]
    rfl
  refine ⟨?_, by rw [sum]; decide⟩
  rw [efiVarMemIns, insertEntry]
  dsimp only
  rw [← copiesEnd, sum]
  rfl

end TachyonBoot.Efi
