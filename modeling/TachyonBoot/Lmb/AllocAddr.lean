/-
This file is about the allocation of a given range with `lmb_alloc_addr()`.

The code looks for the first bank that the range overlaps and then asks whether the last byte
of the range is in that bank. Whether the first byte is in it is not asked. So a range that
starts in the gap below a bank and ends in the bank is handed out, although there is no memory
at its start; and this is the only way in which a range that is handed out is not memory.
-/

import TachyonBoot.Lmb.HighestFit

namespace TachyonBoot.Lmb

open Library List

/-- The range lies in one bank of the available memory. -/
def InOneBank (available : List LmbRegion) (base size : UInt64) : Prop :=
  ∃ bank ∈ available, bank.lo ≤ base.toNat ∧ base.toNat + size.toNat ≤ bank.hi

/-- Whatever is reserved and whoever listens, the range is handed out only if it lies in one
bank. -/
def HandsOutMemory (available : List LmbRegion) (base size : UInt64) : Prop :=
  ∀ (Listener : Type) (notify : Notify Listener) (grows : Bool) (lmb : LmbState Listener)
    (flags : UInt32), lmb.availableMem.data = available →
      (lmbAllocAddr notify grows lmb base size flags).1 = 0 → InOneBank available base size

/-- The range starts below a bank, in which it ends, and overlaps no bank before that one. -/
def StartsBelowBank (available : List LmbRegion) (base size : UInt64) : Prop :=
  ∃ before bank after, available = before ++ bank :: after ∧
    base.toNat < bank.lo ∧ bank.lo < base.toNat + size.toNat ∧
    base.toNat + size.toNat ≤ bank.hi ∧
    ∀ other ∈ before, ¬other.Overlaps base.toNat size.toNat

section Check

variable {available : List LmbRegion} {base size : UInt64}

theorem lastByte_iff {bank : LmbRegion} (proper : bank.NonWrapping) (nonempty : 0 < size.toNat)
    (inside : base.toNat + size.toNat ≤ 2 ^ 64) :
    lmbAddrsOverlap bank.base bank.size (base + size - 1) 1 = true ↔
      bank.lo < base.toNat + size.toNat ∧ base.toNat + size.toNat ≤ bank.hi := by
  have last : (base + size - 1).toNat = base.toNat + size.toNat - 1 := by
    simp only [UInt64.toNat_sub, UInt64.toNat_add, UInt64.toNat_ofNat]
    omega
  have swapped : lmbAddrsOverlap bank.base bank.size (base + size - 1) 1 =
      lmbAddrsOverlap (base + size - 1) 1 bank.base bank.size := Bool.and_comm _ _
  have one : (1 : UInt64).toNat = 1 := rfl
  rw [swapped, proper.overlap_iff (by decide) (by rw [last, one]; omega), LmbRegion.Overlaps, last,
    one]
  omega

theorem lmbOverlapsRegion_first (proper : ∀ bank ∈ available, bank.NonWrapping)
    (nonempty : 0 < size.toNat) (inside : base.toNat + size.toNat ≤ 2 ^ 64) {rgn : Nat}
    (found : lmbOverlapsRegion available base size = some rgn) :
    ∃ before after, available = before ++ available[rgn]! :: after ∧
      available[rgn]!.Overlaps base.toNat size.toNat ∧
      ∀ other ∈ before, ¬other.Overlaps base.toNat size.toNat := by
  obtain ⟨bound, overlaps, first⟩ := findIdx?_eq_some_iff_getElem.mp found
  have here : available[rgn]! = available[rgn] := getElem!_pos available rgn bound
  have split : available = available.take rgn ++ available[rgn]! :: available.drop (rgn + 1) := by
    rw [here, ← drop_eq_getElem_cons bound, take_append_drop]
  refine ⟨_, _, split, ?_, fun other member => ?_⟩
  · rw [here, ← (proper _ (getElem_mem bound)).overlap_iff nonempty inside]
    exact overlaps
  · obtain ⟨index, isIndex, rfl⟩ := mem_iff_getElem.mp member
    rw [length_take] at isIndex
    rw [getElem_take, ← (proper _ (getElem_mem _)).overlap_iff nonempty inside]
    exact first index (by omega)

end Check

/-- Nothing is reserved, and nobody listens. -/
def unreserved (available : List LmbRegion) : LmbState Unit :=
  { lmbSetup true () with availableMem := { alistInit with data := available } }

/-- A range that starts below a bank is handed out when nothing is reserved. -/
theorem lmbAllocAddr_startsBelow {available : List LmbRegion} {base size : UInt64}
    (proper : ∀ bank ∈ available, bank.NonWrapping) (nonempty : 0 < size.toNat)
    (inside : base.toNat + size.toNat ≤ 2 ^ 64)
    (starts : StartsBelowBank available base size) :
    (lmbAllocAddr quiet true (unreserved available) base size lmbNone).1 = 0 := by
  obtain ⟨before, bank, after, rfl, below, meets, ends, earlier⟩ := starts
  have bankProper := proper bank (by simp)
  have found : lmbOverlapsRegion (before ++ bank :: after) base size = some before.length := by
    have overlaps := (bankProper.overlap_iff nonempty inside).mpr ⟨by omega, meets⟩
    have passed : before.findIdx?
        (fun region => lmbAddrsOverlap base size region.base region.size) = none := by
      rw [findIdx?_eq_none_iff]
      intro other member
      rw [Bool.eq_false_iff, ne_eq,
        (proper other (by simp [member])).overlap_iff nonempty inside]
      exact earlier other member
    rw [lmbOverlapsRegion, findIdx?_append, passed, findIdx?_cons, overlaps]
    simp
  have last := (lastByte_iff bankProper nonempty inside).mpr ⟨meets, ends⟩
  have added : (lmbAddRegionFlags true alistInit base size lmbNone).1 = 0 :=
    lmbAddRegionFlags_free lmbNone rfl (by intro region member; cases member)
  have reserved : (lmbReserve quiet true (unreserved (before ++ bank :: after)) base size
      lmbNone).1 = 0 := by
    simp only [lmbReserve, unreserved, lmbSetup, added, lmbMapUpdateNotify]
    rfl
  have here : (unreserved (before ++ bank :: after)).availableMem.data[before.length]! = bank :=
    getElem!_here before after bank
  replace found : lmbOverlapsRegion (unreserved (before ++ bank :: after)).availableMem.data base
      size = some before.length := found
  rw [lmbAllocAddr, found]
  dsimp only
  rw [here, if_pos last, reserved]
  rfl

/-- Ranges are handed out only where there is memory, except those that start below a bank. -/
theorem lmbAllocAddr_handsOutMemory_iff (available : List LmbRegion) (base size : UInt64)
    (proper : ∀ bank ∈ available, bank.NonWrapping) (ascending : Ascending (spans available))
    (nonempty : 0 < size.toNat) (inside : base.toNat + size.toNat ≤ 2 ^ 64) :
    HandsOutMemory available base size ↔ ¬StartsBelowBank available base size := by
  constructor
  · intro handsOut starts
    obtain ⟨home, inList, low, high⟩ := handsOut Unit quiet true (unreserved available) lmbNone rfl
      (lmbAllocAddr_startsBelow proper nonempty inside starts)
    obtain ⟨before, bank, after, rfl, below, meets, ends, earlier⟩ := starts
    -- the bank it would lie in is either before this one, or behind it, or this one
    have order : ∀ other ∈ after, bank.hi ≤ other.lo := by
      have pairs := pairwise_map.mp ascending
      exact (pairwise_cons.mp (pairwise_append.mp pairs).2.1).1
    rcases mem_append.mp inList with inBefore | inRest
    · exact earlier home inBefore ⟨by omega, by omega⟩
    · rcases mem_cons.mp inRest with rfl | inAfter
      · omega
      · have behind := order home inAfter
        omega
  · intro notBelow Listener notify grows lmb flags isAvailable success
    subst isAvailable
    rw [lmbAllocAddr] at success
    cases found : lmbOverlapsRegion lmb.availableMem.data base size with
    | none =>
      rw [found] at success
      cases success
    | some rgn =>
      rw [found] at success
      dsimp only at success
      obtain ⟨before, after, split, overlaps, first⟩ :=
        lmbOverlapsRegion_first proper nonempty inside found
      generalize lmb.availableMem.data[rgn]! = bank at split overlaps success
      have member : bank ∈ lmb.availableMem.data := by rw [split]; simp
      by_cases last : lmbAddrsOverlap bank.base bank.size (base + size - 1) 1 = true
      · obtain ⟨low, high⟩ := (lastByte_iff (proper bank member) nonempty inside).mp last
        refine ⟨bank, member, ?_, high⟩
        by_contra starts
        exact notBelow ⟨before, bank, after, split, not_le.mp starts, low, high, first⟩
      · rw [if_neg last] at success
        cases success

/-- One bank, and a range that reaches into it from below. -/
theorem gapBelowBank_handedOut :
    (lmbAllocAddr quiet true (unreserved [⟨0x40000000, 0x10000000, lmbNone⟩]) 0x3ffff000 0x2000
        lmbNone).1 = 0 ∧
      ¬InOneBank [⟨0x40000000, 0x10000000, lmbNone⟩] 0x3ffff000 0x2000 := by
  refine ⟨by decide +kernel, ?_⟩
  rintro ⟨bank, member, low, _⟩
  rw [mem_singleton.mp member] at low
  exact absurd low (by decide)

theorem lmbAllocAddr_handsOutMemory_iff_bank :
    HandsOutMemory [⟨0x40000000, 0x10000000, lmbNone⟩] 0x40000000 0x2000 ↔
      ¬StartsBelowBank [⟨0x40000000, 0x10000000, lmbNone⟩] 0x40000000 0x2000 :=
  lmbAllocAddr_handsOutMemory_iff _ _ _ (by decide) (by decide) (by decide) (by decide)

end TachyonBoot.Lmb
