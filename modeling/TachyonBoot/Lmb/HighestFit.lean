/-
This file shows that an allocation without a bound takes the highest address that fits.

An address fits when it is an aligned one other than zero from which on the range lies in one
bank of the available memory and overlaps no reservation. The search goes through the banks
from the highest one down and inside of a bank from its end down. Where it drops below a
reservation, every address in between overlaps that reservation, so that nothing is missed.
-/

import TachyonBoot.Lmb.Alloc

namespace TachyonBoot.Lmb

open Library List

/-! ### Addresses that fit -/

/-- The last address of the region, `base + size - 1`, does not wrap. -/
structure LmbRegion.NonWrapping (region : LmbRegion) : Prop where
  ends : 0 < region.hi
  inside : region.hi ≤ 2 ^ 64

instance (region : LmbRegion) : Decidable region.NonWrapping :=
  decidable_of_iff (0 < region.hi ∧ region.hi ≤ 2 ^ 64)
    ⟨fun both => ⟨both.1, both.2⟩, fun proper => ⟨proper.ends, proper.inside⟩⟩

/-- The range from an address on overlaps the region. -/
def LmbRegion.Overlaps (region : LmbRegion) (base size : Nat) : Prop :=
  base < region.hi ∧ region.lo < base + size

variable {base : UInt64}

/-- The test of the code, for ranges and regions that do not wrap. -/
theorem LmbRegion.NonWrapping.overlap_iff {region : LmbRegion} (proper : region.NonWrapping)
    {size : UInt64} (nonempty : 0 < size.toNat) (inside : base.toNat + size.toNat ≤ 2 ^ 64) :
    lmbAddrsOverlap base size region.base region.size = true ↔
      region.Overlaps base.toNat size.toNat := by
  obtain ⟨ends, regionInside⟩ := proper
  simp only [LmbRegion.Overlaps, lmbAddrsOverlap, Bool.and_eq_true, decide_eq_true_eq,
    UInt64.le_iff_toNat_le, UInt64.toNat_sub, UInt64.toNat_add, UInt64.toNat_ofNat, LmbRegion.lo,
    LmbRegion.hi] at *
  omega

section Search

variable {available used : List LmbRegion} {size align : UInt64}

variable (available used size align) in
/-- The address can be given to a range of the size. -/
structure Fits (base : Nat) : Prop where
  nonzero : base ≠ 0
  aligned : align.toNat ∣ base
  inBank : ∃ bank ∈ available, bank.lo ≤ base ∧ base + size.toNat ≤ bank.hi
  unreserved : ∀ region ∈ used, ¬region.Overlaps base size.toNat

variable (available used size align) in
/-- The result is the highest address that fits, or zero when there is none. -/
def HighestFit (result : UInt64) : Prop :=
  (result = 0 ∧ ∀ base, ¬Fits available used size align base) ∨
    (Fits available used size align result.toNat ∧
      ∀ base, Fits available used size align base → base ≤ result.toNat)

theorem free_iff (usedProper : ∀ region ∈ used, region.NonWrapping) (nonempty : 0 < size.toNat)
    (inside : base.toNat + size.toNat ≤ 2 ^ 64) :
    Free used base size ↔ ∀ region ∈ used, ¬region.Overlaps base.toNat size.toNat := by
  refine forall₂_congr fun region member => ?_
  rw [← (usedProper region member).overlap_iff nonempty inside, Bool.eq_false_iff]

/-! ### The search in a bank -/

theorem lmbBankCandidate_anywhere (bank : LmbRegion) (size align : UInt64) :
    lmbBankCandidate bank size align lmbAllocAnywhere =
      if bank.size < size then none
      else some (alignDown (bank.base + bank.size - size) align) := by
  unfold lmbBankCandidate
  rw [if_pos rfl]

variable {shift : Nat} {bank : LmbRegion}

section

variable (power : align.toNat = 2 ^ shift) (nonempty : 0 < size.toNat)
  (usedProper : ∀ region ∈ used, region.NonWrapping) (bankInside : bank.hi ≤ 2 ^ 64)

include power nonempty usedProper bankInside

/-- Where the range fits into a bank, the search of that bank ends there or above. -/
theorem lmbSearchBank_atLeast {address : Nat} (fits : Fits [bank] used size align address) :
    ∃ base, lmbBankCandidate bank size align lmbAllocAnywhere = some base ∧
      ∀ fuel outcome, lmbSearchBank used bank size align fuel base = some outcome →
        ∃ found, outcome = some found ∧ address ≤ found.toNat := by
  obtain ⟨nonzero, aligned, ⟨other, member, low, high⟩, unreserved⟩ := fits
  obtain rfl := mem_singleton.mp member
  have word : (UInt64.ofNat address).toNat = address :=
    UInt64.toNat_ofNat_of_lt' (show address < 2 ^ 64 by omega)
  have large : ¬other.size < size := by
    rw [UInt64.lt_iff_toNat_lt]
    simp only [LmbRegion.lo, LmbRegion.hi] at *
    omega
  have last : (other.base + other.size - size).toNat + size.toNat = other.hi := by
    have small := other.size.toNat_lt
    simp only [UInt64.toNat_sub, UInt64.toNat_add, LmbRegion.lo, LmbRegion.hi] at *
    omega
  have lower := alignDown_le (other.base + other.size - size) align
  refine ⟨_, by rw [lmbBankCandidate_anywhere, if_neg large], fun fuel outcome result => ?_⟩
  rw [← word]
  refine lmbSearchBank_reaches power ?_ ?_ ?_ ?_ (le_alignDown power ?_ ?_) (.inr ?_) result
  · intro zero
    rw [zero] at word
    exact nonzero word.symm
  · rwa [word]
  · rwa [word]
  · rw [free_iff usedProper nonempty (by omega), word]
    exact unreserved
  · rwa [word]
  · omega
  · omega

theorem fits_of_lmbSearchBank {found : UInt64} {fuel : Nat}
    (candidate : lmbBankCandidate bank size align lmbAllocAnywhere = some base)
    (result : lmbSearchBank used bank size align fuel base = some (some found)) :
    Fits [bank] used size align found.toNat := by
  obtain ⟨nonzero, low, below, free, origin⟩ := lmbSearchBank_found result
  have high := (lmbBankCandidate_bounded bankInside candidate (.inl rfl)).1
  refine ⟨fun zero => nonzero (UInt64.toNat_inj.mp zero), ?_,
    ⟨bank, mem_singleton_self bank, low, by omega⟩, ?_⟩
  · rcases origin with rfl | ⟨⟨value, rfl⟩, _⟩
    · obtain ⟨value, rfl⟩ := lmbBankCandidate_aligned candidate
      exact dvd_alignDown power value
    · exact dvd_alignDown power value
  · rwa [← free_iff usedProper nonempty (by omega)]

end

/-! ### The search over the banks -/

variable {banks : List LmbRegion}

theorem Fits.mono {others : List LmbRegion} {base : Nat} (fits : Fits banks used size align base)
    (sub : ∀ bank ∈ banks, bank ∈ others) :
    Fits others used size align base := by
  obtain ⟨bank, member, inBank⟩ := fits.inBank
  exact ⟨fits.nonzero, fits.aligned, ⟨bank, sub bank member, inBank⟩, fits.unreserved⟩

theorem Fits.cons_cases {base : Nat} (fits : Fits (bank :: banks) used size align base) :
    Fits [bank] used size align base ∨ Fits banks used size align base := by
  obtain ⟨other, member, inBank⟩ := fits.inBank
  rcases mem_cons.mp member with rfl | later
  · exact .inl ⟨fits.nonzero, fits.aligned, ⟨_, mem_singleton_self _, inBank⟩,
      fits.unreserved⟩
  · exact .inr ⟨fits.nonzero, fits.aligned, ⟨other, later, inBank⟩, fits.unreserved⟩

variable (used size align) in
/-- The search over the banks ends, with the highest address that fits or with none. -/
def SearchesHighest (banks : List LmbRegion) : Prop :=
  (lmbSearchBanks used size align lmbAllocAnywhere banks = some none ∧
      ∀ base, ¬Fits banks used size align base) ∨
    ∃ found, lmbSearchBanks used size align lmbAllocAnywhere banks = some (some found) ∧
      Fits banks used size align found.toNat ∧
      ∀ base, Fits banks used size align base → base ≤ found.toNat

/-- The search over banks in descending order gives the highest address that fits. -/
theorem lmbSearchBanks_highest (power : align.toNat = 2 ^ shift) (nonempty : 0 < size.toNat)
    (usedProper : ∀ region ∈ used, region.NonWrapping) (inside : ∀ bank ∈ banks, bank.hi ≤ 2 ^ 64)
    (descending : banks.Pairwise fun first second => second.hi ≤ first.lo) :
    SearchesHighest used size align banks := by
  induction banks with
  | nil =>
    refine .inl ⟨rfl, fun base fits => ?_⟩
    obtain ⟨bank, member, _⟩ := fits.inBank
    cases member
  | cons bank rest ih =>
    obtain ⟨lower, restDescending⟩ := pairwise_cons.mp descending
    have bankInside := inside bank mem_cons_self
    have onward := ih
      (fun other member => inside other (mem_cons_of_mem _ member)) restDescending
    -- without a fit in the first bank the others decide
    have skips : lmbSearchBanks used size align lmbAllocAnywhere (bank :: rest) =
        lmbSearchBanks used size align lmbAllocAnywhere rest →
        (∀ base, ¬Fits [bank] used size align base) →
          SearchesHighest used size align (bank :: rest) := by
      intro same noneHere
      rw [SearchesHighest, same]
      rcases onward with ⟨nothing, all⟩ | ⟨found, search, fits, highest⟩
      · exact .inl ⟨nothing, fun base fits => fits.cons_cases.elim (noneHere base) (all base)⟩
      · exact .inr ⟨found, search, fits.mono fun _ => mem_cons_of_mem _,
          fun base fits => fits.cons_cases.elim (fun here => absurd here (noneHere base))
            (highest base)⟩
    cases candidate : lmbBankCandidate bank size align lmbAllocAnywhere with
    | none =>
      refine skips (by rw [lmbSearchBanks, candidate]) fun base fits => ?_
      obtain ⟨_, given, _⟩ := lmbSearchBank_atLeast power nonempty usedProper bankInside fits
      rw [candidate] at given
      cases given
    | some start =>
      have ends : lmbSearchBank used bank size align (used.length + 1) start ≠ none :=
        lmbSearchBank_ne_none (Nat.lt_succ_of_le countP_le_length)
      obtain ⟨outcome, search⟩ := Option.ne_none_iff_exists'.mp ends
      have reached : ∀ base, Fits [bank] used size align base →
          ∃ found, outcome = some found ∧ base ≤ found.toNat := by
        intro base fits
        obtain ⟨first, given, reaches⟩ :=
          lmbSearchBank_atLeast power nonempty usedProper bankInside fits
        rw [candidate] at given
        cases given
        exact reaches _ _ search
      cases outcome with
      | none =>
        refine skips (by rw [lmbSearchBanks, candidate]; simp only [search]) fun base fits => ?_
        obtain ⟨_, given, _⟩ := reached base fits
        cases given
      | some found =>
        have here := fits_of_lmbSearchBank power nonempty usedProper bankInside candidate search
        refine .inr ⟨found, by rw [lmbSearchBanks, candidate]; simp only [search],
          here.mono (by simp), fun base fits => ?_⟩
        rcases fits.cons_cases with inBank | below
        · obtain ⟨_, given, bound⟩ := reached base inBank
          cases given
          exact bound
        · obtain ⟨other, member, _, high⟩ := below.inBank
          obtain ⟨only, isBank, low, _⟩ := here.inBank
          obtain rfl := mem_singleton.mp isBank
          have order := lower other member
          omega

end Search

/-! ### The allocations -/

/-- Both allocations without a bound take the highest address that fits, and the search in a bank
ends after at most one step for each reservation. -/
theorem alloc_highestFit {Listener : Type} (notify : Notify Listener) (lmb : LmbState Listener)
    (size align : UInt64) (flags : UInt32) (shift : Nat)
    (availableInside : ∀ bank ∈ lmb.availableMem.data, bank.NonWrapping)
    (availableAscending : Ascending (spans lmb.availableMem.data))
    (usedInside : ∀ region ∈ lmb.usedMem.data, region.NonWrapping)
    (positive : 0 < size.toNat) (power : align.toNat = 2 ^ shift)
    (alive : lmb.usedMem.fail = false)
    (agrees : ∀ listener addr size op flags, (notify listener addr size op flags).1 = 0) :
    HighestFit lmb.availableMem.data lmb.usedMem.data size align
        (lmbAllocBase notify true lmb size align lmbAllocAnywhere flags).1 ∧
      HighestFit lmb.availableMem.data lmb.usedMem.data size align
        (ioLmbAlloc true lmb size align).1 ∧
      ∀ bank ∈ lmb.availableMem.data, ∀ base,
        lmbSearchBank lmb.usedMem.data bank size align (lmb.usedMem.data.length + 1) base ≠
          none := by
  have descending : lmb.availableMem.data.reverse.Pairwise
      fun first second => second.hi ≤ first.lo :=
    pairwise_reverse.mpr (pairwise_map.mp availableAscending)
  have inReverse : ∀ base, Fits lmb.availableMem.data.reverse lmb.usedMem.data size align base ↔
      Fits lmb.availableMem.data lmb.usedMem.data size align base :=
    fun base => ⟨fun fits => fits.mono fun _ => mem_reverse.mp,
      fun fits => fits.mono fun _ => mem_reverse.mpr⟩
  have search := lmbSearchBanks_highest power positive usedInside
    (fun bank member => (availableInside bank (mem_reverse.mp member)).inside) descending
  simp only [SearchesHighest, inReverse] at search
  refine ⟨?_, ?_, fun bank _ base =>
    lmbSearchBank_ne_none (Nat.lt_succ_of_le countP_le_length)⟩
  · rcases search with ⟨nothing, noFit⟩ | ⟨found, result, highest⟩
    · exact .inl ⟨by rw [lmbAllocBase, nothing], noFit⟩
    · refine .inr ?_
      rw [lmbAllocBase_fst flags alive agrees result]
      exact highest
  · rcases search with ⟨nothing, noFit⟩ | ⟨found, result, highest⟩
    · exact .inl ⟨by rw [ioLmbAlloc, nothing], noFit⟩
    · refine .inr ?_
      obtain ⟨bank, _, start, _, inBank⟩ := lmbSearchBanks_found result
      have added := lmbAddRegionFlags_free lmbNone alive (lmbSearchBank_found inBank).2.2.2.1
      have taken : (ioLmbAlloc true lmb size align).1 = found := by
        simp [ioLmbAlloc, result, added]
      rw [taken]
      exact highest

/-- Two banks, the upper one of which is reserved in its middle. -/
def twoBanks : LmbState Unit :=
  { lmbSetup true () with
    availableMem := { alistInit with
      data := [⟨0x1000, 0x3000, lmbNone⟩, ⟨0x8000, 0x4000, lmbNone⟩] }
    usedMem := { alistInit with data := [⟨0x9000, 0x2000, lmbNomap⟩] } }

theorem alloc_highestFit_twoBanks :
    HighestFit twoBanks.availableMem.data twoBanks.usedMem.data 0x2000 0x1000
        (lmbAllocBase quiet true twoBanks 0x2000 0x1000 lmbAllocAnywhere lmbNone).1 ∧
      HighestFit twoBanks.availableMem.data twoBanks.usedMem.data 0x2000 0x1000
        (ioLmbAlloc true twoBanks 0x2000 0x1000).1 ∧
      ∀ bank ∈ twoBanks.availableMem.data, ∀ base,
        lmbSearchBank twoBanks.usedMem.data bank 0x2000 0x1000
          (twoBanks.usedMem.data.length + 1) base ≠ none :=
  alloc_highestFit quiet twoBanks 0x2000 0x1000 lmbNone 12 (by decide) (by decide) (by decide)
    (by decide) (by decide) rfl (fun _ _ _ _ _ => rfl)

end TachyonBoot.Lmb
