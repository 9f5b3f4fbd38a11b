/-
This file settles the search of `_lmb_alloc_base()`.

In each bank the search starts at the highest aligned candidate and drops below
every reservation the candidate overlaps. Each reservation is met at most once,
so the loop ends. What it finds is free, and it misses nothing: if some aligned
address of the bank at or below the candidate is free, the search returns an
address. The one thing it does not guarantee is the upper bound. The candidate
is the minimum of the bank's end and `max_addr`, less the size, and when the
size exceeds `max_addr` that difference wraps to the top of the address space.
-/

import Mathlib.Data.List.Count
import Mathlib.Data.Nat.Bitwise
import TachyonBoot.Lmb.Coverage
import TachyonBoot.Lmb.Operations

namespace TachyonBoot.Lmb

open Library List

/-! ### Alignment -/

theorem alignDown_eq (value align : UInt64) :
    alignDown value align = value &&& ~~~(align - 1) := by
  rw [alignDown, UInt64.sub_add_cancel]

theorem alignDown_le (value align : UInt64) : (alignDown value align).toNat ≤ value.toNat := by
  rw [alignDown_eq, UInt64.toNat_and]
  exact Nat.and_le_left

variable {align base size found maxAddr : UInt64} {shift fuel : Nat} {used banks : List LmbRegion}
  {bank : LmbRegion}

theorem alignDown_toNat {value : UInt64} (power : align.toNat = 2 ^ shift) :
    (alignDown value align).toNat = 2 ^ shift * (value.toNat / 2 ^ shift) := by
  have small : 2 ^ shift < 2 ^ 64 := power ▸ align.toNat_lt
  have positive := Nat.two_pow_pos shift
  have mask : (~~~(align - 1)).toNat = 2 ^ 64 - ((2 ^ shift - 1) + 1) := by
    have below : (align - 1).toNat = 2 ^ shift - 1 := by
      simp only [UInt64.toNat_sub, UInt64.toNat_ofNat, power]
      omega
    rw [UInt64.toNat_not, below, UInt64.size]
    omega
  rw [alignDown_eq, UInt64.toNat_and, mask]
  refine Nat.eq_of_testBit_eq fun bit => ?_
  rw [Nat.testBit_and, Nat.testBit_two_pow_sub_succ (by omega), Nat.testBit_two_pow_sub_one,
    Nat.testBit_two_pow_mul, Nat.testBit_div_two_pow]
  by_cases low : bit < shift
  · simp [low]
  · have back : bit - shift + shift = bit := by omega
    by_cases wide : bit < 64
    · simp [low, wide, not_lt.mp low]
    · have zero : value.toNat.testBit bit = false := by
        refine Nat.testBit_lt_two_pow (value.toNat_lt.trans_le ?_)
        exact Nat.pow_le_pow_right (by decide) (by omega)
      simp [zero, back]

theorem dvd_alignDown (power : align.toNat = 2 ^ shift) (value : UInt64) :
    align.toNat ∣ (alignDown value align).toNat := by
  rw [alignDown_toNat power, power]
  exact Nat.dvd_mul_right _ _

theorem le_alignDown {multiple : Nat} (power : align.toNat = 2 ^ shift) {value : UInt64}
    (aligned : align.toNat ∣ multiple) (below : multiple ≤ value.toNat) :
    multiple ≤ (alignDown value align).toNat := by
  obtain ⟨quotient, rfl⟩ := aligned
  rw [alignDown_toNat power, power] at *
  refine Nat.mul_le_mul_left _ ?_
  rw [Nat.le_div_iff_mul_le (Nat.two_pow_pos shift), Nat.mul_comm]
  exact below

/-! ### One step of the search -/

/-- No reservation overlaps the range, by the test the code makes. -/
def Free (used : List LmbRegion) (base size : UInt64) : Prop :=
  ∀ region ∈ used, lmbAddrsOverlap base size region.base region.size = false

instance (used : List LmbRegion) (base size : UInt64) : Decidable (Free used base size) :=
  inferInstanceAs (Decidable (∀ region ∈ used, _))

/-- Looking for an overlapped reservation: there is none, or the index reads one. -/
theorem lmbOverlapsRegion_cases (used : List LmbRegion) (base size : UInt64) :
    (Free used base size ∧ lmbOverlapsRegion used base size = none) ∨
      ∃ rgn, lmbOverlapsRegion used base size = some rgn ∧ used[rgn]! ∈ used ∧
        lmbAddrsOverlap base size used[rgn]!.base used[rgn]!.size = true := by
  cases result : lmbOverlapsRegion used base size with
  | none => exact .inl ⟨findIdx?_eq_none_iff.mp result, rfl⟩
  | some rgn =>
    obtain ⟨bound, overlaps, _⟩ := findIdx?_eq_some_iff_getElem.mp result
    refine .inr ⟨rgn, rfl, ?_, ?_⟩
    · rw [getElem!_pos used rgn bound]
      exact getElem_mem bound
    · rw [getElem!_pos used rgn bound]
      exact overlaps

/-- A reservation with room below it for the range starts below the end of the range it
overlaps, and that range does not wrap. -/
theorem overlap_room {region : LmbRegion} (nonzero : base ≠ 0)
    (overlaps : lmbAddrsOverlap base size region.base region.size = true)
    (room : ¬ region.base < size) :
    region.lo < base.toNat + size.toNat ∧ base.toNat + size.toNat ≤ 2 ^ 64 ∧
      size.toNat ≤ region.lo := by
  have small := base.toNat_lt
  have positive : 0 < base.toNat :=
    Nat.pos_of_ne_zero fun zero => nonzero (UInt64.toNat_inj.mp zero)
  simp only [lmbAddrsOverlap, Bool.and_eq_true, decide_eq_true_eq, UInt64.le_iff_toNat_le,
    UInt64.lt_iff_toNat_lt, UInt64.toNat_sub, UInt64.toNat_add, UInt64.toNat_ofNat,
    LmbRegion.lo] at *
  omega

theorem lowered_le (align : UInt64) {region : LmbRegion} (room : size.toNat ≤ region.lo) :
    (alignDown (region.base - size) align).toNat + size.toNat ≤ region.lo := by
  have below := alignDown_le (region.base - size) align
  have small := region.base.toNat_lt
  simp only [UInt64.toNat_sub, LmbRegion.lo] at *
  omega

/-! ### The search in one bank -/

/-- What the search returns: a free address of the bank at or below the candidate, which is
lowered only when the candidate's range does not wrap. -/
theorem lmbSearchBank_found
    (result : lmbSearchBank used bank size align fuel base = some (some found)) :
    found ≠ 0 ∧ bank.lo ≤ found.toNat ∧ found.toNat ≤ base.toNat ∧ Free used found size ∧
      (found = base ∨ ((∃ value, found = alignDown value align) ∧
        base.toNat + size.toNat ≤ 2 ^ 64)) := by
  induction fuel generalizing base with
  | zero => cases result
  | succ fuel ih =>
    rw [lmbSearchBank] at result
    by_cases inside : base ≠ 0 ∧ bank.base ≤ base
    · rw [if_pos inside] at result
      rcases lmbOverlapsRegion_cases used base size with ⟨free, unhit⟩ | ⟨rgn, hit, _, overlaps⟩
      · simp only [unhit, Option.some.injEq] at result
        subst result
        exact ⟨inside.1, UInt64.le_iff_toNat_le.mp inside.2, le_rfl, free, .inl rfl⟩
      · simp only [hit] at result
        by_cases noRoom : used[rgn]!.base < size
        · rw [if_pos noRoom] at result
          cases result
        · rw [if_neg noRoom] at result
          obtain ⟨below, nowrap, room⟩ := overlap_room inside.1 overlaps noRoom
          have lower := lowered_le align room
          obtain ⟨nonzero, inBank, le, free, origin⟩ := ih result
          refine ⟨nonzero, inBank, by omega, free, .inr ⟨?_, nowrap⟩⟩
          rcases origin with rfl | ⟨aligned, _⟩
          · exact ⟨_, rfl⟩
          · exact aligned
    · rw [if_neg inside] at result
      cases result

theorem countP_lt_of_imp {Item : Type} {items : List Item} {strong weak : Item → Bool}
    (imp : ∀ item, strong item = true → weak item = true) {item : Item} (member : item ∈ items)
    (selected : weak item = true) (rejected : strong item = false) :
    items.countP strong < items.countP weak := by
  have part : items.countP strong = (items.filter weak).countP strong := by
    rw [countP_filter]
    refine countP_congr fun other _ => ?_
    simp only [Bool.and_eq_true]
    exact ⟨fun holds => ⟨holds, imp other holds⟩, And.left⟩
  rw [part, countP_eq_length_filter (p := weak), countP_lt_length_iff]
  exact ⟨item, mem_filter.mpr ⟨member, selected⟩, rejected⟩

/-- The search ends: each round leaves fewer reservations below the end of the candidate. -/
theorem lmbSearchBank_ne_none
    (enough : used.countP (fun region => decide (region.lo < base.toNat + size.toNat)) < fuel) :
    lmbSearchBank used bank size align fuel base ≠ none := by
  induction fuel generalizing base with
  | zero => exact absurd enough (Nat.not_lt_zero _)
  | succ fuel ih =>
    rw [lmbSearchBank]
    by_cases inside : base ≠ 0 ∧ bank.base ≤ base
    · rw [if_pos inside]
      rcases lmbOverlapsRegion_cases used base size with ⟨_, unhit⟩ | ⟨rgn, hit, member, overlaps⟩
      · simp [unhit]
      · simp only [hit]
        by_cases noRoom : used[rgn]!.base < size
        · rw [if_pos noRoom]
          exact Option.some_ne_none _
        · rw [if_neg noRoom]
          obtain ⟨below, _, room⟩ := overlap_room inside.1 overlaps noRoom
          have lower := lowered_le align room
          refine ih ((countP_lt_of_imp (fun region => ?_) member ?_ ?_).trans_le
            (Nat.lt_succ_iff.mp enough))
          · simp only [decide_eq_true_eq]
            omega
          · simpa using below
          · simpa using lower
    · simp [inside]

section

variable {address : UInt64} (power : align.toNat = 2 ^ shift) (nonzero : address ≠ 0)
  (inBank : bank.lo ≤ address.toNat) (aligned : align.toNat ∣ address.toNat)
  (free : Free used address size)

include power nonzero inBank aligned free

/-- The search misses nothing: if an aligned non-zero address of the bank at or below the
candidate is free, the search ends at that address or above it. -/
theorem lmbSearchBank_reaches (below : address.toNat ≤ base.toNat)
    (nowrap : address = base ∨ base.toNat + size.toNat ≤ 2 ^ 64) {outcome : Option UInt64}
    (result : lmbSearchBank used bank size align fuel base = some outcome) :
    ∃ found, outcome = some found ∧ address.toNat ≤ found.toNat := by
  induction fuel generalizing base with
  | zero => cases result
  | succ fuel ih =>
    have positive : 0 < address.toNat :=
      Nat.pos_of_ne_zero fun zero => nonzero (UInt64.toNat_inj.mp zero)
    have inside : base ≠ 0 ∧ bank.base ≤ base := by
      refine ⟨fun zero => ?_, UInt64.le_iff_toNat_le.mpr (inBank.trans below)⟩
      simp only [zero, UInt64.toNat_ofNat] at below
      omega
    rw [lmbSearchBank, if_pos inside] at result
    rcases lmbOverlapsRegion_cases used base size with ⟨_, unhit⟩ | ⟨rgn, hit, member, overlaps⟩
    · simp only [unhit, Option.some.injEq] at result
      exact ⟨base, result.symm, below⟩
    · simp only [hit] at result
      have apart := free _ member
      have fits : address.toNat + size.toNat ≤ used[rgn]!.lo := by
        rcases nowrap with rfl | nowrap
        · rw [apart] at overlaps
          cases overlaps
        · rw [Bool.eq_false_iff] at apart
          simp only [lmbAddrsOverlap, Bool.and_eq_true, decide_eq_true_eq, ne_eq,
            UInt64.le_iff_toNat_le, UInt64.toNat_sub, UInt64.toNat_add, UInt64.toNat_ofNat,
            LmbRegion.lo] at *
          omega
      have room : ¬ used[rgn]!.base < size := by
        rw [UInt64.lt_iff_toNat_lt, not_lt]
        exact (Nat.le_add_left _ _).trans fits
      rw [if_neg room] at result
      have lower := lowered_le align (overlap_room inside.1 overlaps room).2.2
      have start := used[rgn]!.base.toNat_lt
      refine ih (le_alignDown power aligned ?_) (.inr ?_) result
      · simp only [UInt64.toNat_sub, LmbRegion.lo] at *
        omega
      · simp only [LmbRegion.lo] at *
        omega

/-- If there is such an address, the search does not give up. -/
theorem lmbSearchBank_complete (below : address.toNat ≤ base.toNat)
    (nowrap : address = base ∨ base.toNat + size.toNat ≤ 2 ^ 64) :
    lmbSearchBank used bank size align fuel base ≠ some none := by
  intro result
  obtain ⟨found, given, _⟩ :=
    lmbSearchBank_reaches power nonzero inBank aligned free below nowrap result
  cases given

end

/-! ### The banks -/

theorem lmbSearchBanks_found
    (result : lmbSearchBanks used size align maxAddr banks = some (some found)) :
    ∃ bank ∈ banks, ∃ base, lmbBankCandidate bank size align maxAddr = some base ∧
      lmbSearchBank used bank size align (used.length + 1) base = some (some found) := by
  induction banks with
  | nil => cases result
  | cons bank rest ih =>
    rw [lmbSearchBanks] at result
    have later : lmbSearchBanks used size align maxAddr rest = some (some found) →
        ∃ other ∈ bank :: rest, ∃ base, lmbBankCandidate other size align maxAddr = some base ∧
          lmbSearchBank used other size align (used.length + 1) base = some (some found) := by
      intro found
      obtain ⟨other, member, facts⟩ := ih found
      exact ⟨other, mem_cons_of_mem _ member, facts⟩
    cases candidate : lmbBankCandidate bank size align maxAddr with
    | none => exact later (by simpa [candidate] using result)
    | some base =>
      cases search : lmbSearchBank used bank size align (used.length + 1) base with
      | none => simp [candidate, search] at result
      | some outcome =>
        cases outcome with
        | none => exact later (by simpa [candidate, search] using result)
        | some address =>
          have same : address = found := by simpa [candidate, search] using result
          exact ⟨bank, mem_cons_self, base, candidate, same ▸ search⟩

theorem lmbSearchBanks_ne_none (used : List LmbRegion) (size align maxAddr : UInt64)
    (banks : List LmbRegion) : lmbSearchBanks used size align maxAddr banks ≠ none := by
  induction banks with
  | nil => simp [lmbSearchBanks]
  | cons bank rest ih =>
    rw [lmbSearchBanks]
    cases lmbBankCandidate bank size align maxAddr with
    | none => exact ih
    | some base =>
      have ends : lmbSearchBank used bank size align (used.length + 1) base ≠ none :=
        lmbSearchBank_ne_none (Nat.lt_succ_of_le countP_le_length)
      cases search : lmbSearchBank used bank size align (used.length + 1) base with
      | none => exact absurd search ends
      | some outcome =>
        cases outcome with
        | none =>
          simp only [search]
          exact ih
        | some address =>
          simp only [search]
          exact Option.some_ne_none _

theorem lmbSearchBanks_complete (member : bank ∈ banks)
    (candidate : lmbBankCandidate bank size align maxAddr = some base)
    (search : lmbSearchBank used bank size align (used.length + 1) base ≠ some none) :
    ∃ found, lmbSearchBanks used size align maxAddr banks = some (some found) := by
  induction banks with
  | nil => cases member
  | cons head rest ih =>
    have ends : ∀ base, lmbSearchBank used head size align (used.length + 1) base ≠ none :=
      fun _ => lmbSearchBank_ne_none (Nat.lt_succ_of_le countP_le_length)
    rw [lmbSearchBanks]
    cases headCandidate : lmbBankCandidate head size align maxAddr with
    | none =>
      refine ih ((mem_cons.mp member).resolve_left ?_)
      rintro rfl
      rw [candidate] at headCandidate
      cases headCandidate
    | some headBase =>
      cases headSearch : lmbSearchBank used head size align (used.length + 1) headBase with
      | none => exact absurd headSearch (ends headBase)
      | some outcome =>
        simp only [headSearch]
        cases outcome with
        | none =>
          refine ih ((mem_cons.mp member).resolve_left ?_)
          rintro rfl
          rw [candidate, Option.some.injEq] at headCandidate
          exact search (headCandidate ▸ headSearch)
        | some address => exact ⟨address, rfl⟩

/-- A candidate that is bounded by something at least as large as the size lies in its bank and
below the bound. -/
theorem lmbBankCandidate_bounded (inside : bank.hi ≤ 2 ^ 64)
    (candidate : lmbBankCandidate bank size align maxAddr = some base)
    (bounded : maxAddr = lmbAllocAnywhere ∨ size ≤ maxAddr) :
    base.toNat + size.toNat ≤ bank.hi ∧
      (maxAddr ≠ lmbAllocAnywhere → base.toNat + size.toNat ≤ maxAddr.toNat) := by
  have bankSmall := bank.size.toNat_lt
  have start := bank.base.toNat_lt
  unfold lmbBankCandidate at candidate
  by_cases short : bank.size < size
  · rw [if_pos short] at candidate
    cases candidate
  rw [if_neg short] at candidate
  by_cases anywhere : maxAddr = lmbAllocAnywhere
  · rw [if_pos anywhere, Option.some.injEq] at candidate
    have below := alignDown_le (bank.base + bank.size - size) align
    rw [candidate] at below
    refine ⟨?_, absurd anywhere⟩
    simp only [UInt64.lt_iff_toNat_lt, UInt64.toNat_sub, UInt64.toNat_add, LmbRegion.hi] at *
    omega
  · rw [if_neg anywhere] at candidate
    have fits := bounded.resolve_left anywhere
    by_cases starts : bank.base < maxAddr
    · rw [if_pos starts, Option.some.injEq] at candidate
      have below := alignDown_le ((if (if bank.base + bank.size < bank.base then -1
        else bank.base + bank.size) < maxAddr then (if bank.base + bank.size < bank.base then -1
        else bank.base + bank.size) else maxAddr) - size) align
      rw [candidate] at below
      split_ifs at below <;>
        simp only [UInt64.lt_iff_toNat_lt, UInt64.le_iff_toNat_le, UInt64.toNat_sub,
          UInt64.toNat_add, UInt64.toNat_neg, UInt64.toNat_ofNat, UInt64.size,
          LmbRegion.hi] at * <;>
        omega
    · rw [if_neg starts] at candidate
      cases candidate

theorem lmbBankCandidate_wrapped (inside : bank.hi ≤ 2 ^ 64) (align : UInt64)
    (nonzero : maxAddr ≠ lmbAllocAnywhere) (less : maxAddr < size) :
    lmbBankCandidate bank size align maxAddr =
      if size ≤ bank.size ∧ bank.base < maxAddr then some (alignDown (maxAddr - size) align)
      else none := by
  have bankSmall := bank.size.toNat_lt
  have start := bank.base.toNat_lt
  unfold lmbBankCandidate
  by_cases short : bank.size < size
  · rw [if_pos short, if_neg fun both => absurd both.1 (UInt64.not_le.mpr short)]
  rw [if_neg short, if_neg nonzero]
  by_cases starts : bank.base < maxAddr
  · rw [if_pos starts, if_pos ⟨UInt64.not_lt.mp short, starts⟩]
    have long : ¬ (if bank.base + bank.size < bank.base then -1
        else bank.base + bank.size) < maxAddr := by
      split_ifs <;>
        simp only [UInt64.lt_iff_toNat_lt, UInt64.toNat_add, UInt64.toNat_neg,
          UInt64.toNat_ofNat, UInt64.size, LmbRegion.hi] at * <;>
        omega
    simp only [if_neg long]
  · rw [if_neg starts, if_neg fun both => starts both.2]

/-! ### What an allocation returns -/

theorem lmbAddRegionFlags_free {lst : Alist} (flags : UInt32) (alive : lst.fail = false)
    (free : Free lst.data base size) :
    (lmbAddRegionFlags true lst base size flags).1 = 0 := by
  have first : ∃ rgn i coalesced,
      lmbCoalesceFirst lst.data base size flags = .ok (rgn, i, coalesced) := by
    unfold lmbCoalesceFirst
    rcases findIdx_cases (lmbTouches base size) lst.data with
      ⟨_, index⟩ | ⟨before, region, after, split, _, hit, index⟩
    · simp [index]
    · have here : lst.data[before.length]? = some region := by simp [split]
      have apart := free region (by simp [split])
      simp only [lmbTouches, apart, Bool.or_false, bne_iff_ne] at hit
      simp only [index, here]
      split_ifs with above _ below
      · exact ⟨_, _, _, rfl⟩
      · exact ⟨_, _, _, rfl⟩
      · exact ⟨_, _, _, rfl⟩
      · exact ⟨_, _, _, rfl⟩
      · omega
      · omega
  obtain ⟨rgn, i, coalesced, first⟩ := first
  rw [lmbAddRegionFlags, if_neg (by simp [alive])]
  simp only [first, lmbAddToTable, alistExpandBy, alive]
  split_ifs <;> simp_all

/-- The allocation returns what the search finds, if there is room for it and the listener
agrees. -/
theorem lmbAllocBase_fst {Listener : Type} {notify : Notify Listener} {lmb : LmbState Listener}
    (flags : UInt32) (alive : lmb.usedMem.fail = false)
    (agrees : ∀ listener addr size op flags, (notify listener addr size op flags).1 = 0)
    (search : lmbSearchBanks lmb.usedMem.data size align maxAddr
      lmb.availableMem.data.reverse = some (some found)) :
    (lmbAllocBase notify true lmb size align maxAddr flags).1 = found := by
  obtain ⟨bank, _, base, _, result⟩ := lmbSearchBanks_found search
  have added := lmbAddRegionFlags_free flags alive (lmbSearchBank_found result).2.2.2.1
  have notified : ∀ state : LmbState Listener,
      (lmbMapUpdateNotify notify state found size .reserve flags).1 = 0 := by
    intro state
    unfold lmbMapUpdateNotify
    split_ifs
    · exact agrees _ _ _ _ _
    · rfl
  simp [lmbAllocBase, search, added, notified]

/-- A returned address is aligned, in a bank, free, and below the bound. -/
structure AllocSound (available used : List LmbRegion) (size align maxAddr base : UInt64) :
    Prop where
  aligned : align.toNat ∣ base.toNat
  inBank : ∃ bank ∈ available, bank.lo ≤ base.toNat ∧ base.toNat + size.toNat ≤ bank.hi
  unreserved : ∀ address, InRange base size address → ¬ Covered (spans used) address
  bounded : maxAddr ≠ lmbAllocAnywhere → base.toNat + size.toNat ≤ maxAddr.toNat

/-- The bound is lost: it is smaller than the size, and some bank that is large enough and starts
below it has a free aligned address at or below the wrapped difference. When the range at that
difference wraps itself, only the difference counts, since a reservation it overlaps leaves no room
below. -/
def LosesBound (available used : List LmbRegion) (size align maxAddr : UInt64) : Prop :=
  maxAddr ≠ lmbAllocAnywhere ∧ maxAddr < size ∧
    ∃ bank ∈ available, size ≤ bank.size ∧ bank.base < maxAddr ∧
      ∃ address : UInt64, address ≠ 0 ∧ align.toNat ∣ address.toNat ∧ bank.lo ≤ address.toNat ∧
        address.toNat ≤ (alignDown (maxAddr - size) align).toNat ∧ Free used address size ∧
        (address = alignDown (maxAddr - size) align ∨
          (alignDown (maxAddr - size) align).toNat + size.toNat ≤ 2 ^ 64)

theorem free_unreserved (positive : 0 < size.toNat) (inside : base.toNat + size.toNat ≤ 2 ^ 64)
    (usedInside : ∀ region ∈ used, region.hi ≤ 2 ^ 64) (free : Free used base size)
    (address : Nat) (inRange : InRange base size address) :
    ¬ Covered (spans used) address := by
  intro covered
  obtain ⟨region, member, low, high⟩ := covered_spans.mp covered
  unfold InRange at inRange
  have nonempty : 0 < region.size.toNat := by
    simp only [LmbRegion.lo, LmbRegion.hi] at *
    omega
  have apart := free region member
  rw [Bool.eq_false_iff, ne_eq,
    lmbAddrsOverlap_iff positive inside nonempty (usedInside region member)] at apart
  simp only [LmbRegion.lo, LmbRegion.hi] at *
  omega

theorem lmbBankCandidate_aligned
    (candidate : lmbBankCandidate bank size align maxAddr = some base) :
    ∃ value, base = alignDown value align := by
  unfold lmbBankCandidate at candidate
  split_ifs at candidate
  · exact ⟨_, (Option.some.inj candidate).symm⟩
  · exact ⟨_, (Option.some.inj candidate).symm⟩

theorem lmbSearchBanks_aligned (power : align.toNat = 2 ^ shift)
    (search : lmbSearchBanks used size align maxAddr banks = some (some found)) :
    found ≠ 0 ∧ align.toNat ∣ found.toNat := by
  obtain ⟨bank, _, start, candidate, result⟩ := lmbSearchBanks_found search
  obtain ⟨nonzero, _, _, _, origin⟩ := lmbSearchBank_found result
  refine ⟨nonzero, ?_⟩
  rcases origin with rfl | ⟨⟨value, rfl⟩, _⟩
  · obtain ⟨value, rfl⟩ := lmbBankCandidate_aligned candidate
    exact dvd_alignDown power value
  · exact dvd_alignDown power value

/-- The allocation is sound exactly when the bound is not lost: for lists of regions that do
not wrap, a positive size and a power of two as alignment, with room in the list and a listener
that agrees. -/
theorem lmbAllocBase_sound_iff {Listener : Type} (notify : Notify Listener)
    (lmb : LmbState Listener) (size align maxAddr : UInt64) (flags : UInt32) (shift : Nat)
    (availableInside : ∀ bank ∈ lmb.availableMem.data, bank.hi ≤ 2 ^ 64)
    (usedInside : ∀ region ∈ lmb.usedMem.data, region.hi ≤ 2 ^ 64)
    (positive : 0 < size.toNat) (power : align.toNat = 2 ^ shift)
    (alive : lmb.usedMem.fail = false)
    (agrees : ∀ listener addr size op flags, (notify listener addr size op flags).1 = 0) :
    (∀ base, (lmbAllocBase notify true lmb size align maxAddr flags).1 = base → base ≠ 0 →
        AllocSound lmb.availableMem.data lmb.usedMem.data size align maxAddr base) ↔
      ¬ LosesBound lmb.availableMem.data lmb.usedMem.data size align maxAddr := by
  constructor
  · rintro sound ⟨nonzero, less, bank, member, long, starts, address, addressNonzero, aligned,
      inBank, below, free, nowrap⟩
    have candidate := lmbBankCandidate_wrapped (availableInside bank member) align nonzero less
    rw [if_pos ⟨long, starts⟩] at candidate
    obtain ⟨found, search⟩ := lmbSearchBanks_complete (mem_reverse.mpr member) candidate
      (lmbSearchBank_complete power addressNonzero inBank aligned free below nowrap)
    obtain ⟨_, _, _, _, result⟩ := lmbSearchBanks_found search
    have bounded := (sound found (lmbAllocBase_fst flags alive agrees search)
      (lmbSearchBank_found result).1).bounded nonzero
    rw [UInt64.lt_iff_toNat_lt] at less
    omega
  · intro kept base returned nonzero
    cases search : lmbSearchBanks lmb.usedMem.data size align maxAddr
        lmb.availableMem.data.reverse with
    | none => exact absurd search (lmbSearchBanks_ne_none _ _ _ _ _)
    | some outcome =>
      cases outcome with
      | none =>
        simp only [lmbAllocBase, search] at returned
        exact absurd returned.symm nonzero
      | some found =>
        rw [lmbAllocBase_fst flags alive agrees search] at returned
        subst returned
        obtain ⟨bank, reversed, start, candidate, result⟩ := lmbSearchBanks_found search
        have member := mem_reverse.mp reversed
        obtain ⟨_, inBank, below, free, origin⟩ := lmbSearchBank_found result
        have aligned := (lmbSearchBanks_aligned power search).2
        have bounded : maxAddr = lmbAllocAnywhere ∨ size ≤ maxAddr := by
          by_contra neither
          rw [not_or] at neither
          obtain ⟨limited, less⟩ := neither
          rw [UInt64.not_le] at less
          rw [lmbBankCandidate_wrapped (availableInside bank member) align limited less]
            at candidate
          split_ifs at candidate with qualifies
          rw [Option.some.injEq] at candidate
          subst candidate
          exact kept ⟨limited, less, bank, member, qualifies.1, qualifies.2, found, nonzero,
            aligned, inBank, below, free, origin.imp id And.right⟩
        obtain ⟨inside, limit⟩ := lmbBankCandidate_bounded (availableInside bank member) candidate
          bounded
        have bankInside := availableInside bank member
        refine ⟨aligned, ⟨bank, member, inBank, by omega⟩, ?_, fun limited => ?_⟩
        · exact free_unreserved positive (by omega) usedInside free
        · have bound := limit limited
          omega

/-- A listener that ignores every change. -/
def quiet : Notify Unit := fun listener _ _ _ _ => (0, listener)

def oneBank : LmbState Unit :=
  { lmbSetup true () with availableMem := { alistInit with data := [⟨0x1000, 0xf000, lmbNone⟩] } }

/-- With a bound below the size the allocation hands out an address near the top of the address
space, outside every bank. -/
theorem lmbAllocBase_wraps :
    Ascending (spans oneBank.availableMem.data) ∧ Ascending (spans oneBank.usedMem.data) ∧
      (lmbAllocBase quiet true oneBank 0x5000 0x1000 0x2000 lmbNone).1 = 0xffffffffffffd000 ∧
      ¬ AllocSound oneBank.availableMem.data oneBank.usedMem.data 0x5000 0x1000 0x2000
        0xffffffffffffd000 := by
  refine ⟨by decide, by decide, by decide +kernel, fun sound => ?_⟩
  have bounded := sound.bounded (by decide)
  exact absurd bounded (by decide)

theorem lmbAllocBase_sound_iff_oneBank :
    (∀ base, (lmbAllocBase quiet true oneBank 0x5000 0x1000 0 lmbNone).1 = base → base ≠ 0 →
        AllocSound oneBank.availableMem.data oneBank.usedMem.data 0x5000 0x1000 0 base) ↔
      ¬ LosesBound oneBank.availableMem.data oneBank.usedMem.data 0x5000 0x1000 0 :=
  lmbAllocBase_sound_iff quiet oneBank 0x5000 0x1000 0 lmbNone 12 (by decide) (by decide)
    (by decide) (by decide) rfl (fun _ _ _ _ _ => rfl)

end TachyonBoot.Lmb
