/-
This file is about the number of free bytes from an address on, `lmb_get_free_size()`.

The code looks whether the address is in some bank and then only at the reservations: the free
bytes are counted to the first reservation above the address, or to the end of the last bank. So
gaps between the banks below that place are counted too; and a reservation that reaches the top of
the address space is not recognised when it holds the address, because its end wraps to zero.
-/

import TachyonBoot.Lmb.HighestFit

namespace TachyonBoot.Lmb

open Library List

/-- The loop of `lmb_get_free_size()` over the reservations. -/
def freeSizeLoop (addr : UInt64) : List LmbRegion → Option UInt64
  | [] => none
  | region :: rest =>
    if addr < region.base then some (region.base - addr)
    else if region.base + region.size > addr then some 0
    else freeSizeLoop addr rest

def lmbGetFreeSize (available used : List LmbRegion) (addr : UInt64) : UInt64 :=
  match lmbOverlapsRegion available addr 1 with
  | none => 0
  | some _ =>
    match freeSizeLoop addr used with
    | some size => size
    | none =>
      let last := available[available.length - 1]!
      last.base + last.size - addr

section FreeSize

variable (available used : List LmbRegion) (addr : UInt64)

/-- Every byte that is reported is memory and not reserved. -/
def ReportsUsable : Prop :=
  ∀ place, addr.toNat ≤ place →
    place < addr.toNat + (lmbGetFreeSize available used addr).toNat →
      Covered (spans available) place ∧ ¬ Covered (spans used) place

/-- Where the count ends: at the first reservation above the address, or else at the end of the
last bank, as far as the distance fits into 64 bits. -/
def countedTo : Nat :=
  match used.find? (fun region => decide (addr < region.base)) with
  | some region => region.lo
  | none => addr.toNat + (available[available.length - 1]!.hi - addr.toNat) % 2 ^ 64

/-- No bank ends between the address and the end of the count without another one behind it. -/
def NoGap : Prop :=
  ∀ bank ∈ available, addr.toNat < bank.hi → bank.hi < countedTo available used addr →
    ∃ next ∈ available, next.lo = bank.hi ∧ next.lo < next.hi

instance : Decidable (NoGap available used addr) :=
  inferInstanceAs (Decidable (∀ bank ∈ available, addr.toNat < bank.hi →
    bank.hi < countedTo available used addr → ∃ next ∈ available, next.lo = bank.hi ∧
      next.lo < next.hi))

variable {available used addr}

theorem freeSizeLoop_append {before : List LmbRegion}
    (passed : ∀ region ∈ before, region.hi ≤ addr.toNat) (after : List LmbRegion) :
    freeSizeLoop addr (before ++ after) = freeSizeLoop addr after := by
  induction before with
  | nil => rfl
  | cons region before ih =>
    obtain ⟨here, later⟩ := forall_mem_cons.mp passed
    have bound := addr.toNat_lt
    rw [cons_append, freeSizeLoop, if_neg, if_neg, ih later]
    · simp only [LmbRegion.hi, gt_iff_lt, UInt64.lt_iff_toNat_lt, UInt64.toNat_add] at *
      omega
    · simp only [LmbRegion.hi, UInt64.lt_iff_toNat_lt] at *
      omega

/-- The address is in a reservation: it is recognised unless it reaches the top. -/
theorem freeSizeLoop_inside (proper : ∀ region ∈ used, region.NonWrapping)
    (ascending : Ascending (spans used)) {region : LmbRegion} (member : region ∈ used)
    (contains : region.span.Contains addr.toNat) :
    freeSizeLoop addr used = if region.hi < 2 ^ 64 then some 0 else none := by
  obtain ⟨before, after, rfl⟩ := append_of_mem member
  have nonWrapping := (proper region member).inside
  obtain ⟨low, high⟩ := contains
  obtain ⟨below, above⟩ := ascending_split ascending
  rw [freeSizeLoop_append fun other inBefore => (below other inBefore).trans low, freeSizeLoop,
    if_neg]
  · split_ifs with ends top top
    · rfl
    · exfalso
      simp only [LmbRegion.hi, gt_iff_lt, UInt64.lt_iff_toNat_lt, UInt64.toNat_add] at *
      omega
    · exfalso
      simp only [LmbRegion.hi, gt_iff_lt, UInt64.lt_iff_toNat_lt, UInt64.toNat_add,
        LmbRegion.span_hi] at *
      omega
    · -- above the top of the address space there is no further reservation
      cases after with
      | nil => rfl
      | cons next after =>
        have further := above next (mem_cons_self ..)
        have bound := next.base.toNat_lt
        unfold LmbRegion.lo at further
        omega
  · simp only [LmbRegion.span_lo, LmbRegion.lo, UInt64.lt_iff_toNat_lt] at *
    omega

/-- The address is in no reservation: the count goes to the first one above it. -/
theorem freeSizeLoop_outside (outside : ¬ Covered (spans used) addr.toNat) :
    freeSizeLoop addr used =
      (used.find? fun region => decide (addr < region.base)).map (·.base - addr) := by
  have passed : ∀ region ∈ used, ¬ addr < region.base → region.hi ≤ addr.toNat := by
    intro region member below
    by_contra above
    refine outside ⟨region.span, mem_map_of_mem member, ?_, by simpa using above⟩
    simp only [LmbRegion.span_lo, LmbRegion.lo, UInt64.lt_iff_toNat_lt] at *
    omega
  cases found : used.find? fun region => decide (addr < region.base) with
  | none =>
    have all := find?_eq_none.mp found
    have skipped := freeSizeLoop_append
      (fun region member => passed region member (by simpa using all region member)) []
    rw [append_nil] at skipped
    exact skipped
  | some region =>
    obtain ⟨here, before, after, rfl, earlier⟩ := find?_eq_some_iff_append.mp found
    rw [freeSizeLoop_append fun other member =>
      passed other (mem_append_left _ member) (by simpa using earlier other member),
      freeSizeLoop, if_pos (by simpa using here)]
    rfl

theorem NoGap.covered (noGap : NoGap available used addr)
    (start : Covered (spans available) addr.toNat) {place : Nat} (above : addr.toNat ≤ place)
    (below : place < countedTo available used addr) : Covered (spans available) place := by
  induction place, above using Nat.le_induction with
  | base => exact start
  | succ place above ih =>
    obtain ⟨span, member, low, high⟩ := ih (Nat.lt_of_succ_lt below)
    by_cases inside : place + 1 < span.hi
    · exact ⟨span, member, Nat.le_succ_of_le low, inside⟩
    · obtain ⟨bank, inAvailable, rfl⟩ := mem_map.mp member
      have ends : bank.hi = place + 1 := Nat.le_antisymm (Nat.not_lt.mp inside) high
      obtain ⟨next, inAvailable', starts, nonempty⟩ :=
        noGap bank inAvailable (by omega) (by omega)
      exact ⟨next.span, mem_map_of_mem inAvailable', (starts.trans ends).le,
        by rw [LmbRegion.span_hi]; omega⟩

/-- The code finds a bank exactly when the address is memory. -/
theorem lmbOverlapsRegion_eq_none_iff (proper : ∀ bank ∈ available, bank.NonWrapping) :
    lmbOverlapsRegion available addr 1 = none ↔ ¬ Covered (spans available) addr.toNat := by
  have bound := addr.toNat_lt
  have one : (1 : UInt64).toNat = 1 := rfl
  rw [lmbOverlapsRegion, findIdx?_eq_none_iff, Covered, not_exists]
  simp only [not_and]
  rw [forall_mem_spans]
  refine forall₂_congr fun bank member => ?_
  rw [← Bool.not_eq_true, (proper bank member).overlap_iff (by decide) (by omega), one,
    LmbRegion.Overlaps, Span.Contains, LmbRegion.span_lo, LmbRegion.span_hi]
  omega

theorem hi_le_last (ascending : Ascending (spans available)) {bank : LmbRegion}
    (member : bank ∈ available) : bank.hi ≤ available[available.length - 1]!.hi := by
  obtain ⟨front, last, rfl⟩ := (eq_nil_or_concat' available).resolve_left
    (ne_nil_of_mem member)
  rw [show (front ++ [last])[(front ++ [last]).length - 1]! = last by simp]
  rcases mem_append.mp member with inFront | isLast
  · rw [Ascending, spans_append, pairwise_append] at ascending
    have below : bank.hi ≤ last.lo :=
      ascending.2.2 bank.span (mem_map_of_mem inFront) last.span (by simp)
    exact below.trans (Nat.le_add_right _ _)
  · rw [mem_singleton.mp isLast]

section

variable (proper : ∀ bank ∈ available, bank.NonWrapping) (ascending : Ascending (spans available))
  (start : Covered (spans available) addr.toNat)

include proper ascending start

/-- Without a reservation that is recognised the count goes to the end of the last bank. -/
theorem lmbGetFreeSize_of_loop_eq_none (passed : freeSizeLoop addr used = none) :
    addr.toNat < available[available.length - 1]!.hi ∧
      available[available.length - 1]!.hi ≤ 2 ^ 64 ∧
      (lmbGetFreeSize available used addr).toNat =
        (available[available.length - 1]!.hi - addr.toNat) % 2 ^ 64 := by
  cases found : lmbOverlapsRegion available addr 1 with
  | none => exact absurd start ((lmbOverlapsRegion_eq_none_iff proper).mp found)
  | some index =>
    rw [lmbGetFreeSize, found, passed]
    obtain ⟨_, member, _, high⟩ := start
    obtain ⟨bank, inAvailable, rfl⟩ := mem_map.mp member
    have beyond := hi_le_last ascending inAvailable
    have nonempty : available.length - 1 < available.length :=
      Nat.sub_lt (length_pos_of_mem inAvailable) Nat.one_pos
    have isLast : available[available.length - 1]! ∈ available := by
      rw [getElem!_pos available (available.length - 1) nonempty]
      exact getElem_mem nonempty
    have inside := (proper _ isLast).inside
    generalize available[available.length - 1]! = last at *
    have bound := addr.toNat_lt
    simp only [LmbRegion.span_hi, LmbRegion.hi, UInt64.toNat_sub, UInt64.toNat_add] at *
    omega

theorem lmbGetFreeSize_outside (outside : ¬ Covered (spans used) addr.toNat) :
    addr.toNat + (lmbGetFreeSize available used addr).toNat = countedTo available used addr := by
  have loop := freeSizeLoop_outside outside
  rw [countedTo]
  cases above : used.find? fun region => decide (addr < region.base) with
  | none =>
    rw [above] at loop
    rw [(lmbGetFreeSize_of_loop_eq_none proper ascending start loop).2.2]
  | some region =>
    cases found : lmbOverlapsRegion available addr 1 with
    | none => exact absurd start ((lmbOverlapsRegion_eq_none_iff proper).mp found)
    | some index =>
      have below : addr < region.base := by simpa using find?_some above
      have bound := region.base.toNat_lt
      rw [above] at loop
      rw [lmbGetFreeSize, found, loop]
      dsimp only [Option.map_some]
      simp only [UInt64.lt_iff_toNat_lt, UInt64.toNat_sub, LmbRegion.lo] at *
      omega

end

theorem not_covered_of_lt_countedTo (ascending : Ascending (spans used))
    (outside : ¬ Covered (spans used) addr.toNat) {place : Nat} (above : addr.toNat ≤ place)
    (below : place < countedTo available used addr) : ¬ Covered (spans used) place := by
  rintro ⟨_, member, low, high⟩
  obtain ⟨region, inUsed, rfl⟩ := mem_map.mp member
  have starts : addr < region.base := by
    by_contra notAbove
    refine outside ⟨region.span, member, ?_, Nat.lt_of_le_of_lt above high⟩
    simp only [LmbRegion.span_lo, LmbRegion.lo, UInt64.lt_iff_toNat_lt] at *
    omega
  -- the first reservation above the address lies at or below this one
  cases found : used.find? fun region => decide (addr < region.base) with
  | none => exact absurd starts (by simpa using find?_eq_none.mp found region inUsed)
  | some first =>
    rw [countedTo, found] at below
    obtain ⟨_, before, after, rfl, earlier⟩ := find?_eq_some_iff_append.mp found
    rcases mem_append.mp inUsed with inBefore | here
    · exact absurd starts (by simpa using earlier region inBefore)
    · rcases mem_cons.mp here with rfl | inAfter
      · exact absurd low (Nat.not_le.mpr below)
      · have order := (ascending_split ascending).2 region inAfter
        have proper : first.lo ≤ first.hi := Nat.le_add_right _ _
        simp only [LmbRegion.span_lo] at low
        dsimp only at below
        omega

theorem hi_le_lo_of_hi_lt {regions : List LmbRegion} (ascending : Ascending (spans regions))
    {region other : LmbRegion} (member : region ∈ regions) (otherMember : other ∈ regions)
    (behind : region.hi < other.hi) : region.hi ≤ other.lo := by
  obtain ⟨before, after, rfl⟩ := append_of_mem member
  obtain ⟨below, above⟩ := ascending_split ascending
  rcases mem_append.mp otherMember with inBefore | here
  · have earlier := below other inBefore
    have proper : region.lo ≤ region.hi := Nat.le_add_right _ _
    omega
  · rcases mem_cons.mp here with rfl | inAfter
    · exact absurd behind (Nat.lt_irrefl _)
    · exact above other inAfter

/-- A reservation that reaches the top is overlooked, so that its bytes are reported. -/
theorem ReportsUsable.below_top (usable : ReportsUsable available used addr)
    (availableProper : ∀ bank ∈ available, bank.NonWrapping)
    (availableAscending : Ascending (spans available))
    (usedProper : ∀ region ∈ used, region.NonWrapping) (usedAscending : Ascending (spans used))
    (start : Covered (spans available) addr.toNat) {region : LmbRegion} (member : region ∈ used)
    (contains : region.span.Contains addr.toNat) : region.hi < 2 ^ 64 := by
  by_contra top
  refine (usable addr.toNat le_rfl ?_).2 ⟨_, mem_map_of_mem member, contains⟩
  have loop := freeSizeLoop_inside usedProper usedAscending member contains
  rw [if_neg top] at loop
  obtain ⟨below, inside, counted⟩ :=
    lmbGetFreeSize_of_loop_eq_none availableProper availableAscending start loop
  have low := contains.1
  have size := region.size.toNat_lt
  simp only [LmbRegion.span_lo, LmbRegion.lo] at low
  rw [counted]
  unfold LmbRegion.hi at top
  omega

theorem ReportsUsable.noGap (usable : ReportsUsable available used addr)
    (proper : ∀ bank ∈ available, bank.NonWrapping) (ascending : Ascending (spans available))
    (start : Covered (spans available) addr.toNat)
    (outside : ¬ Covered (spans used) addr.toNat) : NoGap available used addr := by
  intro bank inAvailable above below
  have counted := lmbGetFreeSize_outside proper ascending start outside
  obtain ⟨⟨_, member, low, high⟩, _⟩ := usable bank.hi above.le (counted ▸ below)
  obtain ⟨next, inAvailable', rfl⟩ := mem_map.mp member
  have order := hi_le_lo_of_hi_lt ascending inAvailable inAvailable' high
  exact ⟨next, inAvailable', Nat.le_antisymm low order, Nat.lt_of_le_of_lt low high⟩

/-- The bytes that are reported are memory and not reserved exactly when the address is not
memory, or is in a reservation that does not reach the top of the address space, or is not
reserved and no gap lies below the end of the count. -/
theorem lmbGetFreeSize_usable_iff (availableProper : ∀ bank ∈ available, bank.NonWrapping)
    (availableAscending : Ascending (spans available))
    (usedProper : ∀ region ∈ used, region.NonWrapping) (usedAscending : Ascending (spans used)) :
    ReportsUsable available used addr ↔
      (Covered (spans available) addr.toNat →
        (∃ region ∈ used, region.span.Contains addr.toNat ∧ region.hi < 2 ^ 64) ∨
          ¬ Covered (spans used) addr.toNat ∧ NoGap available used addr) := by
  constructor
  · intro usable start
    by_cases outside : Covered (spans used) addr.toNat
    · obtain ⟨_, member, contains⟩ := outside
      obtain ⟨region, inUsed, rfl⟩ := mem_map.mp member
      exact .inl ⟨region, inUsed, contains, usable.below_top availableProper availableAscending
        usedProper usedAscending start inUsed contains⟩
    · exact .inr ⟨outside, usable.noGap availableProper availableAscending start outside⟩
  · intro condition place above below
    by_cases start : Covered (spans available) addr.toNat
    · rcases condition start with ⟨region, inUsed, contains, top⟩ | ⟨outside, noGap⟩
      · exfalso
        have noSpace := freeSizeLoop_inside usedProper usedAscending inUsed contains
        rw [if_pos top] at noSpace
        rw [lmbGetFreeSize, noSpace] at below
        split at below <;> simp at below <;> omega
      · rw [lmbGetFreeSize_outside availableProper availableAscending start outside] at below
        exact ⟨noGap.covered start above below,
          not_covered_of_lt_countedTo usedAscending outside above below⟩
    · exfalso
      rw [lmbGetFreeSize, (lmbOverlapsRegion_eq_none_iff availableProper).mpr start] at below
      simp at below
      omega

end FreeSize

/-- Two banks without a gap between them, and a reservation in the second one. -/
theorem lmbGetFreeSize_usable_twoBanks :
    ReportsUsable [⟨0x1000, 0x1000, 0⟩, ⟨0x2000, 0x1000, 0⟩] [⟨0x2800, 0x100, 0⟩] 0x1800 :=
  (lmbGetFreeSize_usable_iff (by decide) (by decide) (by decide) (by decide)).mpr fun _ =>
    .inr (by decide)

/-- The gap between two banks is reported as free. -/
theorem gap_reported :
    lmbGetFreeSize [⟨0x1000, 0x1000, 0⟩, ⟨0x8000, 0x1000, 0⟩] [] 0x1000 = 0x8000 ∧
      ¬ Covered (spans [⟨0x1000, 0x1000, 0⟩, ⟨0x8000, 0x1000, 0⟩]) 0x2000 := by
  decide

end TachyonBoot.Lmb
