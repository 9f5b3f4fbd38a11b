/-
This file models `efi_alloc_aligned_pages()` and accounts for its pages.

To get pages at a multiple of an alignment beyond the page size the function
allocates more of them and frees those in front of the aligned address and those
behind the range. Every page that was obtained is either kept or handed to
`efi_free_pages()` once. The alignment zero, which the function means to accept,
takes up no page, so that the sum of the page counts is smaller than the request
and is taken for an overflow.
-/

import TachyonBoot.Efi.MapUpdate
import TachyonBoot.Efi.PageAlloc
import TachyonBoot.Lmb.Invariant

namespace TachyonBoot.Efi

open Library Lmb

/-! ### The allocation -/

/-- `ALIGN()`. -/
def alignUp (value align : UInt64) : UInt64 := (value + (align - 1)) &&& ~~~(align - 1)

/-- The outcomes of the allocations that the page services make themselves. -/
structure PageOutcomes where
  grows : Bool
  growsFree : Bool
  calloc : Nat → Bool
  growsHead : Bool
  growsTail : Bool

/-- What `efi_alloc_aligned_pages()` returns, with zero for `NULL`, what it obtained from
`efi_allocate_pages()` and what it handed to `efi_free_pages()`, as addresses and page counts. -/
structure AlignedAllocation where
  memory : UInt64
  obtained : Option (UInt64 × UInt64)
  freed : List (UInt64 × UInt64)
  lmb : LmbState EfiMap

section Model

variable (notify : Notify EfiMap)

/-- `if (free_pages) efi_free_pages(…)`. -/
def freeIfAny (grows : Bool) (lmb : LmbState EfiMap) (memory pages : UInt64) :
    List (UInt64 × UInt64) × LmbState EfiMap :=
  if pages ≠ 0 then ([(memory, pages)], (efiFreePages notify grows lmb memory pages).2)
  else ([], lmb)

/-- The number of pages in the call of `efi_allocate_pages()`. -/
def askedPages (len align : UInt64) : UInt64 :=
  if align < efiPageSize then efiSizeInPages len
  else efiSizeInPages len + efiSizeInPages align - 1

/-- The call of `efi_allocate_pages()`. For any pages the variable behind the pointer is not
read. -/
def allocateAny (outcomes : PageOutcomes) (lmb : LmbState EfiMap) (memoryType : UInt32)
    (pages : UInt64) : (EfiStatus × Option UInt64) × LmbState EfiMap :=
  efiAllocatePages notify outcomes.grows outcomes.growsFree outcomes.calloc lmb .anyPages
    memoryType pages (some 0)

def efiAllocAlignedPages (outcomes : PageOutcomes) (lmb : LmbState EfiMap) (len : UInt64)
    (memoryType : UInt32) (align : UInt64) : AlignedAllocation :=
  let reqPages := efiSizeInPages len
  let truePages := reqPages + efiSizeInPages align - 1
  if align &&& (align - 1) ≠ 0 then ⟨0, none, [], lmb⟩
  else if truePages < reqPages then ⟨0, none, [], lmb⟩
  else
    match allocateAny notify outcomes lmb memoryType (askedPages len align) with
    | ((.success, some mem), lmb) =>
      if align < efiPageSize then ⟨mem, some (mem, reqPages), [], lmb⟩
      else
        let alignedMem := alignUp mem align
        let headPages := efiSizeInPages (alignedMem - mem)
        let head := freeIfAny notify outcomes.growsHead lmb mem headPages
        let tail := freeIfAny notify outcomes.growsTail head.2
          (alignedMem + reqPages * efiPageSize) (truePages - (reqPages + headPages))
        ⟨alignedMem, some (mem, truePages), head.1 ++ tail.1, tail.2⟩
    | (_, lmb) => ⟨0, none, [], lmb⟩

end Model

/-! ### Pages -/

/-- The addresses of a number of pages from an address on. -/
def pagesFrom (start count : Nat) : List Nat :=
  (List.range count).map fun page => start + 4096 * page

theorem pagesFrom_add (start first second : Nat) :
    pagesFrom start (first + second) =
      pagesFrom start first ++ pagesFrom (start + 4096 * first) second := by
  rw [pagesFrom, List.range_add, List.map_append, List.map_map]
  congr 1
  refine List.map_congr_left fun page _ => ?_
  show start + 4096 * (first + page) = start + 4096 * first + 4096 * page
  omega

theorem pagesFrom_parts (start before count behind : Nat) :
    (pagesFrom start before ++ pagesFrom (start + 4096 * before + 4096 * count) behind ++
      pagesFrom (start + 4096 * before) count).Perm
        (pagesFrom start (before + (count + behind))) := by
  rw [pagesFrom_add, pagesFrom_add, List.append_assoc]
  exact List.perm_append_comm.append_left _

/-- The pages that a call of `efi_free_pages()` is for. -/
def pagesOf (range : UInt64 × UInt64) : List Nat := pagesFrom range.1.toNat range.2.toNat

/-- The result is an aligned address, and the pages that were obtained are those of the request
from there on and those that were freed, each of them once. -/
structure Balanced (len align : UInt64) (result : AlignedAllocation) : Prop where
  nonNull : result.memory ≠ 0
  aligned : align ≠ 0 → align.toNat ∣ result.memory.toNat
  pages : ∃ range, result.obtained = some range ∧
    (result.freed.flatMap pagesOf ++
      pagesFrom result.memory.toNat ((len.toNat + 4095) / 4096)).Perm (pagesOf range)

variable {size align : UInt64}

section Arithmetic

theorem efiSizeInPages_toNat (noOverflow : size.toNat + 4095 < 2 ^ 64) :
    (efiSizeInPages size).toNat = (size.toNat + 4095) / 4096 := by
  have mask : efiPageMask.toNat = 4095 := rfl
  rw [efiSizeInPages, toNat_shiftRight_pages, UInt64.toNat_add, mask, Nat.mod_eq_of_lt noOverflow]

variable {shift : Nat}

theorem and_pred_eq_zero (power : align.toNat = 2 ^ shift) :
    align &&& (align - 1) = 0 := by
  have positive := Nat.two_pow_pos shift
  have below : (align - 1).toNat = 2 ^ shift - 1 := by
    simp only [UInt64.toNat_sub, UInt64.toNat_ofNat]
    have small := align.toNat_lt
    omega
  refine UInt64.toNat_inj.mp ?_
  rw [UInt64.toNat_and, below, power, Nat.and_two_pow_sub_one_eq_mod, Nat.mod_self]
  rfl

theorem alignUp_spec {value : UInt64} (power : align.toNat = 2 ^ shift)
    (noOverflow : value.toNat + align.toNat ≤ 2 ^ 64) :
    align.toNat ∣ (alignUp value align).toNat ∧ value.toNat ≤ (alignUp value align).toNat ∧
      (alignUp value align).toNat < value.toNat + align.toNat := by
  have positive := Nat.two_pow_pos shift
  have down : alignUp value align = alignDown (value + (align - 1)) align :=
    (alignDown_eq _ _).symm
  have sum : (value + (align - 1)).toNat = value.toNat + (align.toNat - 1) := by
    have small := align.toNat_lt
    simp only [UInt64.toNat_add, UInt64.toNat_sub, UInt64.toNat_ofNat]
    omega
  have rest := Nat.mod_lt (value.toNat + (align.toNat - 1)) positive
  have split := Nat.div_add_mod (value.toNat + (align.toNat - 1)) (2 ^ shift)
  rw [down]
  refine ⟨dvd_alignDown power _, ?_⟩
  rw [alignDown_toNat power, sum]
  omega

end Arithmetic

/-! ### What `efi_allocate_pages()` obtains -/

section Obtained

variable {notify : Notify EfiMap} {lmb : LmbState EfiMap} {flags : UInt32}

theorem lmbMapUpdateNotify_silent (notify : Notify EfiMap) (lmb : LmbState EfiMap)
    (addr size : UInt64) (op : LmbMapOp) (silent : flags &&& lmbNonotify ≠ 0) :
    lmbMapUpdateNotify notify lmb addr size op flags = (0, lmb) := by
  simp [lmbMapUpdateNotify, silent]

theorem allocateFlags_silent : (lmbNooverwrite ||| lmbNonotify) &&& lmbNonotify ≠ 0 := by decide

theorem lmbAllocBase_search {grows : Bool} {maxAddr : UInt64} (silent : flags &&& lmbNonotify ≠ 0)
    (found : (lmbAllocBase notify grows lmb size align maxAddr flags).1 ≠ 0) :
    lmbSearchBanks lmb.usedMem.data size align maxAddr lmb.availableMem.data.reverse =
      some (some (lmbAllocBase notify grows lmb size align maxAddr flags).1) := by
  unfold lmbAllocBase at found ⊢
  split at found
  · next base search =>
    rw [search]
    by_cases failed : (lmbAddRegionFlags grows lmb.usedMem base size flags).1 ≠ 0
    · simp only [if_pos failed] at found
      exact absurd rfl found
    · simp only [if_neg failed, lmbMapUpdateNotify_silent notify _ base size .reserve silent,
        ne_eq, not_true, if_false]
  · exact absurd rfl found

/-- What a successful call obtains: whole pages inside the address space, not at zero. -/
theorem allocateAny_obtained (inside : ∀ bank ∈ lmb.availableMem.data, bank.hi ≤ 2 ^ 64)
    {outcomes : PageOutcomes} {memoryType : UInt32} {pages : UInt64}
    (succeeds : (allocateAny notify outcomes lmb memoryType pages).1.1 = .success) :
    ∃ mem after, allocateAny notify outcomes lmb memoryType pages = ((.success, some mem), after) ∧
      mem ≠ 0 ∧ mem.toNat % 4096 = 0 ∧ mem.toNat + 4096 * pages.toNat ≤ 2 ^ 64 := by
  unfold allocateAny efiAllocatePages at succeeds ⊢
  by_cases invalid : efiPersistentMemoryType ≤ memoryType ∧ memoryType ≤ 0x6fffffff
  · rw [if_pos invalid] at succeeds
    cases succeeds
  rw [if_neg invalid] at succeeds ⊢
  dsimp only at succeeds ⊢
  by_cases overflows : (pages <<< efiPageShift) >>> efiPageShift ≠ pages
  · rw [if_pos overflows] at succeeds
    cases succeeds
  rw [if_neg overflows] at succeeds ⊢
  have length : (pages <<< efiPageShift).toNat = pages.toNat * 4096 := by
    have back := congrArg UInt64.toNat (not_not.mp overflows)
    rw [toNat_shiftRight_pages, toNat_shiftLeft_pages] at back
    rw [toNat_shiftLeft_pages]
    omega
  rw [allocateInLists, allocateBelow] at succeeds ⊢
  dsimp only at succeeds ⊢
  by_cases zero : (lmbAllocBase notify outcomes.grows lmb (pages <<< efiPageShift) efiPageSize
      lmbAllocAnywhere (lmbNooverwrite ||| lmbNonotify)).1 = 0
  · rw [if_pos zero] at succeeds
    cases succeeds
  rw [if_neg zero] at succeeds ⊢
  have search := lmbAllocBase_search allocateFlags_silent zero
  obtain ⟨nonzero, aligned⟩ := @lmbSearchBanks_aligned _ _ _ _ 12 _ _ rfl search
  obtain ⟨bank, member, start, candidate, result⟩ := lmbSearchBanks_found search
  obtain ⟨_, _, below, _, _⟩ := lmbSearchBank_found result
  have bankInside := inside bank (List.mem_reverse.mp member)
  have high := (lmbBankCandidate_bounded bankInside candidate (.inl rfl)).1
  have whole : 4096 ∣ (lmbAllocBase notify outcomes.grows lmb (pages <<< efiPageShift) efiPageSize
    lmbAllocAnywhere (lmbNooverwrite ||| lmbNonotify)).1.toNat := aligned
  dsimp only at succeeds ⊢
  split at succeeds
  · exact ⟨_, _, rfl, nonzero, Nat.mod_eq_zero_of_dvd whole, by omega⟩
  · cases succeeds
  · cases succeeds

end Obtained

/-! ### The account -/

section Account

variable {notify : Notify EfiMap} {lmb : LmbState EfiMap} {outcomes : PageOutcomes}
  {len align : UInt64} {memoryType : UInt32} {shift : Nat}

theorem pagesOf_freeIfAny (grows : Bool) (lmb : LmbState EfiMap) (memory pages : UInt64) :
    (freeIfAny notify grows lmb memory pages).1.flatMap pagesOf = pagesOf (memory, pages) := by
  rw [freeIfAny]
  by_cases any : pages ≠ 0
  · rw [if_pos any]
    exact List.append_nil _
  · rw [if_neg any, not_not.mp any]
    rfl

theorem efiAllocAlignedPages_zero (positive : 0 < len.toNat)
    (noOverflow : len.toNat + 4095 < 2 ^ 64) :
    (efiAllocAlignedPages notify outcomes lmb len memoryType 0).memory = 0 := by
  have req := efiSizeInPages_toNat noOverflow
  have fewer : efiSizeInPages len + efiSizeInPages 0 - 1 < efiSizeInPages len := by
    have noPages : efiSizeInPages 0 = 0 := rfl
    rw [noPages, UInt64.lt_iff_toNat_lt, UInt64.add_zero]
    simp only [UInt64.toNat_sub, UInt64.toNat_ofNat, req]
    omega
  rw [efiAllocAlignedPages]
  dsimp only
  rw [if_neg (by decide), if_pos fewer]

theorem exists_alignPages (power : align.toNat = 2 ^ shift) (large : ¬ align < efiPageSize) :
    ∃ alignPages, align.toNat = 4096 * alignPages ∧
      (efiSizeInPages align).toNat = alignPages := by
  have least : 4096 ≤ align.toNat := UInt64.le_iff_toNat_le.mp (UInt64.not_lt.mp large)
  have small := align.toNat_lt
  rw [power] at least small
  have low : 12 ≤ shift := (Nat.pow_le_pow_iff_right Nat.one_lt_two).mp least
  have high : shift < 64 := (Nat.pow_lt_pow_iff_right Nat.one_lt_two).mp small
  obtain ⟨alignPages, multiple⟩ : 4096 ∣ 2 ^ shift := Nat.pow_dvd_pow 2 low
  have half : 2 ^ shift ≤ 2 ^ 63 := Nat.pow_le_pow_right Nat.two_pos (by omega)
  refine ⟨alignPages, power.trans multiple, ?_⟩
  rw [efiSizeInPages_toNat (by omega)]
  omega

variable (power : align.toNat = 2 ^ shift) (noOverflow : len.toNat + 4095 < 2 ^ 64)
  (inside : ∀ bank ∈ lmb.availableMem.data, bank.hi ≤ 2 ^ 64)
  (succeeds : (allocateAny notify outcomes lmb memoryType (askedPages len align)).1.1 = .success)

include power noOverflow inside succeeds

/-- With an alignment below the page size the request itself is allocated. -/
theorem balanced_small (small : align < efiPageSize) :
    Balanced len align (efiAllocAlignedPages notify outcomes lmb len memoryType align) := by
  have page : efiPageSize.toNat = 4096 := rfl
  have below : align.toNat < 4096 := UInt64.lt_iff_toNat_lt.mp small
  have positive : 0 < align.toNat := power ▸ Nat.two_pow_pos shift
  have req := efiSizeInPages_toNat noOverflow
  have enough : ¬ efiSizeInPages len + efiSizeInPages align - 1 < efiSizeInPages len := by
    have one : (efiSizeInPages align).toNat = 1 := by
      rw [efiSizeInPages_toNat (by omega)]
      omega
    have narrow := (efiSizeInPages len).toNat_lt
    simp only [UInt64.lt_iff_toNat_lt, UInt64.toNat_sub, UInt64.toNat_add, UInt64.toNat_ofNat, one]
    omega
  obtain ⟨mem, after, obtained, nonzero, aligned, _⟩ := allocateAny_obtained inside succeeds
  have divides : align.toNat ∣ 4096 := by
    rw [power] at below ⊢
    have exponent : shift < 12 := (Nat.pow_lt_pow_iff_right Nat.one_lt_two).mp below
    exact Nat.pow_dvd_pow 2 exponent.le
  rw [efiAllocAlignedPages]
  dsimp only
  rw [if_neg (not_not.mpr (and_pred_eq_zero power)), if_neg enough, obtained]
  dsimp only
  rw [if_pos small]
  refine ⟨nonzero, fun _ => divides.trans (Nat.dvd_of_mod_eq_zero aligned), _, rfl, ?_⟩
  rw [pagesOf, req]
  rfl

/-- Beyond the page size the pages in front and behind are freed. -/
theorem balanced_large (large : ¬ align < efiPageSize) (positive : 0 < len.toNat) :
    Balanced len align (efiAllocAlignedPages notify outcomes lmb len memoryType align) := by
  obtain ⟨alignPages, align_eq, alignPages_eq⟩ := exists_alignPages power large
  have alignSmall := align.toNat_lt
  have req := efiSizeInPages_toNat noOverflow
  have truePages : (efiSizeInPages len + efiSizeInPages align - 1).toNat =
      (len.toNat + 4095) / 4096 + alignPages - 1 := by
    simp only [UInt64.toNat_sub, UInt64.toNat_add, UInt64.toNat_ofNat, req, alignPages_eq]
    have positive := Nat.two_pow_pos shift
    omega
  have enough : ¬ efiSizeInPages len + efiSizeInPages align - 1 < efiSizeInPages len := by
    rw [UInt64.lt_iff_toNat_lt, truePages, req]
    have positive := Nat.two_pow_pos shift
    omega
  obtain ⟨mem, after, obtained, nonzero, whole, bounded⟩ := allocateAny_obtained inside succeeds
  rw [askedPages, if_neg large, truePages] at bounded
  have room : mem.toNat + align.toNat ≤ 2 ^ 64 := by omega
  obtain ⟨divides, above, near⟩ := alignUp_spec power room
  obtain ⟨headPages, start⟩ :
      ∃ headPages, (alignUp mem align).toNat = mem.toNat + 4096 * headPages := by
    have wholeAligned : 4096 ∣ (alignUp mem align).toNat :=
      (align_eq ▸ Nat.dvd_mul_right 4096 alignPages : 4096 ∣ align.toNat).trans divides
    exact ⟨((alignUp mem align).toNat - mem.toNat) / 4096, by omega⟩
  have head : (efiSizeInPages (alignUp mem align - mem)).toNat = headPages := by
    have gap := UInt64.toNat_sub_of_le _ _ (UInt64.le_iff_toNat_le.mpr above)
    rw [efiSizeInPages_toNat (by omega), gap]
    omega
  have tail : (efiSizeInPages len + efiSizeInPages align - 1 -
      (efiSizeInPages len + efiSizeInPages (alignUp mem align - mem))).toNat =
        alignPages - 1 - headPages := by
    have sum : (efiSizeInPages len + efiSizeInPages (alignUp mem align - mem)).toNat =
        (len.toNat + 4095) / 4096 + headPages := by
      rw [UInt64.toNat_add, req, head]
      omega
    rw [UInt64.toNat_sub_of_le _ _ (by rw [UInt64.le_iff_toNat_le, sum, truePages]; omega), sum,
      truePages]
    omega
  -- the address behind the range can be zero, but then no page is left
  have tailPages : pagesOf (alignUp mem align + efiSizeInPages len * efiPageSize,
      efiSizeInPages len + efiSizeInPages align - 1 -
        (efiSizeInPages len + efiSizeInPages (alignUp mem align - mem))) =
      pagesFrom (mem.toNat + 4096 * headPages + 4096 * ((len.toNat + 4095) / 4096))
        (alignPages - 1 - headPages) := by
    rw [pagesOf, tail]
    by_cases noTail : alignPages - 1 - headPages = 0
    · rw [noTail]
      rfl
    · have page : efiPageSize.toNat = 4096 := rfl
      rw [UInt64.toNat_add, UInt64.toNat_mul, req, page, start]
      congr 1
      omega
  rw [efiAllocAlignedPages]
  dsimp only
  rw [if_neg (not_not.mpr (and_pred_eq_zero power)), if_neg enough, obtained]
  dsimp only
  rw [if_neg large]
  refine ⟨fun zero : alignUp mem align = 0 => ?_, fun _ => divides, _, rfl, ?_⟩
  · rw [zero] at above
    exact nonzero (UInt64.toNat_inj.mp (Nat.le_zero.mp above))
  · rw [List.flatMap_append, pagesOf_freeIfAny, pagesOf_freeIfAny, tailPages, pagesOf, pagesOf,
      head, truePages]
    dsimp only
    have total : (len.toNat + 4095) / 4096 + alignPages - 1 =
        headPages + ((len.toNat + 4095) / 4096 + (alignPages - 1 - headPages)) := by omega
    rw [total, start]
    exact pagesFrom_parts _ _ _ _

end Account

/-- For a request of some length whose page count does not overflow, an alignment that is zero or a
power of two, and an allocation that succeeds, the account is balanced unless the alignment is
zero. -/
theorem efiAllocAlignedPages_balanced_iff (notify : Notify EfiMap) (outcomes : PageOutcomes)
    (lmb : LmbState EfiMap) (len : UInt64) (memoryType : UInt32) (align : UInt64)
    (positive : 0 < len.toNat) (zeroOrPower : align = 0 ∨ ∃ shift, align.toNat = 2 ^ shift)
    (noOverflow : len.toNat + 4095 < 2 ^ 64)
    (inside : ∀ bank ∈ lmb.availableMem.data, bank.hi ≤ 2 ^ 64)
    (succeeds : (allocateAny notify outcomes lmb memoryType (askedPages len align)).1.1 =
      .success) :
    Balanced len align (efiAllocAlignedPages notify outcomes lmb len memoryType align) ↔
      align ≠ 0 := by
  constructor
  · rintro balanced rfl
    exact balanced.nonNull (efiAllocAlignedPages_zero positive noOverflow)
  · intro nonzero
    obtain ⟨shift, power⟩ := zeroOrPower.resolve_left nonzero
    by_cases small : align < efiPageSize
    · exact balanced_small power noOverflow inside succeeds small
    · exact balanced_large power noOverflow inside succeeds small positive

def allAllocated : Nat → Bool := fun _ => true

/-- One bank, as the firmware adds it at the start. -/
def oneBankAtStart : List Bank := [⟨true, allAllocated, 0x1000, 0xf000⟩]

def oneBankState : LmbState EfiMap := runSteps (bankStep false) bootSetup oneBankAtStart

def allSucceed : PageOutcomes := ⟨true, true, allAllocated, true, true⟩

theorem efiAllocAlignedPages_balanced_fourPages :
    Balanced 0x1800 0x4000 (efiAllocAlignedPages (efiMapUpdateNotify false allAllocated) allSucceed
      oneBankState 0x1800 4 0x4000) :=
  (efiAllocAlignedPages_balanced_iff _ allSucceed oneBankState 0x1800 4 0x4000 (by decide)
    (.inr ⟨14, rfl⟩) (by decide) (by decide +kernel) (by decide +kernel)).mpr (by decide)

/-- The same request without an alignment is refused although two pages can be allocated. -/
theorem zeroAlignment_refused :
    (allocateAny (efiMapUpdateNotify false allAllocated) allSucceed oneBankState 4
        (askedPages 0x1800 0)).1 = (.success, some 0xe000) ∧
      (efiAllocAlignedPages (efiMapUpdateNotify false allAllocated) allSucceed oneBankState 0x1800 4
        0).memory = 0 := by
  decide +kernel

end TachyonBoot.Efi
