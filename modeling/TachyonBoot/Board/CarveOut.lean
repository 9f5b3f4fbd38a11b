/-
This file models `carve_out_reserved_memory(false)` of `arch/arm/mach-snapdragon/board.c`,
which unmaps the reserved regions of the device tree before the caches are enabled.

The regions are sorted by their starts, and a region that starts at most 2 MiB behind the end
of the current range is merged into it. The new end is that of the region at hand, also when
an earlier one ends behind it. The file proves that the ranges hold nothing but regions
rounded to 2 MiB and gaps of at most 2 MiB, and that they cover all regions exactly if no
region reaches across the end of a range where no other range goes on.
-/

import TachyonBoot.Library.ShellSort
import Mathlib.Algebra.Order.Ring.Nat

namespace TachyonBoot.CarveOut

open Library List

/-! ### The loop -/

/-- A region without mapping: the address and the size in its property `reg`, of 32 bits each. -/
structure Region where
  start : Nat
  size : Nat
deriving DecidableEq, Repr

/-- The end as it is kept in `struct fdt_resource`. -/
def Region.finish (region : Region) : Nat := region.start + region.size

def fdtCmpRes (first second : Region) : Int :=
  if first.start < second.start then -1 else if first.start > second.start then 1 else 0

def sz2M : Nat := 0x200000

/-- `ALIGN_DOWN()` to 2 MiB. -/
def alignDown (address : Nat) : Nat := address / sz2M * sz2M

/-- `ALIGN()` to 2 MiB. -/
def alignUp (x : Nat) : Nat := (x + (sz2M - 1)) % 2 ^ 64 / sz2M * sz2M

/-- An address and a size for `mmu_change_region_attr()`. -/
abbrev Range := Nat × Nat

/-- The loop over the sorted regions behind the first one, with the current range. -/
def carveLoop (start size : Nat) : List Region → List Range
  | [] => [(start, size)]
  | region :: rest =>
    if start + size < (region.start + 2 ^ 64 - sz2M) % 2 ^ 64 then
      (start, size) ::
        carveLoop (alignDown region.start) (alignUp (region.finish - alignDown region.start)) rest
    else carveLoop start (alignUp (region.finish - start)) rest

def nReservedRegions : Nat := 64

/-- `carve_out_reserved_memory(false)`: the ranges that are passed on. -/
def carveOutReservedMemory (regions : List Region) : List Range :=
  match shellSort fdtCmpRes (regions.take nReservedRegions) with
  | [] => []
  | first :: rest =>
    carveLoop (alignDown first.start) (alignUp (first.finish - alignDown first.start)) rest

/-! ### What the ranges are for -/

def Region.Contains (region : Region) (address : Nat) : Prop :=
  region.start ≤ address ∧ address < region.finish

def InRange (range : Range) (address : Nat) : Prop :=
  range.1 ≤ address ∧ address < range.1 + range.2

/-- The address is in a region rounded to 2 MiB. -/
def Region.HullContains (region : Region) (address : Nat) : Prop :=
  alignDown region.start ≤ address ∧ address < alignUp region.finish

/-- The address is in a gap of at most 2 MiB between the rounded end of a region and the start of
the next one. -/
def InGap (sorted : List Region) (address : Nat) : Prop :=
  ∃ front last next rest, sorted = front ++ last :: next :: rest ∧
    alignUp last.finish ≤ address ∧ address < next.start ∧ next.start ≤ alignUp last.finish + sz2M

/-- The ranges cover all regions, and nothing else than their hulls and small gaps. -/
structure Protects (regions : List Region) (ranges : List Range) : Prop where
  covers : ∀ region ∈ regions, ∀ address, region.Contains address →
    ∃ range ∈ ranges, InRange range address
  tight : ∀ range ∈ ranges, ∀ address, InRange range address →
    (∃ region ∈ regions, region.HullContains address) ∨
      InGap (shellSort fdtCmpRes regions) address

/-! ### The groups of merged regions -/

/-- The next region is merged into the range that the last one ends. -/
def Joins (last next : Region) : Prop := sz2M ≤ next.start ∧ next.start ≤ alignUp last.finish + sz2M

instance (last next : Region) : Decidable (Joins last next) := inferInstanceAs (Decidable (_ ∧ _))

/-- The first and the last region of each group, given those of the current one. -/
def groups (first last : Region) : List Region → List (Region × Region)
  | [] => [(first, last)]
  | region :: rest =>
    if Joins last region then groups first region rest
    else (first, last) :: groups region region rest

def mergedGroups (regions : List Region) : List (Region × Region) :=
  match shellSort fdtCmpRes regions with
  | [] => []
  | first :: rest => groups first first rest

/-- No region reaches across the rounded end of the last region of a group, unless another group
goes on there. -/
def Unsevered (regions : List Region) : Prop :=
  ∀ region ∈ regions, ∀ group ∈ mergedGroups regions,
    region.Contains (alignUp group.2.finish) →
      ∃ other ∈ mergedGroups regions, alignDown other.1.start ≤ alignUp group.2.finish ∧
        alignUp group.2.finish < alignUp other.2.finish

/-- The fields of the property are of 32 bits. -/
def Small (regions : List Region) : Prop :=
  ∀ region ∈ regions, region.start < 2 ^ 32 ∧ region.size < 2 ^ 32

def groupRange (group : Region × Region) : Range :=
  (alignDown group.1.start, alignUp (group.2.finish - alignDown group.1.start))

theorem alignDown_le (address : Nat) : alignDown address ≤ address := Nat.div_mul_le_self _ _

/-- Rounding the size from a rounded start on is rounding the end. -/
theorem alignDown_add_alignUp {address finish : Nat} (inside : address ≤ finish)
    (small : finish < 2 ^ 33) :
    alignDown address + alignUp (finish - alignDown address) = alignUp finish := by
  unfold alignDown alignUp sz2M
  omega

theorem le_alignUp {x : Nat} (small : x < 2 ^ 33) : x ≤ alignUp x := by
  unfold alignUp sz2M
  omega

/-! ### The ranges are those of the groups -/

/-- Sorted by their starts. -/
abbrev Ascending (regions : List Region) : Prop :=
  regions.Pairwise fun first second => first.start ≤ second.start

theorem sort_ascending (regions : List Region) : Ascending (shellSort fdtCmpRes regions) := by
  refine @shellSort_pairwise Region fdtCmpRes (fun _ => True) _ ?_ ?_ ?_ regions fun _ _ => trivial
  · intro first second _ _ below
    unfold fdtCmpRes at below
    split_ifs at below <;> omega
  · intro first second _ _ above
    unfold fdtCmpRes at above
    split_ifs at above <;> omega
  · exact fun _ _ _ _ _ _ => Nat.le_trans

theorem Small.finish_lt {regions : List Region} (small : Small regions) {region : Region}
    (member : region ∈ regions) : region.finish < 2 ^ 33 := by
  obtain ⟨start, size⟩ := small region member
  unfold Region.finish
  omega

variable {last first : Region} {rest : List Region}

theorem not_joins_iff {next : Region} (finish : last.finish < 2 ^ 33)
    (start : next.start < 2 ^ 32) :
    alignUp last.finish < (next.start + 2 ^ 64 - sz2M) % 2 ^ 64 ↔ ¬ Joins last next := by
  have bound : alignUp last.finish < 2 ^ 34 := by
    unfold alignUp sz2M
    omega
  unfold Joins sz2M
  omega

theorem carveLoop_eq (small : Small (last :: rest)) (ascending : Ascending (last :: rest))
    (inGroup : first.start ≤ last.start) :
    carveLoop (alignDown first.start) (alignUp (last.finish - alignDown first.start)) rest =
      (groups first last rest).map groupRange := by
  induction rest generalizing first last with
  | nil => rfl
  | cons region rest ih =>
    obtain ⟨isLast, others⟩ := forall_mem_cons.mp small
    obtain ⟨fromLast, later⟩ := pairwise_cons.mp ascending
    have next := fromLast region mem_cons_self
    have finish := small.finish_lt mem_cons_self
    have reaches : first.start ≤ last.finish := by
      unfold Region.finish
      omega
    rw [carveLoop, groups, alignDown_add_alignUp reaches finish]
    by_cases joins : Joins last region
    · rw [if_pos joins, if_neg (mt (not_joins_iff finish (others region mem_cons_self).1).mp
        (not_not.mpr joins))]
      exact ih others later (Nat.le_trans inGroup next)
    · rw [if_neg joins,
        if_pos ((not_joins_iff finish (others region mem_cons_self).1).mpr joins),
        map_cons]
      exact congrArg _ (ih others later le_rfl)

/-! ### Where a region starts -/

theorem exists_group_of_last (first last : Region) (ascending : Ascending (last :: rest)) :
    ∃ group ∈ groups first last rest, group.1 = first ∧ last.start ≤ group.2.start := by
  induction rest generalizing last with
  | nil => exact ⟨(first, last), mem_cons_self, rfl, Nat.le_refl _⟩
  | cons region rest ih =>
    obtain ⟨fromLast, later⟩ := pairwise_cons.mp ascending
    rw [groups]
    split_ifs
    · obtain ⟨group, member, same, reaches⟩ := ih region later
      exact ⟨group, member, same, Nat.le_trans (fromLast region mem_cons_self) reaches⟩
    · exact ⟨(first, last), mem_cons_self, rfl, Nat.le_refl _⟩

theorem exists_group (ascending : Ascending (last :: rest)) (inGroup : first.start ≤ last.start)
    {region : Region} (member : region ∈ last :: rest) :
    ∃ group ∈ groups first last rest, group.1.start ≤ region.start ∧
      region.start ≤ group.2.start := by
  induction rest generalizing first last with
  | nil =>
    rw [mem_singleton.mp member]
    exact ⟨(first, last), mem_cons_self, inGroup, Nat.le_refl _⟩
  | cons next rest ih =>
    obtain ⟨fromLast, later⟩ := pairwise_cons.mp ascending
    have isNext := fromLast next mem_cons_self
    rcases mem_cons.mp member with rfl | inRest
    · obtain ⟨group, isGroup, same, reaches⟩ := exists_group_of_last first region ascending
      exact ⟨group, isGroup, same ▸ inGroup, reaches⟩
    · rw [groups]
      split_ifs
      · exact ih later (Nat.le_trans inGroup isNext) inRest
      · obtain ⟨group, isGroup, within⟩ := ih later le_rfl inRest
        exact ⟨group, mem_cons_of_mem _ isGroup, within⟩

/-! ### The ranges are tight -/

theorem groups_tight {sorted front : List Region} (isSorted : sorted = front ++ last :: rest)
    (current : ∀ address, alignDown first.start ≤ address → address < alignUp last.finish →
      (∃ region ∈ sorted, region.HullContains address) ∨ InGap sorted address) :
    ∀ group ∈ groups first last rest, ∀ address, alignDown group.1.start ≤ address →
      address < alignUp group.2.finish →
        (∃ region ∈ sorted, region.HullContains address) ∨ InGap sorted address := by
  induction rest generalizing front first last with
  | nil =>
    intro group member
    rw [mem_singleton.mp member]
    exact current
  | cons region rest ih =>
    have isRegion : region ∈ sorted := by simp [isSorted]
    have next : sorted = (front ++ [last]) ++ region :: rest := by simp [isSorted]
    rw [groups]
    split_ifs with joins
    · refine ih next fun address behind before => ?_
      rcases Nat.lt_or_ge address (alignUp last.finish) with old | new
      · exact current address behind old
      · rcases Nat.lt_or_ge address region.start with gap | inside
        · exact .inr ⟨front, last, region, rest, isSorted, new, gap, joins.2⟩
        · exact .inl ⟨region, isRegion, Nat.le_trans (alignDown_le _) inside, before⟩
    · refine forall_mem_cons.mpr ⟨current, ih next ?_⟩
      exact fun address behind before => .inl ⟨region, isRegion, behind, before⟩

/-! ### When all regions are covered -/

theorem groups_ordered (ascending : Ascending (last :: rest)) (inGroup : first.start ≤ last.start) :
    ∀ group ∈ groups first last rest,
      group.1.start ≤ group.2.start ∧ group.2 ∈ last :: rest := by
  induction rest generalizing first last with
  | nil =>
    intro group member
    rw [mem_singleton.mp member]
    exact ⟨inGroup, mem_cons_self⟩
  | cons region rest ih =>
    obtain ⟨fromLast, later⟩ := pairwise_cons.mp ascending
    have further {group : Region × Region}
        (ordered : group.1.start ≤ group.2.start ∧ group.2 ∈ region :: rest) :
        group.1.start ≤ group.2.start ∧ group.2 ∈ last :: region :: rest :=
      ⟨ordered.1, mem_cons_of_mem _ ordered.2⟩
    rw [groups]
    split_ifs
    · exact fun group member => further (ih later
        (Nat.le_trans inGroup (fromLast region mem_cons_self)) group member)
    · exact forall_mem_cons.mpr ⟨⟨inGroup, mem_cons_self⟩, fun group member =>
        further (ih later le_rfl group member)⟩

/-- What the groups of some regions are: their ranges are those that are passed on, each reaches
from the rounded start to the rounded end, each region starts in one, and they are tight. -/
structure Grouped (regions : List Region) : Prop where
  ranges : carveOutReservedMemory regions = (mergedGroups regions).map groupRange
  inRange_iff : ∀ group ∈ mergedGroups regions, ∀ address, InRange (groupRange group) address ↔
    alignDown group.1.start ≤ address ∧ address < alignUp group.2.finish
  starts : ∀ region ∈ regions, ∃ group ∈ mergedGroups regions,
    alignDown group.1.start ≤ region.start ∧ region.start ≤ alignUp group.2.finish
  tight : ∀ group ∈ mergedGroups regions, ∀ address, alignDown group.1.start ≤ address →
    address < alignUp group.2.finish →
      (∃ region ∈ regions, region.HullContains address) ∨
        InGap (shellSort fdtCmpRes regions) address

theorem grouped {regions : List Region} (few : regions.length ≤ nReservedRegions)
    (small : Small regions) : Grouped regions := by
  have perm := @shellSort_perm Region fdtCmpRes regions
  have ascending := sort_ascending regions
  have member_iff (region : Region) : region ∈ regions ↔ region ∈ shellSort fdtCmpRes regions :=
    perm.mem_iff.symm
  have isSmall : Small (shellSort fdtCmpRes regions) := fun region member =>
    small region ((member_iff region).mpr member)
  cases isSorted : shellSort fdtCmpRes regions with
  | nil =>
    have empty : regions = [] := perm_nil.mp (isSorted ▸ perm.symm)
    subst empty
    exact ⟨rfl, forall_mem_nil _,
      forall_mem_nil _,
      forall_mem_nil _⟩
  | cons first rest =>
    have isGroups : mergedGroups regions = groups first first rest := by
      unfold mergedGroups
      rw [isSorted]
    rw [isSorted] at ascending isSmall member_iff
    have ordered := groups_ordered ascending le_rfl
    have reaches {group : Region × Region} (isGroup : group ∈ groups first first rest) :
        group.2.start ≤ group.2.finish ∧ group.2.finish < 2 ^ 33 :=
      ⟨Nat.le_add_right _ _, isSmall.finish_lt (ordered group isGroup).2⟩
    constructor
    · unfold carveOutReservedMemory
      rw [take_of_length_le few, isSorted, isGroups]
      exact carveLoop_eq isSmall ascending le_rfl
    · intro group isGroup address
      rw [isGroups] at isGroup
      unfold InRange groupRange
      rw [alignDown_add_alignUp (Nat.le_trans (ordered group isGroup).1 (reaches isGroup).1)
        (reaches isGroup).2]
    · intro region member
      obtain ⟨group, isGroup, behind, before⟩ :=
        exists_group ascending le_rfl ((member_iff region).mp member)
      refine ⟨group, isGroups ▸ isGroup, Nat.le_trans (alignDown_le _) behind, ?_⟩
      exact Nat.le_trans before (Nat.le_trans (reaches isGroup).1 (le_alignUp (reaches isGroup).2))
    · intro group isGroup address behind before
      have first_tight := @groups_tight first first rest (first :: rest) [] rfl
        fun address behind before => .inl ⟨first, mem_cons_self, behind, before⟩
      rw [isSorted]
      exact (first_tight group (isGroups ▸ isGroup) address behind before).imp_left
        fun ⟨region, member, inside⟩ => ⟨region, (member_iff region).mpr member, inside⟩

/-- The ranges protect the regions exactly if no region is severed. -/
theorem carveOut_protects_iff {regions : List Region} (few : regions.length ≤ nReservedRegions)
    (small : Small regions) :
    Protects regions (carveOutReservedMemory regions) ↔ Unsevered regions := by
  obtain ⟨ranges, inRange_iff, starts, tight⟩ := grouped few small
  have covered_iff (address : Nat) :
      (∃ range ∈ carveOutReservedMemory regions, InRange range address) ↔
        ∃ group ∈ mergedGroups regions,
          alignDown group.1.start ≤ address ∧ address < alignUp group.2.finish := by
    rw [ranges]
    constructor
    · rintro ⟨_, member, inside⟩
      obtain ⟨group, isGroup, rfl⟩ := mem_map.mp member
      exact ⟨group, isGroup, (inRange_iff group isGroup address).mp inside⟩
    · rintro ⟨group, isGroup, inside⟩
      exact ⟨_, mem_map_of_mem isGroup, (inRange_iff group isGroup address).mpr inside⟩
  constructor
  · exact fun protects region isRegion group _ across =>
      (covered_iff _).mp (protects.covers region isRegion _ across)
  · intro unsevered
    refine ⟨fun region isRegion address inside => (covered_iff address).mpr ?_,
      fun range isRange address inside => ?_⟩
    · -- The end of one range after another is covered, from the start of the region on.
      obtain ⟨behind, before⟩ := inside
      induction behind with
      | refl =>
        obtain ⟨group, isGroup, isBehind, isBefore⟩ := starts region isRegion
        rcases Nat.lt_or_eq_of_le isBefore with less | same
        · exact ⟨group, isGroup, isBehind, less⟩
        · rw [same]
          exact unsevered region isRegion group isGroup ⟨Nat.le_of_eq same, same ▸ before⟩
      | @step address behind ih =>
        have behind : region.start ≤ address := behind
        obtain ⟨group, isGroup, isBehind, isBefore⟩ := ih (by omega)
        rcases Nat.lt_or_eq_of_le (Nat.succ_le_of_lt isBefore) with less | same
        · exact ⟨group, isGroup, by omega, less⟩
        · rw [same]
          exact unsevered region isRegion group isGroup ⟨by omega, by omega⟩
    · rw [ranges] at isRange
      obtain ⟨group, isGroup, rfl⟩ := mem_map.mp isRange
      obtain ⟨isBehind, isBefore⟩ := (inRange_iff group isGroup address).mp inside
      exact tight group isGroup address isBehind isBefore

def touchingRegions : List Region := [⟨0x80200000, 0x1000⟩, ⟨0x80000000, 0x200000⟩]

/-- A region of 16 MiB and one of 4 KiB inside it. -/
def nestedRegions : List Region := [⟨0x80000000, 0x1000000⟩, ⟨0x80100000, 0x1000⟩]

theorem carveOut_protects_iff_touching :
    Protects touchingRegions (carveOutReservedMemory touchingRegions) :=
  (carveOut_protects_iff (by decide) (by unfold Small; decide)).mpr (by
    unfold Unsevered Region.Contains
    decide +kernel)

/-- Behind its first 2 MiB the outer region stays mapped. -/
theorem nestedRegions_not_protected :
    (nestedRegions.length ≤ nReservedRegions ∧ Small nestedRegions) ∧
      carveOutReservedMemory nestedRegions = [(0x80000000, 0x200000)] ∧
      ¬ Protects nestedRegions (carveOutReservedMemory nestedRegions) := by
  have ranges : carveOutReservedMemory nestedRegions = [(0x80000000, 0x200000)] := by
    decide +kernel
  refine ⟨⟨by decide, by unfold Small; decide⟩, ranges, fun protects => ?_⟩
  obtain ⟨range, isRange, inside⟩ :=
    protects.covers ⟨0x80000000, 0x1000000⟩ mem_cons_self 0x80200000 ⟨by decide, by decide⟩
  rw [ranges] at isRange
  rw [mem_singleton.mp isRange] at inside
  exact absurd inside.2 (by decide)

end TachyonBoot.CarveOut
