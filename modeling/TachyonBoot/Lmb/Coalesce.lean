/-
This file says what `lmb_add_region_flags()` and `_lmb_free()` do to a sound
list: one whose regions are non-empty, end below the top of the address space,
and are listed in ascending order without overlap.

The function looks only at the first region the new range touches and at its
successor. When that region ends exactly where the range starts, the range may
still overlap the successor, and whether the overlap is repaired depends on the
flags of the two regions and on where the range ends. `SeamFits` is the exact
condition under which the list comes out ordered. Under it the range is inserted
between its neighbours, joined with a block of regions that carry its flags, or
dropped because the coalescing of two other regions is taken for success.
-/

import Mathlib.Data.List.Chain
import TachyonBoot.Lmb.Region

namespace TachyonBoot.Lmb

open Library List

/-! ### Regions as spans -/

/-- The first address of a region. -/
def LmbRegion.lo (region : LmbRegion) : Nat := region.base.toNat

/-- The address after a region. -/
def LmbRegion.hi (region : LmbRegion) : Nat := region.base.toNat + region.size.toNat

/-- The addresses of a region, tagged with its flags. -/
def LmbRegion.span (region : LmbRegion) : Span UInt32 := ⟨region.lo, region.hi, region.flags⟩

@[simp] theorem LmbRegion.span_lo (region : LmbRegion) : region.span.lo = region.lo := rfl

@[simp] theorem LmbRegion.span_hi (region : LmbRegion) : region.span.hi = region.hi := rfl

@[simp] theorem LmbRegion.span_tag (region : LmbRegion) : region.span.tag = region.flags := rfl

/-- What a list of regions denotes. -/
def spans (rgn : List LmbRegion) : List (Span UInt32) := rgn.map LmbRegion.span

@[simp] theorem spans_nil : spans [] = [] := rfl

@[simp] theorem spans_cons (region : LmbRegion) (rgn : List LmbRegion) :
    spans (region :: rgn) = region.span :: spans rgn := rfl

@[simp] theorem spans_append (first second : List LmbRegion) :
    spans (first ++ second) = spans first ++ spans second := map_append

variable {rgn before after block : List LmbRegion} {region next last : LmbRegion}
  {base size : UInt64} {flags : UInt32}

theorem forall_mem_spans {Holds : Span UInt32 → Prop} :
    (∀ span ∈ spans rgn, Holds span) ↔ ∀ region ∈ rgn, Holds region.span := by
  simp [spans]

/-- A range is proper when it is not empty and its end is an address: `base + size` does not
wrap. -/
structure ProperRange (base size : UInt64) : Prop where
  nonempty : 0 < size.toNat
  inside : base.toNat + size.toNat < 2 ^ 64

instance (base size : UInt64) : Decidable (ProperRange base size) :=
  decidable_of_iff (0 < size.toNat ∧ base.toNat + size.toNat < 2 ^ 64)
    ⟨fun both => ⟨both.1, both.2⟩, fun proper => ⟨proper.nonempty, proper.inside⟩⟩

/-- A list is sound when its regions are proper, ascending and disjoint. -/
structure Sound (rgn : List LmbRegion) : Prop where
  proper : ∀ region ∈ rgn, ProperRange region.base region.size
  ascending : Ascending (spans rgn)

theorem sound_nil : Sound [] := ⟨by simp, by simp [Ascending]⟩

theorem Sound.lo_lt_hi (sound : Sound rgn) (member : region ∈ rgn) : region.lo < region.hi := by
  have nonempty := (sound.proper region member).nonempty
  simp only [LmbRegion.lo, LmbRegion.hi]
  omega

theorem Sound.hi_lt (sound : Sound rgn) (member : region ∈ rgn) :
    region.hi < 2 ^ 64 := (sound.proper region member).inside

theorem Sound.sublist {part : List LmbRegion} (sound : Sound rgn) (sub : part.Sublist rgn) :
    Sound part :=
  ⟨fun region member => sound.proper region (sub.subset member),
    List.Pairwise.sublist (sub.map _) sound.ascending⟩

theorem ascending_split (ascending : Ascending (spans (before ++ region :: after))) :
    (∀ other ∈ before, other.hi ≤ region.lo) ∧ ∀ other ∈ after, region.hi ≤ other.lo := by
  simp only [Ascending, spans_append, spans_cons, pairwise_append, pairwise_cons,
    mem_cons, forall_mem_spans] at ascending
  exact ⟨fun other member => ascending.2.2 other member region.span (.inl rfl), ascending.2.1.1⟩

theorem Sound.split (sound : Sound (before ++ region :: after)) :
    (∀ other ∈ before, other.hi ≤ region.lo) ∧ (∀ other ∈ after, region.hi ≤ other.lo) :=
  ascending_split sound.ascending

/-! ### The address tests on proper ranges -/

theorem lmbAddrsOverlap_iff {base1 size1 base2 size2 : UInt64}
    (nonempty1 : 0 < size1.toNat) (inside1 : base1.toNat + size1.toNat ≤ 2 ^ 64)
    (nonempty2 : 0 < size2.toNat) (inside2 : base2.toNat + size2.toNat ≤ 2 ^ 64) :
    lmbAddrsOverlap base1 size1 base2 size2 = true ↔
      base1.toNat < base2.toNat + size2.toNat ∧ base2.toNat < base1.toNat + size1.toNat := by
  simp only [lmbAddrsOverlap, Bool.and_eq_true, decide_eq_true_eq, UInt64.le_iff_toNat_le,
    UInt64.toNat_sub, UInt64.toNat_add, UInt64.toNat_ofNat]
  omega

theorem ProperRange.toNat_add (proper : ProperRange base size) :
    (base + size).toNat = base.toNat + size.toNat := by
  have inside := proper.inside
  rw [UInt64.toNat_add, Nat.mod_eq_of_lt inside]

section

variable (range : ProperRange base size) (proper : ProperRange region.base region.size)

include range proper

theorem ProperRange.overlap_iff :
    lmbAddrsOverlap base size region.base region.size = true ↔
      base.toNat < region.hi ∧ region.lo < base.toNat + size.toNat :=
  lmbAddrsOverlap_iff range.nonempty range.inside.le proper.nonempty proper.inside.le

theorem ProperRange.adjacent_eq :
    lmbAddrsAdjacent base size region.base region.size =
      if region.lo = base.toNat + size.toNat then 1
      else if region.hi = base.toNat then -1 else 0 := by
  have above : region.base = base + size ↔ region.lo = base.toNat + size.toNat := by
    rw [← UInt64.toNat_inj, range.toNat_add, LmbRegion.lo]
  have below : base = region.base + region.size ↔ region.hi = base.toNat := by
    rw [← UInt64.toNat_inj, proper.toNat_add, LmbRegion.hi, eq_comm]
  simp only [lmbAddrsAdjacent, above, below]

theorem ProperRange.touches_iff :
    lmbTouches base size region = true ↔
      region.lo ≤ base.toNat + size.toNat ∧ base.toNat ≤ region.hi := by
  have nonempty := range.nonempty
  have regionNonempty := proper.nonempty
  simp only [lmbTouches, Bool.or_eq_true, bne_iff_ne, range.overlap_iff proper,
    range.adjacent_eq proper, LmbRegion.lo, LmbRegion.hi]
  split_ifs <;> omega

end

/-! ### Reading and editing at a known position -/

section Position

variable (before after : List LmbRegion) (region next : LmbRegion)

theorem getElem!_here : (before ++ region :: after)[before.length]! = region := by
  simp

theorem getElem!_next : (before ++ region :: next :: after)[before.length + 1]! = next := by
  simp

theorem set_here (replacement : LmbRegion) :
    (before ++ region :: after).set before.length replacement = before ++ replacement :: after := by
  simp

theorem modify_here (edit : LmbRegion → LmbRegion) :
    (before ++ region :: after).modify before.length edit = before ++ edit region :: after := by
  induction before with
  | nil => rfl
  | cons head rest ih =>
    simpa [modify_succ_cons] using ih

theorem remove_next :
    lmbRemoveRegion (before ++ region :: next :: after) (before.length + 1) =
      before ++ region :: after := by
  simp [lmbRemoveRegion, eraseIdx_append_of_length_le]

end Position

theorem lmbCoalesceNext_last (before : List LmbRegion) (region : LmbRegion) (coalesced : Nat) :
    lmbCoalesceNext (before ++ [region]) before.length coalesced =
      (before ++ [region], coalesced) := by
  simp [lmbCoalesceNext]

theorem lmbCoalesceNext_cons (before after : List LmbRegion) (region next : LmbRegion)
    (coalesced : Nat) :
    lmbCoalesceNext (before ++ region :: next :: after) before.length coalesced =
      if region.flags = next.flags then
        if lmbAddrsAdjacent region.base region.size next.base next.size ≠ 0 then
          (before ++ { region with size := region.size + next.size } :: after, coalesced + 1)
        else if lmbAddrsOverlap region.base region.size next.base next.size then
          (if region.base + region.size > next.base + next.size then
              before ++ region :: next :: after
            else before ++ { region with size := next.base + next.size - region.base } :: after,
            coalesced + 1)
        else (before ++ region :: next :: after, coalesced)
      else (before ++ region :: next :: after, coalesced) := by
  have room : before.length + 1 < (before ++ region :: next :: after).length := by
    simp
  simp only [lmbCoalesceNext, if_pos room, lmbRegionsAdjacent, lmbRegionsOverlap,
    lmbCoalesceRegions, lmbFixOverLapRegions, getElem!_here, getElem!_next, modify_here,
    remove_next]

/-! ### The first region the range touches -/

theorem findIdx_cases {Item : Type} (test : Item → Bool) (items : List Item) :
    ((∀ item ∈ items, test item = false) ∧ items.findIdx test = items.length) ∨
      ∃ before item after, items = before ++ item :: after ∧
        (∀ other ∈ before, test other = false) ∧ test item = true ∧
        items.findIdx test = before.length := by
  induction items with
  | nil => exact .inl ⟨by simp, rfl⟩
  | cons head rest ih =>
    by_cases found : test head = true
    · exact .inr ⟨[], head, rest, rfl, by simp, found, by simp [findIdx_cons, found]⟩
    · have passed : test head = false := by simpa using found
      rcases ih with ⟨untouched, index⟩ | ⟨before, item, after, split, untouched, hit, index⟩
      · refine .inl ⟨?_, by simp [findIdx_cons, passed, index]⟩
        simpa [passed] using untouched
      · refine .inr ⟨head :: before, item, after, by rw [split]; rfl, ?_, hit,
          by simp [findIdx_cons, passed, index]⟩
        simpa [passed] using untouched

/-- The first region a proper range touches in a sound list: everything before it ends below
the range. -/
theorem Sound.firstTouch (sound : Sound rgn) (range : ProperRange base size) :
    ((∀ region ∈ rgn, region.hi < base.toNat ∨ base.toNat + size.toNat < region.lo) ∧
        rgn.findIdx (lmbTouches base size) = rgn.length) ∨
      ∃ before region after, rgn = before ++ region :: after ∧
        (∀ other ∈ before, other.hi < base.toNat) ∧
        region.lo ≤ base.toNat + size.toNat ∧ base.toNat ≤ region.hi ∧
        rgn.findIdx (lmbTouches base size) = before.length := by
  have apart : ∀ region ∈ rgn, lmbTouches base size region = false →
      region.hi < base.toNat ∨ base.toNat + size.toNat < region.lo := by
    intro region member untouched
    have test := range.touches_iff (sound.proper region member)
    rw [untouched] at test
    simp only [Bool.false_eq_true, false_iff, not_and_or, not_le] at test
    exact test.symm
  rcases findIdx_cases (lmbTouches base size) rgn with
    ⟨untouched, index⟩ | ⟨before, region, after, split, untouched, hit, index⟩
  · exact .inl ⟨fun region member => apart region member (untouched region member), index⟩
  · refine .inr ⟨before, region, after, split, fun other member => ?_, ?_⟩
    · have inList : other ∈ rgn := by simp [split, member]
      have ordered := (split ▸ sound).split.1 other member
      have extent := sound.lo_lt_hi inList
      have reach := (range.touches_iff (sound.proper region (by simp [split]))).mp hit
      rcases apart other inList (untouched other member) with low | high
      · exact low
      · omega
    · have reach := (range.touches_iff (sound.proper region (by simp [split]))).mp hit
      exact ⟨reach.1, reach.2, index⟩

/-! ### Regions after an edit -/

theorem growDown (proper : ProperRange region.base region.size)
    (meets : region.lo = base.toNat + size.toNat) :
    (region.base - size).toNat = base.toNat ∧
      (region.base - size).toNat + (region.size + size).toNat = region.hi := by
  have inside := proper.inside
  simp only [LmbRegion.lo, LmbRegion.hi, UInt64.toNat_sub, UInt64.toNat_add] at *
  omega

section

variable (range : ProperRange base size) (meets : region.hi = base.toNat)

include range meets

theorem ProperRange.growUp :
    region.base.toNat + (region.size + size).toNat = base.toNat + size.toNat := by
  have inside := range.inside
  simp only [LmbRegion.hi, UInt64.toNat_add] at *
  omega

theorem ProperRange.growUp_proper (extent : region.lo < region.hi) :
    ProperRange region.base (region.size + size) := by
  have nonempty := range.nonempty
  have inside := range.inside
  have grownHi := range.growUp meets
  constructor
  · simp only [LmbRegion.lo, LmbRegion.hi] at *
    omega
  · omega

/-- A region grown upwards into the next one overlaps it and is not adjacent to it. -/
theorem ProperRange.growUp_overlaps (extent : region.lo < region.hi)
    (nextProper : ProperRange next.base next.size) (order : region.hi ≤ next.lo)
    (overlaps : next.lo < base.toNat + size.toNat) :
    lmbAddrsAdjacent region.base (region.size + size) next.base next.size = 0 ∧
      lmbAddrsOverlap region.base (region.size + size) next.base next.size = true := by
  have grownHi := range.growUp meets
  have grownProper := range.growUp_proper meets extent
  have nextExtent : next.lo < next.hi := by
    have nonempty := nextProper.nonempty
    simp only [LmbRegion.lo, LmbRegion.hi]
    omega
  constructor
  · rw [grownProper.adjacent_eq nextProper, grownHi, if_neg overlaps.ne, if_neg]
    show ¬ next.hi = region.lo
    omega
  · rw [grownProper.overlap_iff nextProper, grownHi]
    refine ⟨?_, overlaps⟩
    show region.lo < next.hi
    omega

end

theorem ProperRange.takeOver (proper : ProperRange next.base next.size)
    (order : region.lo ≤ next.lo) :
    region.base.toNat + (next.base + next.size - region.base).toNat = next.hi := by
  have inside := proper.inside
  simp only [LmbRegion.lo, LmbRegion.hi, UInt64.toNat_sub, UInt64.toNat_add] at *
  omega

/-! ### What an addition can do -/

/-- A block of regions with the flags of the range, the range, and the region that replaces
both: it covers exactly their union and lies between the remaining regions. -/
structure Joins (rgn : List LmbRegion) (base size : UInt64) (flags : UInt32)
    (before block after : List LmbRegion) (merged : LmbRegion) : Prop where
  split : rgn = before ++ block ++ after
  nonempty : block ≠ []
  blockFlags : ∀ other ∈ block, other.flags = flags
  mergedFlags : merged.flags = flags
  proper : ProperRange merged.base merged.size
  covers : ∀ address, merged.span.Contains address ↔
    (base.toNat ≤ address ∧ address < base.toNat + size.toNat) ∨ Covered (spans block) address
  below : ∀ other ∈ before, other.hi ≤ merged.lo
  above : ∀ other ∈ after, merged.hi ≤ other.lo

/-- Two neighbouring regions with equal flags, different from those of the range, that meet
each other, the first of which is the first region the range touches, and the region that
replaces them. -/
structure Drops (rgn : List LmbRegion) (base size : UInt64) (flags : UInt32)
    (before after : List LmbRegion) (first second merged : LmbRegion) : Prop where
  split : rgn = before ++ first :: second :: after
  below : ∀ other ∈ before, other.hi < base.toNat
  pairFlags : first.flags = second.flags
  otherFlags : first.flags ≠ flags
  meets : first.hi = second.lo
  touches : first.hi = base.toNat ∨ first.lo = base.toNat + size.toNat
  mergedFlags : merged.flags = first.flags
  lo_eq : merged.lo = first.lo
  hi_eq : merged.hi = second.hi

/-- The list after a successful addition. -/
inductive AddOutcome (rgn : List LmbRegion) (base size : UInt64) (flags : UInt32) :
    List LmbRegion → Prop
  | inserted (before after : List LmbRegion) (split : rgn = before ++ after)
      (below : ∀ other ∈ before, other.hi ≤ base.toNat)
      (above : ∀ other ∈ after, base.toNat + size.toNat ≤ other.lo) :
      AddOutcome rgn base size flags (before ++ ⟨base, size, flags⟩ :: after)
  | joined (before block after : List LmbRegion) (merged : LmbRegion)
      (joins : Joins rgn base size flags before block after merged) :
      AddOutcome rgn base size flags (before ++ merged :: after)
  | dropped (before after : List LmbRegion) (first second merged : LmbRegion)
      (drops : Drops rgn base size flags before after first second merged) :
      AddOutcome rgn base size flags (before ++ merged :: after)

/-- The seam condition. A region that ends exactly where the range starts hides the overlap of the
range with its successor. This is repaired only when all flags agree and the range does not reach
past the successor, and does no harm when the two regions are coalesced instead. -/
def SeamFits (rgn : List LmbRegion) (base size : UInt64) (flags : UInt32) : Prop :=
  rgn.IsChain fun region next =>
    region.hi = base.toNat → next.lo < base.toNat + size.toNat →
      (region.flags = flags ∧ next.flags = flags ∧ base.toNat + size.toNat ≤ next.hi) ∨
      (region.flags ≠ flags ∧ next.flags = region.flags ∧ next.lo = base.toNat)

instance (rgn : List LmbRegion) (base size : UInt64) (flags : UInt32) :
    Decidable (SeamFits rgn base size flags) :=
  inferInstanceAs (Decidable (rgn.IsChain _))

/-- What the seam condition asks of one pair of regions. -/
def SeamPair (region next : LmbRegion) (base size : UInt64) (flags : UInt32) : Prop :=
  (region.flags = flags ∧ next.flags = flags ∧ base.toNat + size.toNat ≤ next.hi) ∨
    (region.flags ≠ flags ∧ next.flags = region.flags ∧ next.lo = base.toNat)

theorem SeamFits.pair (fits : SeamFits rgn base size flags)
    (split : rgn = before ++ region :: next :: after) (ends : region.hi = base.toNat)
    (overlaps : next.lo < base.toNat + size.toNat) : SeamPair region next base size flags := by
  subst split
  have pair := (isChain_split.mp fits).2
  rw [isChain_cons_cons] at pair
  exact pair.1 ends overlaps

/-- Replacing a block of a sound list by a proper region between its neighbours. -/
theorem Sound.replace (sound : Sound (before ++ block ++ after))
    (proper : ProperRange region.base region.size)
    (below : ∀ other ∈ before, other.hi ≤ region.lo)
    (above : ∀ other ∈ after, region.hi ≤ other.lo) : Sound (before ++ region :: after) := by
  refine ⟨?_, ?_⟩
  · intro other member
    rcases mem_append.mp member with old | new
    · exact sound.proper other (by simp [old])
    · rcases mem_cons.mp new with rfl | old
      · exact proper
      · exact sound.proper other (by simp [old])
  · have ascending := sound.ascending
    rw [spans_append, spans_append] at ascending
    rw [spans_append, spans_cons]
    exact ascending.replace (forall_mem_spans.mpr below) (forall_mem_spans.mpr above)

theorem AddOutcome.sound {result : List LmbRegion} (sound : Sound rgn)
    (range : ProperRange base size) (outcome : AddOutcome rgn base size flags result) :
    Sound result := by
  cases outcome with
  | inserted before after split below above =>
    have apart : Sound (before ++ [] ++ after) := by simpa [split] using sound
    exact apart.replace range below above
  | joined before block after merged joins =>
    exact (joins.split ▸ sound).replace joins.proper joins.below joins.above
  | dropped before after first second merged drops =>
    have apart : Sound (before ++ [first, second] ++ after) := by
      simpa [drops.split] using sound
    have firstBounds := (drops.split ▸ sound).split.1
    have secondBounds := (show Sound ((before ++ [first]) ++ second :: after) by
      simpa using apart).split.2
    have firstExtent := apart.lo_lt_hi (show first ∈ _ by simp)
    have secondExtent := apart.lo_lt_hi (show second ∈ _ by simp)
    have secondEnd := apart.hi_lt (show second ∈ _ by simp)
    obtain ⟨-, -, -, -, meets, -, -, lo_eq, hi_eq⟩ := drops
    have proper : ProperRange merged.base merged.size := by
      constructor <;> simp only [LmbRegion.lo, LmbRegion.hi] at * <;> omega
    refine apart.replace proper (fun other member => ?_) (fun other member => ?_)
    · exact lo_eq ▸ firstBounds other member
    · exact hi_eq ▸ secondBounds other member

/-! ### Merging with the successor -/

/-- A region that does not reach past the start of its successor is merged with it exactly
when the flags agree and the two meet. -/
theorem lmbCoalesceNext_apart (before after : List LmbRegion) (coalesced : Nat)
    (proper : ProperRange region.base region.size) (nextProper : ProperRange next.base next.size)
    (apart : region.hi ≤ next.lo) :
    lmbCoalesceNext (before ++ region :: next :: after) before.length coalesced =
      if region.flags = next.flags ∧ region.hi = next.lo then
        (before ++ { region with size := region.size + next.size } :: after, coalesced + 1)
      else (before ++ region :: next :: after, coalesced) := by
  have extent := proper.nonempty
  have nextExtent := nextProper.nonempty
  have noOverlap : lmbAddrsOverlap region.base region.size next.base next.size = false := by
    rw [Bool.eq_false_iff, ne_eq, proper.overlap_iff nextProper]
    simp only [LmbRegion.lo, LmbRegion.hi] at *
    omega
  have adjacent : lmbAddrsAdjacent region.base region.size next.base next.size ≠ 0 ↔
      region.hi = next.lo := by
    rw [proper.adjacent_eq nextProper]
    simp only [LmbRegion.lo, LmbRegion.hi] at *
    split_ifs <;> omega
  rw [lmbCoalesceNext_cons]
  simp only [adjacent, noOverlap, Bool.false_eq_true, if_false]
  split_ifs <;> simp_all

/-- Merging the joined region with its successor joins a longer block. -/
theorem Joins.coalesceNext {merged : LmbRegion} (sound : Sound rgn)
    (joins : Joins rgn base size flags before block after merged) (coalesced : Nat) :
    AddOutcome rgn base size flags
        (lmbCoalesceNext (before ++ merged :: after) before.length coalesced).1 ∧
      coalesced ≤ (lmbCoalesceNext (before ++ merged :: after) before.length coalesced).2 := by
  cases after with
  | nil =>
    rw [lmbCoalesceNext_last]
    exact ⟨.joined before block [] merged joins, le_rfl⟩
  | cons next rest =>
    have split := joins.split
    have nextMember : next ∈ rgn := by simp [split]
    have nextProper := sound.proper next nextMember
    have apart := joins.above next (by simp)
    rw [lmbCoalesceNext_apart before rest coalesced joins.proper nextProper apart]
    by_cases merges : merged.flags = next.flags ∧ merged.hi = next.lo
    · rw [if_pos merges]
      refine ⟨.joined before (block ++ [next]) rest _ ?_, Nat.le_succ _⟩
      have grown := nextProper.growUp merges.2
      have nextEnd := nextProper.inside
      have nextExtent := nextProper.nonempty
      have extent := joins.proper.nonempty
      have beyond := (show Sound ((before ++ block) ++ next :: rest) by
        simpa [split] using sound).split.2
      refine ⟨by simp [split], by simp, ?_, joins.mergedFlags, ⟨?_, ?_⟩, ?_, joins.below, ?_⟩
      · intro other member
        rcases mem_append.mp member with old | new
        · exact joins.blockFlags other old
        · rw [mem_singleton.mp new, ← merges.1, joins.mergedFlags]
      · simp only [LmbRegion.hi, LmbRegion.lo] at *
        omega
      · simp only [LmbRegion.hi, LmbRegion.lo] at *
        omega
      · intro address
        have covers := joins.covers address
        simp only [spans_append, spans_cons, spans_nil, covered_append, covered_cons,
          covered_nil, or_false, ← or_assoc, ← covers, Span.Contains, LmbRegion.span,
          LmbRegion.lo, LmbRegion.hi] at *
        omega
      · intro other member
        have bound := beyond other member
        simp only [LmbRegion.hi, LmbRegion.lo] at *
        omega
    · rw [if_neg merges]
      exact ⟨.joined before block (next :: rest) merged joins, le_rfl⟩

/-! ### Growing over an overlap -/

/-- In a sound list the regions that start below an address come first. -/
theorem Sound.splitBelow (sound : Sound rgn) (limit : Nat) :
    ∃ block rest, rgn = block ++ rest ∧ (∀ region ∈ block, region.lo < limit) ∧
      ∀ region ∈ rest, limit ≤ region.lo := by
  induction rgn with
  | nil => exact ⟨[], [], rfl, by simp, by simp⟩
  | cons head tail ih =>
    by_cases low : head.lo < limit
    · obtain ⟨block, rest, split, below, above⟩ :=
        ih (sound.sublist (sublist_cons_self head tail))
      refine ⟨head :: block, rest, by rw [split]; rfl, ?_, above⟩
      simpa [low] using below
    · refine ⟨[], head :: tail, rfl, by simp, ?_⟩
      have beyond := (show Sound ([] ++ head :: tail) from sound).split.2
      have extent := sound.lo_lt_hi (show head ∈ _ by simp)
      intro region member
      rcases mem_cons.mp member with rfl | later
      · omega
      · have bound := beyond region later
        omega

theorem lmbCountOverlaps_none (base size : UInt64) (rest : List LmbRegion)
    (idx rgnCnt idxEnd : Nat)
    (apart : ∀ other ∈ rest, lmbAddrsOverlap base size other.base other.size = false) :
    lmbCountOverlaps base size rest idx rgnCnt idxEnd = some (rgnCnt, idxEnd) := by
  induction rest generalizing idx with
  | nil => rfl
  | cons head tail ih =>
    rw [lmbCountOverlaps, apart head (by simp), if_neg (by simp)]
    exact ih (idx + 1) fun other member => apart other (by simp [member])

theorem lmbCountOverlaps_block (base size : UInt64) (block rest : List LmbRegion)
    (idx rgnCnt idxEnd : Nat)
    (overlaps : ∀ other ∈ block, lmbAddrsOverlap base size other.base other.size = true)
    (plain : ∀ other ∈ block, other.flags = lmbNone) :
    lmbCountOverlaps base size (block ++ rest) idx rgnCnt idxEnd =
      lmbCountOverlaps base size rest (idx + block.length) (rgnCnt + block.length)
        (if block = [] then idxEnd else idx + block.length - 1) := by
  induction block generalizing idx rgnCnt idxEnd with
  | nil => simp
  | cons head tail ih =>
    rw [cons_append, lmbCountOverlaps, if_pos (overlaps head (by simp)),
      if_neg (by simp [plain head (by simp)]),
      ih _ _ _ (fun other member => overlaps other (by simp [member]))
        (fun other member => plain other (by simp [member]))]
    have index : (if tail = [] then idx else idx + 1 + tail.length - 1) =
        idx + (head :: tail).length - 1 := by
      by_cases empty : tail = []
      · simp [empty]
      · simp only [empty, if_false, length_cons]
        omega
    simp only [index, length_cons, reduceCtorEq, if_false]
    congr 1 <;> omega

theorem lmbCountOverlaps_flagged (base size : UInt64) (rgn : List LmbRegion)
    (idx rgnCnt idxEnd : Nat) (region : LmbRegion) (member : region ∈ rgn)
    (overlaps : lmbAddrsOverlap base size region.base region.size = true)
    (flagged : region.flags ≠ lmbNone) :
    lmbCountOverlaps base size rgn idx rgnCnt idxEnd = none := by
  induction rgn generalizing idx rgnCnt idxEnd with
  | nil => cases member
  | cons head tail ih =>
    rw [lmbCountOverlaps]
    rcases mem_cons.mp member with rfl | later
    · rw [if_pos overlaps, if_pos flagged]
    · split_ifs
      · rfl
      · exact ih _ _ _ later
      · exact ih _ _ _ later

theorem lmbRemoveRegions_block (before block rest : List LmbRegion) (region : LmbRegion) :
    lmbRemoveRegions (before ++ region :: (block ++ rest)) (before.length + 1) block.length =
      before ++ region :: rest := by
  induction block with
  | nil => rfl
  | cons head tail ih =>
    rw [length_cons, lmbRemoveRegions, cons_append, remove_next, ih]

theorem ProperRange.hull {first : LmbRegion} (range : ProperRange base size)
    (proper : ProperRange last.base last.size) (order : first.lo ≤ last.lo) :
    let mergebase := if base < first.base then base else first.base
    let mergeend := if last.base + last.size > base + size then last.base + last.size
      else base + size
    mergebase.toNat = min base.toNat first.lo ∧
      mergebase.toNat + (mergeend - mergebase).toNat =
        max last.hi (base.toNat + size.toNat) := by
  have rangeEnd := range.inside
  have lastEnd := proper.inside
  simp only [gt_iff_lt, UInt64.lt_iff_toNat_lt, range.toNat_add, proper.toNat_add,
    LmbRegion.lo, LmbRegion.hi] at *
  split_ifs <;> simp only [UInt64.toNat_sub, range.toNat_add, proper.toNat_add] <;> omega

/-- Growing the first region of a block of overlapped regions without flags, spelled out. -/
theorem lmbResizeRegions_block (before tail init rest : List LmbRegion)
    (region last : LmbRegion) (base size : UInt64) (ends : region :: tail = init ++ [last])
    (overlaps : ∀ other ∈ region :: tail,
      lmbAddrsOverlap base size other.base other.size = true)
    (plain : ∀ other ∈ region :: tail, other.flags = lmbNone)
    (apart : ∀ other ∈ rest, lmbAddrsOverlap base size other.base other.size = false) :
    lmbResizeRegions (before ++ region :: (tail ++ rest)) before.length base size =
      some (before ++
        { base := if base < region.base then base else region.base
          size := (if last.base + last.size > base + size then last.base + last.size
            else base + size) - if base < region.base then base else region.base
          flags := region.flags } :: rest) := by
  have reordered : before ++ region :: (tail ++ rest) = (before ++ init) ++ last :: rest := by
    rw [← cons_append, ends]
    simp
  have dropped : (before ++ region :: (tail ++ rest)).drop before.length =
      (region :: tail) ++ rest := by
    simp
  have index : before.length + (region :: tail).length - 1 = (before ++ init).length := by
    rw [ends]
    simp
  have lastRead : (before ++ region :: (tail ++ rest))[(before ++ init).length]! = last := by
    rw [reordered]
    exact getElem!_here _ _ _
  have count : 0 + (region :: tail).length - 1 = tail.length := by simp
  rw [lmbResizeRegions, dropped, lmbCountOverlaps_block base size _ _ _ _ _ overlaps plain,
    lmbCountOverlaps_none base size _ _ _ _ apart, if_neg (cons_ne_nil region tail), index]
  simp only [getElem!_here, lastRead, modify_here, count, lmbRemoveRegions_block]

theorem Sound.first_lo_le {other : LmbRegion} {tail : List LmbRegion}
    (sound : Sound (region :: tail)) (member : other ∈ region :: tail) :
    region.lo ≤ other.lo := by
  rcases mem_cons.mp member with rfl | later
  · exact le_rfl
  · have bound := (show Sound ([] ++ region :: tail) from sound).split.2 other later
    have extent := sound.lo_lt_hi (show region ∈ _ by simp)
    omega

theorem Sound.hi_le_last {other : LmbRegion} {init : List LmbRegion}
    (sound : Sound (init ++ [last])) (member : other ∈ init ++ [last]) :
    other.hi ≤ last.hi := by
  rcases mem_append.mp member with earlier | final
  · have bound := sound.split.1 other earlier
    have extent := sound.lo_lt_hi (show last ∈ _ by simp)
    omega
  · rw [mem_singleton.mp final]

/-- The hull of a range and a block of regions it overlaps contains nothing else: the gaps
of the block lie inside the range. -/
theorem Sound.hull_contains {tail init : List LmbRegion} (sound : Sound block)
    (starts : block = region :: tail) (ends : block = init ++ [last])
    (firstOverlaps : base.toNat < region.hi) (lastOverlaps : last.lo < base.toNat + size.toNat)
    (address : Nat) :
    min base.toNat region.lo ≤ address ∧
        address < max last.hi (base.toNat + size.toNat) ↔
      (base.toNat ≤ address ∧ address < base.toNat + size.toNat) ∨
        Covered (spans block) address := by
  constructor
  · rintro ⟨lower, upper⟩
    by_cases inside : base.toNat ≤ address ∧ address < base.toNat + size.toNat
    · exact .inl inside
    · right
      by_cases low : address < base.toNat
      · refine ⟨region.span, by simp [starts], ?_⟩
        simp only [Span.Contains, LmbRegion.span]
        omega
      · refine ⟨last.span, by simp [ends], ?_⟩
        simp only [Span.Contains, LmbRegion.span]
        omega
  · rintro (⟨lower, upper⟩ | ⟨span, member, contains⟩)
    · omega
    · obtain ⟨other, otherMember, rfl⟩ := mem_map.mp member
      have lower := (starts ▸ sound).first_lo_le (starts ▸ otherMember)
      have upper := (ends ▸ sound).hi_le_last (ends ▸ otherMember)
      simp only [Span.Contains, LmbRegion.span] at contains
      omega

/-- Growing the first overlapped region: the block of overlapped regions becomes the hull of
the block and the range, unless one of its regions has flags. -/
theorem Sound.resize (sound : Sound (before ++ region :: after)) (range : ProperRange base size)
    (below : ∀ other ∈ before, other.hi < base.toNat)
    (overlaps : base.toNat < region.hi ∧ region.lo < base.toNat + size.toNat) :
    lmbResizeRegions (before ++ region :: after) before.length base size = none ∨
      ∃ block rest merged, Joins (before ++ region :: after) base size lmbNone before block rest
          merged ∧
        lmbResizeRegions (before ++ region :: after) before.length base size =
          some (before ++ merged :: rest) := by
  have suffix := sound.sublist (sublist_append_right before (region :: after))
  obtain ⟨block, rest, split, low, high⟩ := suffix.splitBelow (base.toNat + size.toNat)
  -- the block is exactly what the range overlaps: everything in it ends above the range's start
  have blockOverlaps : ∀ other ∈ block,
      lmbAddrsOverlap base size other.base other.size = true := by
    intro other member
    have inList : other ∈ region :: after := by simp [split, member]
    rw [range.overlap_iff (suffix.proper other inList)]
    refine ⟨?_, low other member⟩
    rcases mem_cons.mp inList with rfl | later
    · exact overlaps.1
    · have bound := sound.split.2 other later
      have extent := suffix.lo_lt_hi inList
      omega
  have restApart : ∀ other ∈ rest,
      lmbAddrsOverlap base size other.base other.size = false := by
    intro other member
    have inList : other ∈ region :: after := by simp [split, member]
    rw [Bool.eq_false_iff, ne_eq, range.overlap_iff (suffix.proper other inList)]
    have bound := high other member
    omega
  obtain ⟨tail, rfl, rfl⟩ : ∃ tail, block = region :: tail ∧ after = tail ++ rest := by
    cases block with
    | nil =>
      have whole : rest = region :: after := by simpa using split.symm
      have bound := high region (by simp [whole])
      omega
    | cons head tail =>
      simp only [cons_append, List.cons.injEq] at split
      exact ⟨tail, by rw [split.1], split.2⟩
  by_cases plain : ∀ other ∈ region :: tail, other.flags = lmbNone
  · right
    obtain ⟨init, last, ends⟩ : ∃ init last, region :: tail = init ++ [last] :=
      ⟨_, _, (dropLast_append_getLast (cons_ne_nil region tail)).symm⟩
    refine ⟨region :: tail, rest, _, ?_, lmbResizeRegions_block before tail init rest region last
      base size ends blockOverlaps plain restApart⟩
    have blockSound : Sound (region :: tail) :=
      suffix.sublist (sublist_append_left (region :: tail) rest)
    have lastMember : last ∈ region :: tail := by simp [ends]
    have lastSplit := (show Sound ((before ++ init) ++ last :: rest) by
      rw [← cons_append, ends] at sound
      simpa using sound).split.2
    have contains := blockSound.hull_contains rfl ends overlaps.1 (low last lastMember)
    have lastEnd := blockSound.hi_lt lastMember
    obtain ⟨hullLo, hullHi⟩ := range.hull (blockSound.proper last lastMember)
      (blockSound.first_lo_le lastMember)
    generalize (if base < region.base then base else region.base) = mergebase at hullLo hullHi ⊢
    generalize (if last.base + last.size > base + size then last.base + last.size
      else base + size) = mergeend at hullHi ⊢
    rw [← hullLo, ← hullHi] at contains
    have rangeNonempty := range.nonempty
    have rangeEnd := range.inside
    refine ⟨by simp, by simp, plain, plain region (by simp), ⟨?_, ?_⟩, contains, ?_, ?_⟩
    · show 0 < (mergeend - mergebase).toNat
      omega
    · show mergebase.toNat + (mergeend - mergebase).toNat < 2 ^ 64
      omega
    · intro other member
      have bound := sound.split.1 other member
      have outside := below other member
      show other.hi ≤ mergebase.toNat
      omega
    · intro other member
      have bound := lastSplit other member
      have outside := high other member
      show mergebase.toNat + (mergeend - mergebase).toNat ≤ other.lo
      omega
  · left
    push Not at plain
    obtain ⟨other, member, flagged⟩ := plain
    have dropped : (before ++ region :: (tail ++ rest)).drop before.length =
        (region :: tail) ++ rest := by
      simp
    rw [lmbResizeRegions, dropped, lmbCountOverlaps_flagged base size _ _ _ _ other
      (mem_append_left _ member) (blockOverlaps other member) flagged]

end TachyonBoot.Lmb
