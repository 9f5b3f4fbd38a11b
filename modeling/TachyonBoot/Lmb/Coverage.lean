/-
This file says what additions do to the addresses a list covers.

A successful addition keeps every address with its flags, also when the seam
condition fails. It covers the new range unless it drops it, and it drops it in
exactly one situation: the first region the range touches only meets it, carries
other flags, and is coalesced with its own successor.
-/

import TachyonBoot.Lmb.Effect

namespace TachyonBoot.Lmb

open Library List

/-! ### Denotation of a region list -/

variable {rgn result : List LmbRegion} {address : Nat} {flags : UInt32} {base size : UInt64}
  {region : LmbRegion} {grows : Bool} {lst : Alist}

theorem covered_spans :
    Covered (spans rgn) address ↔ ∃ region ∈ rgn, region.lo ≤ address ∧ address < region.hi := by
  simp [Covered, spans, Span.Contains]

theorem taggedAt_spans :
    TaggedAt (spans rgn) address flags ↔
      ∃ region ∈ rgn, (region.lo ≤ address ∧ address < region.hi) ∧ region.flags = flags := by
  simp [TaggedAt, spans, Span.Contains]

/-- The address belongs to the range. -/
def InRange (base size : UInt64) (address : Nat) : Prop :=
  base.toNat ≤ address ∧ address < base.toNat + size.toNat

instance (base size : UInt64) (address : Nat) : Decidable (InRange base size address) :=
  inferInstanceAs (Decidable (_ ∧ _))

/-- Every address keeps its flags. -/
def KeepsTags (rgn result : List LmbRegion) : Prop :=
  ∀ address flags, TaggedAt (spans rgn) address flags → TaggedAt (spans result) address flags

/-- The situation in which an addition drops its range. -/
def DropsRange (rgn : List LmbRegion) (base size : UInt64) (flags : UInt32) : Prop :=
  ∃ before after first second merged, Drops rgn base size flags before after first second merged

/-! ### Additions -/

theorem AddOutcome.keepsTags (sound : Sound rgn) (outcome : AddOutcome rgn base size flags result) :
    KeepsTags rgn result := by
  intro address tag tagged
  cases outcome with
  | inserted before after split below above =>
    simp only [split, spans_append, taggedAt_append, spans_cons, taggedAt_cons] at tagged ⊢
    tauto
  | joined before block after merged joins =>
    simp only [joins.split, spans_append, taggedAt_append, spans_cons, taggedAt_cons] at tagged ⊢
    rcases tagged with (inBefore | inBlock) | inAfter
    · exact .inl inBefore
    · have covered := (joins.covers address).mpr (.inr inBlock.covered)
      obtain ⟨region, member, _, tag_eq⟩ := taggedAt_spans.mp inBlock
      refine .inr (.inl ⟨covered, ?_⟩)
      rw [LmbRegion.span_tag, joins.mergedFlags, ← joins.blockFlags region member, tag_eq]
    · exact .inr (.inr inAfter)
  | dropped before after first second merged drops =>
    obtain ⟨split, -, pairFlags, -, meets, -, mergedFlags, lo_eq, hi_eq⟩ := drops
    have firstExtent := sound.lo_lt_hi (show first ∈ _ by simp [split])
    have secondExtent := sound.lo_lt_hi (show second ∈ _ by simp [split])
    simp only [split, spans_append, taggedAt_append, spans_cons, taggedAt_cons, Span.Contains,
      LmbRegion.span_lo, LmbRegion.span_hi, LmbRegion.span_tag, lo_eq, hi_eq, mergedFlags,
      ← pairFlags] at tagged ⊢
    rcases tagged with inBefore | ⟨inFirst, tag_eq⟩ | ⟨inSecond, tag_eq⟩ | inAfter
    · exact .inl inBefore
    · exact .inr (.inl ⟨by omega, tag_eq⟩)
    · exact .inr (.inl ⟨by omega, tag_eq⟩)
    · exact .inr (.inr inAfter)

theorem AddOutcome.covers_or_drops (outcome : AddOutcome rgn base size flags result) :
    (∀ address, InRange base size address → Covered (spans result) address) ∨
      DropsRange rgn base size flags := by
  cases outcome with
  | inserted before after split below above =>
    left
    intro address inRange
    simp only [spans_append, covered_append, spans_cons, covered_cons]
    exact .inr (.inl inRange)
  | joined before block after merged joins =>
    left
    intro address inRange
    simp only [spans_append, covered_append, spans_cons, covered_cons]
    exact .inr (.inl ((joins.covers address).mpr (.inl inRange)))
  | dropped before after first second merged drops =>
    exact .inr ⟨before, after, first, second, merged, drops⟩

theorem Drops.covered {before after : List LmbRegion} {first second merged : LmbRegion}
    (drops : Drops rgn base size flags before after first second merged)
    (covered : Covered (spans (before ++ merged :: after)) address) :
    Covered (spans rgn) address := by
  obtain ⟨split, -, -, -, meets, -, -, lo_eq, hi_eq⟩ := drops
  simp only [split, spans_append, covered_append, spans_cons, covered_cons, Span.Contains,
    LmbRegion.span_lo, LmbRegion.span_hi, lo_eq, hi_eq] at covered ⊢
  rcases covered with inBefore | inMerged | inAfter
  · exact .inl inBefore
  · by_cases low : address < first.hi
    · exact .inr (.inl ⟨inMerged.1, low⟩)
    · exact .inr (.inr (.inl (by omega)))
  · exact .inr (.inr (.inr inAfter))

/-! ### An addition across a seam that does not fit -/

theorem mem_lmbInsertRegion {other : LmbRegion} :
    other ∈ lmbInsertRegion rgn region ↔ other = region ∨ other ∈ rgn := by
  have parts : other ∈ rgn ↔
      other ∈ rgn.rdropWhile (fun other => decide (region.base < other.base)) ∨
        other ∈ rgn.rtakeWhile (fun other => decide (region.base < other.base)) := by
    rw [← mem_append, rdropWhile_append_rtakeWhile]
  rw [lmbInsertRegion, mem_append, mem_cons, parts]
  tauto

theorem length_lmbInsertRegion (rgn : List LmbRegion) (region : LmbRegion) :
    (lmbInsertRegion rgn region).length = rgn.length + 1 := by
  have parts := congrArg List.length (rdropWhile_append_rtakeWhile
    (p := fun other => decide (region.base < other.base)) (l := rgn))
  simp only [lmbInsertRegion, length_append, length_cons] at parts ⊢
  omega

/-- A list that keeps all regions of another one and has one for the range. -/
theorem reserved_of_mem (region : LmbRegion)
    (kept : ∀ other ∈ rgn, ∃ grown ∈ result,
      grown.lo ≤ other.lo ∧ other.hi ≤ grown.hi ∧ grown.flags = other.flags)
    (member : region ∈ result) (low : region.lo ≤ base.toNat)
    (high : base.toNat + size.toNat ≤ region.hi) :
    KeepsTags rgn result ∧
      ∀ address, InRange base size address → Covered (spans result) address := by
  refine ⟨fun address tag tagged => ?_, fun address inRange => ?_⟩
  · obtain ⟨other, otherMember, contains, tag_eq⟩ := taggedAt_spans.mp tagged
    obtain ⟨grown, grownMember, lower, upper, grownFlags⟩ := kept other otherMember
    exact taggedAt_spans.mpr ⟨grown, grownMember, by omega, by rw [grownFlags, tag_eq]⟩
  · unfold InRange at inRange
    exact covered_spans.mpr ⟨region, member, by omega⟩

theorem lmbAddToTable_reserves (room : lst.data.length + 1 < 2 ^ 16)
    (success : (lmbAddToTable grows lst ⟨base, size, flags⟩).1 = 0) :
    KeepsTags lst.data (lmbAddToTable grows lst ⟨base, size, flags⟩).2.data ∧
      ∀ address, InRange base size address →
        Covered (spans (lmbAddToTable grows lst ⟨base, size, flags⟩).2.data) address := by
  rcases lmbAddToTable_cases grows lst ⟨base, size, flags⟩ with ⟨ret, _⟩ | ⟨_, data⟩
  · rw [ret] at success
    exact absurd success (by decide)
  · rw [data, take_of_length_le (by rw [length_lmbInsertRegion]; omega)]
    refine reserved_of_mem ⟨base, size, flags⟩ (fun other member => ?_)
      (mem_lmbInsertRegion.mpr (.inl rfl)) le_rfl le_rfl
    exact ⟨other, mem_lmbInsertRegion.mpr (.inr member), le_rfl, le_rfl, rfl⟩

/-- With other flags, or with a successor that ends inside the range, the repair gives up. -/
theorem lmbCoalesceNext_givesUp (before rest : List LmbRegion) {next : LmbRegion}
    (range : ProperRange base size) (meets : region.hi = base.toNat)
    (extent : region.lo < region.hi) (nextProper : ProperRange next.base next.size)
    (order : region.hi ≤ next.lo) (overlaps : next.lo < base.toNat + size.toNat)
    (beyond : region.flags = next.flags → next.hi < base.toNat + size.toNat) :
    (lmbCoalesceNext (before ++ { region with size := region.size + size } :: next :: rest)
        before.length 1).1 =
          before ++ { region with size := region.size + size } :: next :: rest ∧
      (lmbCoalesceNext (before ++ { region with size := region.size + size } :: next :: rest)
        before.length 1).2 ≠ 0 := by
  rw [lmbCoalesceNext_cons]
  by_cases same : region.flags = next.flags
  · obtain ⟨notAdjacent, overlap⟩ :=
      range.growUp_overlaps meets extent nextProper order overlaps
    have ends : region.base + (region.size + size) > next.base + next.size := by
      rw [gt_iff_lt, UInt64.lt_iff_toNat_lt, (range.growUp_proper meets extent).toNat_add,
        nextProper.toNat_add, range.growUp meets]
      exact beyond same
    simp only [same, notAdjacent, overlap, if_pos ends, ne_eq, not_true, if_true, if_false]
    exact ⟨trivial, by decide⟩
  · simp only [if_neg same]
    exact ⟨trivial, by decide⟩

/-- Across a seam that does not fit, the list may come out of order, but nothing is lost. -/
theorem Sound.add_acrossSeam {before rest : List LmbRegion} {next : LmbRegion}
    (sound : Sound lst.data) (alive : lst.fail = false) (range : ProperRange base size)
    (split : lst.data = before ++ region :: next :: rest)
    (index : lst.data.findIdx (lmbTouches base size) = before.length)
    (meets : region.hi = base.toNat) (overlaps : next.lo < base.toNat + size.toNat)
    (unfit : ¬SeamPair region next base size flags) (room : lst.data.length + 1 < 2 ^ 16)
    (success : (lmbAddRegionFlags grows lst base size flags).1 = 0) :
    KeepsTags lst.data (lmbAddRegionFlags grows lst base size flags).2.data ∧
      ∀ address, InRange base size address →
        Covered (spans (lmbAddRegionFlags grows lst base size flags).2.data) address := by
  have rangeNonempty := range.nonempty
  have proper := sound.proper region (by simp [split])
  have nextProper := sound.proper next (by simp [split])
  have extent := sound.lo_lt_hi (show region ∈ _ by simp [split])
  have order := (split ▸ sound).split.2 next (by simp)
  have adjacent : lmbAddrsAdjacent base size region.base region.size = -1 := by
    rw [range.adjacent_eq proper, if_neg (by omega), if_pos meets]
  have first := lmbCoalesceFirst_here flags split index
  rw [adjacent, if_neg (by decide), if_pos (by decide)] at first
  by_cases differ : flags ≠ region.flags
  · rw [if_pos differ] at first
    have next_eq := lmbCoalesceNext_apart before rest 0 proper nextProper order
    rw [if_neg fun merges => unfit (.inr ⟨differ.symm, merges.1.symm, by omega⟩), ← split]
      at next_eq
    have table : lmbAddRegionFlags grows lst base size flags =
        lmbAddToTable grows lst ⟨base, size, flags⟩ := by
      rw [lmbAddRegionFlags, if_neg (by simp [alive])]
      simp only [first, next_eq, ne_eq, not_true, if_false]
    rw [table] at success ⊢
    exact lmbAddToTable_reserves room success
  · rw [if_neg differ] at first
    rw [not_not] at differ
    have grownHi := range.growUp meets
    have next_eq := lmbCoalesceNext_givesUp before rest range meets extent nextProper order overlaps
      fun same => not_le.mp fun reaches =>
        unfit (.inl ⟨differ.symm, by rw [← same, differ], reaches⟩)
    have result : lmbAddRegionFlags grows lst base size flags = (0, { lst with
        data := before ++ { region with size := region.size + size } :: next :: rest }) := by
      rw [lmbAddRegionFlags, if_neg (by simp [alive])]
      simp only [first, if_pos next_eq.2, next_eq.1]
    rw [result, split]
    refine reserved_of_mem { region with size := region.size + size } (fun other member => ?_)
      (by simp) ?_ ?_
    · rcases mem_append.mp member with earlier | later
      · exact ⟨other, by simp [earlier], le_rfl, le_rfl, rfl⟩
      · rcases mem_cons.mp later with rfl | after
        · refine ⟨{ other with size := other.size + size }, by simp, le_rfl, ?_, rfl⟩
          show other.hi ≤ other.base.toNat + (other.size + size).toNat
          omega
        · exact ⟨other, by simp [after], le_rfl, le_rfl, rfl⟩
    · show region.lo ≤ base.toNat
      omega
    · show base.toNat + size.toNat ≤ region.base.toNat + (region.size + size).toNat
      omega

/-! ### The exact condition for keeping the range -/

theorem Sound.add_reserves (sound : Sound lst.data) (range : ProperRange base size)
    (flags : UInt32) (grows : Bool) (room : lst.data.length + 1 < 2 ^ 16)
    (success : (lmbAddRegionFlags grows lst base size flags).1 = 0) :
    KeepsTags lst.data (lmbAddRegionFlags grows lst base size flags).2.data ∧
      ((∀ address, InRange base size address →
          Covered (spans (lmbAddRegionFlags grows lst base size flags).2.data) address) ∨
        DropsRange lst.data base size flags) := by
  by_cases dead : lst.fail = true
  · rw [lmbAddRegionFlags, if_pos dead] at success
    exact absurd success (by simp)
  have alive : lst.fail = false := by simpa using dead
  rcases sound.add_or_seam alive range flags grows with
    effect | ⟨before, region, next, rest, split, index, meets, overlaps, unfit⟩
  · rcases effect with ⟨failed, _⟩ | ⟨_, rgn, outcome, _, complete⟩
    · exact absurd success failed
    · rw [complete room]
      exact ⟨outcome.keepsTags sound, outcome.covers_or_drops⟩
  · have reserved := sound.add_acrossSeam alive range split index meets overlaps unfit room success
    exact ⟨reserved.1, .inl reserved.2⟩

/-- In the situation of `DropsRange` the range is dropped: nothing new is covered. -/
theorem DropsRange.covered (sound : Sound lst.data) (range : ProperRange base size)
    (situation : DropsRange lst.data base size flags)
    (covered : Covered (spans (lmbAddRegionFlags grows lst base size flags).2.data) address) :
    Covered (spans lst.data) address := by
  obtain ⟨before, after, first, second, merged, drops⟩ := situation
  have split := drops.split
  have rangeNonempty := range.nonempty
  have proper := sound.proper first (by simp [split])
  have secondProper := sound.proper second (by simp [split])
  have extent := sound.lo_lt_hi (show first ∈ _ by simp [split])
  have index : lst.data.findIdx (lmbTouches base size) = before.length := by
    have untouched : ∀ other ∈ before, lmbTouches base size other = false := by
      intro other member
      have low := drops.below other member
      rw [Bool.eq_false_iff, ne_eq,
        range.touches_iff (sound.proper other (by simp [split, member]))]
      omega
    have touched : lmbTouches base size first = true := by
      rw [range.touches_iff proper]
      rcases drops.touches with ends | starts <;> omega
    have passed : ¬ before.findIdx (lmbTouches base size) < before.length := by
      rw [findIdx_lt_length]
      simpa using untouched
    rw [split, findIdx_append, if_neg passed, findIdx_cons, touched, cond_true,
      Nat.zero_add]
  by_cases dead : lst.fail = true
  · rw [lmbAddRegionFlags, if_pos dead] at covered
    exact covered
  have differ : flags ≠ first.flags := drops.otherFlags.symm
  have firstStep : lmbCoalesceFirst lst.data base size flags =
      .ok (lst.data, before.length, 0) := by
    have adjacent := range.adjacent_eq proper
    rw [lmbCoalesceFirst_here flags split index]
    rcases drops.touches with ends | starts
    · rw [if_neg (by omega), if_pos ends] at adjacent
      rw [adjacent, if_neg (by decide), if_pos (by decide), if_pos differ]
    · rw [if_pos starts] at adjacent
      rw [adjacent, if_pos (by decide), if_pos differ]
  have secondStep := lmbCoalesceNext_apart before after 0 proper secondProper drops.meets.le
  rw [if_pos ⟨drops.pairFlags, drops.meets⟩, ← split] at secondStep
  have result : lmbAddRegionFlags grows lst base size flags = (0, { lst with
      data := before ++ { first with size := first.size + second.size } :: after }) := by
    rw [lmbAddRegionFlags, if_neg dead]
    simp only [firstStep, secondStep]
    rfl
  have coalesced : Drops lst.data base size flags before after first second
      { first with size := first.size + second.size } :=
    ⟨split, drops.below, drops.pairFlags, drops.otherFlags, drops.meets, drops.touches, rfl, rfl,
      secondProper.growUp drops.meets⟩
  rw [result] at covered
  exact coalesced.covered covered

end TachyonBoot.Lmb
