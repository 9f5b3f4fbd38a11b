/-
This file says exactly when a free removes the range it is given and nothing else.

A free that takes the beginning, the end or the whole of a region edits that region alone. A
free in the middle shortens the region and adds its tail again. The addition may find the
region behind the tail adjacent but with other flags. When that region and the next one meet
and have equal flags, the addition coalesces these two, reports success and drops the tail,
which is then no longer reserved. In every other case the tail comes back.
-/

import TachyonBoot.Lmb.Invariant

namespace TachyonBoot.Lmb

open Library List

/-- Some region of the list contains the range. -/
def HasRange (rgn : List LmbRegion) (base size : UInt64) : Prop :=
  ∃ region ∈ rgn, region.lo ≤ base.toNat ∧ base.toNat + size.toNat ≤ region.hi

/-- A free gives up the range and leaves every other address with its flags, or reports that no
region contains the range and changes nothing. -/
structure FreesExactly (lst : Alist) (base size : UInt64) (result : Int × Alist) : Prop where
  contained : HasRange lst.data base size → result.1 = 0 ∧ ∀ address flags,
    TaggedAt (spans result.2.data) address flags ↔
      TaggedAt (spans lst.data) address flags ∧ ¬InRange base size address
  missing : ¬HasRange lst.data base size → result = (-1, lst)

/-- The range is in the middle of a region. That region ends where a region with other flags
starts, and this one ends where a region with the same flags as its own starts. -/
def LosesTail (rgn : List LmbRegion) (base size : UInt64) : Prop :=
  ∃ region ∈ rgn, ∃ next ∈ rgn, ∃ second ∈ rgn,
    region.lo < base.toNat ∧ base.toNat + size.toNat < region.hi ∧
    region.hi = next.lo ∧ next.flags ≠ region.flags ∧
    next.hi = second.lo ∧ second.flags = next.flags

/-- The result has every address with its flags but those of the range. -/
def Frees (rgn : List LmbRegion) (base size : UInt64) (result : List LmbRegion) : Prop :=
  ∀ address flags, TaggedAt (spans result) address flags ↔
    TaggedAt (spans rgn) address flags ∧ ¬InRange base size address

/-- The pieces are what is left of a region without the range. -/
def IsCut (region : LmbRegion) (base size : UInt64) (pieces : List LmbRegion) : Prop :=
  ∀ address flags, TaggedAt (spans pieces) address flags ↔
    (region.lo ≤ address ∧ address < region.hi ∧ ¬InRange base size address) ∧
      region.flags = flags

/-! ### Tags of an addition -/

variable {rgn before after : List LmbRegion} {base size : UInt64} {lst : Alist}
  {region : LmbRegion} {tailBase tailSize : UInt64}

section

variable {flags : UInt32} {result : List LmbRegion}
  (outcome : AddOutcome rgn base size flags result)

include outcome

/-- An addition gives its flags to addresses of its range and to no others. -/
theorem AddOutcome.tagged {address : Nat} {tag : UInt32}
    (tagged : TaggedAt (spans result) address tag) :
    TaggedAt (spans rgn) address tag ∨ (InRange base size address ∧ tag = flags) := by
  cases outcome with
  | inserted before after split below above =>
    simp only [split, spans_append, taggedAt_append, spans_cons, taggedAt_cons] at tagged ⊢
    rcases tagged with inBefore | ⟨inRange, isTag⟩ | inAfter
    · exact .inl (.inl inBefore)
    · exact .inr ⟨inRange, isTag.symm⟩
    · exact .inl (.inr inAfter)
  | joined before block after merged joins =>
    simp only [joins.split, spans_append, taggedAt_append, spans_cons, taggedAt_cons,
      joins.covers address, LmbRegion.span_tag, joins.mergedFlags] at tagged ⊢
    rcases tagged with inBefore | ⟨inRange | inBlock, isTag⟩ | inAfter
    · exact .inl (.inl (.inl inBefore))
    · exact .inr ⟨inRange, isTag.symm⟩
    · obtain ⟨region, member, contains⟩ := covered_spans.mp inBlock
      refine .inl (.inl (.inr (taggedAt_spans.mpr ⟨region, member, contains, ?_⟩)))
      rw [joins.blockFlags region member, isTag]
    · exact .inl (.inr inAfter)
  | dropped before after first second merged drops =>
    obtain ⟨split, -, pairFlags, -, meets, -, mergedFlags, lo_eq, hi_eq⟩ := drops
    simp only [split, spans_append, taggedAt_append, spans_cons, taggedAt_cons, Span.Contains,
      LmbRegion.span_lo, LmbRegion.span_hi, LmbRegion.span_tag, lo_eq, hi_eq, mergedFlags,
      ← pairFlags] at tagged ⊢
    rcases tagged with inBefore | ⟨inMerged, isTag⟩ | inAfter
    · exact .inl (.inl inBefore)
    · by_cases low : address < first.hi
      · exact .inl (.inr (.inl ⟨⟨inMerged.1, low⟩, isTag⟩))
      · exact .inl (.inr (.inr (.inl ⟨by omega, isTag⟩)))
    · exact .inl (.inr (.inr (.inr inAfter)))

/-- An addition that does not drop its range gives all of it its flags, if it was free. -/
theorem AddOutcome.tagged_range (kept : ¬DropsRange rgn base size flags)
    (free : ∀ address, InRange base size address → ¬Covered (spans rgn) address) {address : Nat}
    (inRange : InRange base size address) : TaggedAt (spans result) address flags := by
  obtain ⟨span, member, contains⟩ := (outcome.covers_or_drops.resolve_right kept) address inRange
  have tagged : TaggedAt (spans result) address span.tag := ⟨span, member, contains, rfl⟩
  rcases outcome.tagged tagged with old | ⟨_, isTag⟩
  · exact absurd old.covered (free address inRange)
  · rwa [isTag] at tagged

end

/-! ### The cuts of a free -/

/-- What is left when the pieces of a cut region take its place. -/
theorem Sound.tagged_cut (sound : Sound (before ++ region :: after))
    (low : region.lo ≤ base.toNat) (high : base.toNat + size.toNat ≤ region.hi)
    {pieces : List LmbRegion} (cut : IsCut region base size pieces) :
    Frees (before ++ region :: after) base size (before ++ pieces ++ after) := by
  intro address flags
  obtain ⟨below, above⟩ := sound.split
  have others : ∀ rgn, (rgn = before ∨ rgn = after) → TaggedAt (spans rgn) address flags →
      ¬InRange base size address := by
    rintro rgn choice tagged ⟨start, limit⟩
    obtain ⟨other, member, contains, _⟩ := taggedAt_spans.mp tagged
    rcases choice with rfl | rfl
    · have bound := below other member
      omega
    · have bound := above other member
      omega
  simp only [spans_append, taggedAt_append, spans_cons, taggedAt_cons, cut _ _, Span.Contains,
    LmbRegion.span_lo, LmbRegion.span_hi, LmbRegion.span_tag]
  constructor
  · rintro ((inBefore | ⟨⟨start, limit, outside⟩, isTag⟩) | inAfter)
    · exact ⟨.inl inBefore, others before (.inl rfl) inBefore⟩
    · exact ⟨.inr (.inl ⟨⟨start, limit⟩, isTag⟩), outside⟩
    · exact ⟨.inr (.inr inAfter), others after (.inr rfl) inAfter⟩
  · rintro ⟨inBefore | ⟨⟨start, limit⟩, isTag⟩ | inAfter, outside⟩
    · exact .inl (.inl inBefore)
    · exact .inl (.inr ⟨⟨start, limit, outside⟩, isTag⟩)
    · exact .inr inAfter

theorem Sound.tagged_removed (sound : Sound (before ++ region :: after))
    (front : region.lo = base.toNat) (back : region.hi = base.toNat + size.toNat) :
    Frees (before ++ region :: after) base size (before ++ after) := by
  have nothing : IsCut region base size [] := by
    intro address flags
    rw [taggedAt_spans]
    unfold InRange
    constructor
    · rintro ⟨_, member, _⟩
      cases member
    · rintro ⟨contains, _⟩
      omega
  simpa using sound.tagged_cut front.le back.ge nothing

theorem Sound.tagged_cutEnd (sound : Sound (before ++ region :: after))
    (low : region.lo ≤ base.toNat) (high : base.toNat + size.toNat ≤ region.hi)
    (cut : LmbRegion) (isFlags : cut.flags = region.flags)
    (ends : (cut.lo = region.lo ∧ cut.hi = base.toNat ∧ base.toNat + size.toNat = region.hi) ∨
      (cut.lo = base.toNat + size.toNat ∧ cut.hi = region.hi ∧ region.lo = base.toNat)) :
    Frees (before ++ region :: after) base size (before ++ cut :: after) := by
  have piece : IsCut region base size [cut] := by
    intro address flags
    rw [taggedAt_spans]
    unfold InRange
    constructor
    · rintro ⟨other, member, contains, isTag⟩
      obtain rfl := mem_singleton.mp member
      exact ⟨by omega, by rw [← isFlags, isTag]⟩
    · rintro ⟨contains, isTag⟩
      exact ⟨cut, mem_singleton_self cut, by omega, by rw [isFlags, isTag]⟩
  simpa using sound.tagged_cut low high piece

/-! ### The tail of a split -/

theorem Sound.next_of_meets {next : LmbRegion} (sound : Sound (before ++ region :: after))
    (member : next ∈ before ++ region :: after) (meets : region.hi = next.lo) :
    ∃ rest, after = next :: rest := by
  obtain ⟨below, above⟩ := sound.split
  have extent := sound.lo_lt_hi member
  have regionExtent := sound.lo_lt_hi (show region ∈ before ++ region :: after by simp)
  rcases mem_append.mp member with inBefore | later
  · have bound := below next inBefore
    omega
  rcases mem_cons.mp later with rfl | inAfter
  · omega
  obtain ⟨between, rest, rfl⟩ := append_of_mem inAfter
  cases between with
  | nil => exact ⟨rest, rfl⟩
  | cons other more =>
    have tail : Sound ((before ++ region :: other :: more) ++ next :: rest) := by
      simpa using sound
    have upper := tail.split.1 other (by simp)
    have lower := above other (by simp)
    have otherExtent := sound.lo_lt_hi (show other ∈ _ by simp)
    omega

/-- The addition of the tail drops it exactly in the situation of `LosesTail`. -/
theorem SplitTail.drops_iff (tail : SplitTail before after region base size tailBase tailSize) :
    DropsRange (before ++ region.cutBelow base :: after) tailBase tailSize region.flags ↔
      LosesTail (before ++ region :: after) base size := by
  obtain ⟨sound, range, under, past, tailLo, tailHi, cutHi, cutSound, tailApart⟩ := tail
  obtain ⟨below, above⟩ := sound.split
  have rangeNonempty := range.nonempty
  have extent : ∀ other ∈ before ++ region :: after, other.lo < other.hi :=
    fun other member => sound.lo_lt_hi member
  constructor
  · rintro ⟨front, back, first, second, merged, drops⟩
    have inCut : ∀ other ∈ before ++ region.cutBelow base :: after, region.hi ≤ other.lo →
        other ∈ before ++ region :: after := by
      intro other member behind
      rcases mem_append.mp member with inBefore | later
      · exact mem_append_left _ inBefore
      · rcases mem_cons.mp later with rfl | inAfter
        · have lower : (region.cutBelow base).lo = region.lo := rfl
          omega
        · exact mem_append_right _ (mem_cons_of_mem _ inAfter)
    have firstIn : first ∈ before ++ region.cutBelow base :: after := by
      rw [drops.split]
      simp
    have secondIn : second ∈ before ++ region.cutBelow base :: after := by
      rw [drops.split]
      simp
    have firstExtent := cutSound.lo_lt_hi firstIn
    have meets := drops.meets
    have starts : first.lo = region.hi := by
      have outside := tailApart first firstIn
      rcases drops.touches with touches | touches
      · omega
      · omega
    exact ⟨region, by simp, first, inCut first firstIn starts.ge, second,
      inCut second secondIn (by omega), under, past, starts.symm, drops.otherFlags, meets,
      drops.pairFlags.symm⟩
  · rintro ⟨whole, wholeIn, next, nextIn, second, secondIn, starts, ends, meets, otherFlags,
      nextMeets, sameFlags⟩
    have same : whole = region := by
      rcases mem_append.mp wholeIn with inBefore | later
      · have bound := below whole inBefore
        omega
      · rcases mem_cons.mp later with rfl | inAfter
        · rfl
        · have bound := above whole inAfter
          omega
    subst same
    obtain ⟨rest, rfl⟩ := sound.next_of_meets nextIn meets
    have shifted : Sound ((before ++ [whole]) ++ next :: rest) := by simpa using sound
    obtain ⟨rest, rfl⟩ := shifted.next_of_meets (by simpa using secondIn) nextMeets
    have secondProper := sound.proper second (by simp)
    refine ⟨before ++ [whole.cutBelow base], rest, next, second,
      { next with size := next.size + second.size }, by simp, ?_, sameFlags.symm, otherFlags,
      nextMeets, .inr (by omega), rfl, rfl, secondProper.growUp nextMeets⟩
    intro other member
    rcases mem_append.mp member with inBefore | isCut
    · have bound := below other inBefore
      omega
    · rw [mem_singleton.mp isCut]
      omega

/-! ### Freeing -/

/-- The part of a region below the range and the part above it, which the addition brings back. -/
theorem SplitTail.frees (tail : SplitTail before after region base size tailBase tailSize)
    (isCut : lst.data = before ++ region.cutBelow base :: after) (alive : lst.fail = false)
    (room : lst.data.length + 1 < 2 ^ 16)
    (kept : ¬LosesTail (before ++ region :: after) base size) :
    (lmbAddRegionFlags true lst tailBase tailSize region.flags).1 = 0 ∧
      Frees (before ++ region :: after) base size
        (lmbAddRegionFlags true lst tailBase tailSize region.flags).2.data := by
  have notDropped := mt tail.drops_iff.mp kept
  have tailRange := tail.properRange
  obtain ⟨sound, range, under, past, tailLo, tailHi, cutHi, cutSound, tailApart⟩ := tail
  have rangeNonempty := range.nonempty
  have apart : ∀ other ∈ before ++ region.cutBelow base :: after,
      other.hi ≤ tailBase.toNat ∨ tailBase.toNat + tailSize.toNat ≤ other.lo := by
    intro other member
    have outside := tailApart other member
    omega
  rw [← isCut] at cutSound apart notDropped
  have free : Free lst.data tailBase tailSize := by
    intro other member
    have outside := apart other member
    rw [Bool.eq_false_iff, ne_eq, tailRange.overlap_iff (cutSound.proper other member)]
    omega
  have success := lmbAddRegionFlags_free region.flags alive free
  have effect := Sound.add cutSound tailRange region.flags true
    (cutSound.seamFits_of_apart region.flags apart)
  refine ⟨success, fun address flags => ?_⟩
  rcases effect with ⟨failed, _⟩ | ⟨_, rgn, outcome, _, whole⟩
  · exact absurd success failed
  rw [whole room]
  -- the addition brings back the tail and nothing else
  have uncovered : ∀ place, InRange tailBase tailSize place → ¬Covered (spans lst.data) place := by
    intro place inTail covered
    obtain ⟨other, member, contains⟩ := covered_spans.mp covered
    have outside := apart other member
    unfold InRange at inTail
    omega
  have restored : TaggedAt (spans rgn) address flags ↔ TaggedAt (spans lst.data) address flags ∨
      (InRange tailBase tailSize address ∧ flags = region.flags) := by
    refine ⟨outcome.tagged, ?_⟩
    rintro (old | ⟨inTail, rfl⟩)
    · exact outcome.keepsTags cutSound address flags old
    · exact outcome.tagged_range notDropped uncovered inTail
  have pieces : IsCut region base size
      [region.cutBelow base, ⟨tailBase, tailSize, region.flags⟩] := by
    intro address flags
    have cutLo : (region.cutBelow base).lo = region.lo := rfl
    rw [taggedAt_spans]
    unfold InRange
    constructor
    · rintro ⟨piece, member, contains, isTag⟩
      rcases mem_pair.mp member with rfl | rfl
      · exact ⟨by omega, isTag⟩
      · simp only [LmbRegion.lo, LmbRegion.hi] at *
        exact ⟨by omega, isTag⟩
    · rintro ⟨contains, isTag⟩
      by_cases lower : address < base.toNat
      · exact ⟨region.cutBelow base, by simp, by omega, isTag⟩
      · refine ⟨_, mem_cons_of_mem _ mem_cons_self, ?_, isTag⟩
        simp only [LmbRegion.lo, LmbRegion.hi] at *
        omega
  rw [restored, ← sound.tagged_cut under.le past.le pieces address flags, isCut,
    append_assoc]
  simp only [spans_append, spans_cons, taggedAt_append, taggedAt_cons, cons_append,
    nil_append]
  constructor
  · rintro ((inBefore | inCut | inAfter) | ⟨inTail, isTag⟩)
    · exact .inl inBefore
    · exact .inr (.inl inCut)
    · exact .inr (.inr (.inr inAfter))
    · exact .inr (.inr (.inl ⟨inTail, isTag.symm⟩))
  · rintro (inBefore | inCut | ⟨inTail, isTag⟩ | inAfter)
    · exact .inl (.inl inBefore)
    · exact .inl (.inr (.inl inCut))
    · exact .inr ⟨inTail, isTag.symm⟩
    · exact .inl (.inr (.inr inAfter))

/-- A split that loses the tail is not exact: the first address of the tail is gone. -/
theorem SplitTail.loses (tail : SplitTail before after region base size tailBase tailSize)
    (isCut : lst.data = before ++ region.cutBelow base :: after)
    (loses : LosesTail (before ++ region :: after) base size) :
    ¬TaggedAt (spans (lmbAddRegionFlags true lst tailBase tailSize region.flags).2.data)
      (base.toNat + size.toNat) region.flags := by
  have drops := tail.drops_iff.mpr loses
  have tailRange := tail.properRange
  obtain ⟨-, range, -, past, -, -, -, cutSound, tailApart⟩ := tail
  have rangeNonempty := range.nonempty
  rw [← isCut] at cutSound tailApart drops
  intro tagged
  obtain ⟨other, member, contains⟩ :=
    covered_spans.mp (drops.covered cutSound tailRange tagged.covered)
  have outside := tailApart other member
  omega

theorem Sound.middle_of_losesTail (sound : Sound rgn) (nonempty : 0 < size.toNat)
    (loses : LosesTail rgn base size) (member : region ∈ rgn) (low : region.lo ≤ base.toNat)
    (high : base.toNat + size.toNat ≤ region.hi) :
    region.lo < base.toNat ∧ base.toNat + size.toNat < region.hi := by
  obtain ⟨whole, wholeIn, _, _, _, _, under, past, _⟩ := loses
  obtain ⟨before, after, rfl⟩ := append_of_mem member
  obtain ⟨below, above⟩ := sound.split
  rcases mem_append.mp wholeIn with inBefore | later
  · have bound := below whole inBefore
    omega
  · rcases mem_cons.mp later with rfl | inAfter
    · exact ⟨under, past⟩
    · have bound := above whole inAfter
      omega

theorem SplitTail.freesExactly_iff
    (tail : SplitTail before after region base size tailBase tailSize)
    (split : lst.data = before ++ region :: after)
    (alive : lst.fail = false) (room : lst.data.length + 1 < 2 ^ 16) :
    FreesExactly lst base size (lmbAddRegionFlags true
        { lst with data := before ++ region.cutBelow base :: after } tailBase tailSize
        region.flags) ↔
      ¬LosesTail lst.data base size := by
  have past := tail.past
  have member : region ∈ lst.data := by simp [split]
  have has : HasRange lst.data base size := ⟨region, member, tail.under.le, past.le⟩
  constructor
  · intro exact loses
    rw [split] at loses
    have tags := (exact.contained has).2 (base.toNat + size.toNat) region.flags
    have under := tail.under
    refine tail.loses rfl loses (tags.mpr ⟨?_, ?_⟩)
    · exact taggedAt_spans.mpr ⟨region, member, ⟨by omega, past⟩, rfl⟩
    · unfold InRange
      omega
  · intro kept
    rw [split] at kept room
    have counted : (before ++ region.cutBelow base :: after).length + 1 < 2 ^ 16 := by
      simpa using room
    have freed := @SplitTail.frees before after base size
      { lst with data := before ++ region.cutBelow base :: after } region _ _ tail rfl alive
      counted kept
    refine ⟨fun _ => ⟨freed.1, ?_⟩, fun missing => absurd has missing⟩
    rw [split]
    exact freed.2

/-- No region of a sound list reaches the end of the address space. -/
theorem Sound.free_atEnd (sound : Sound lst.data) (nonempty : 0 < size.toNat)
    (atEnd : base.toNat + size.toNat = 2 ^ 64) (grows : Bool) :
    ¬HasRange lst.data base size ∧ lmbFreeRegion grows lst base size = (-1, lst) := by
  constructor
  · rintro ⟨region, member, _, high⟩
    have bound := sound.hi_lt member
    omega
  · have notFound : lst.data.findIdx (fun region => decide (region.base ≤ base) &&
        decide (base + size - 1 ≤ region.base + region.size - 1)) = lst.data.length := by
      rw [findIdx_eq_length]
      intro region member
      obtain ⟨regionNonempty, regionEnd⟩ := sound.proper region member
      rw [Bool.eq_false_iff]
      simp only [Bool.and_eq_true, decide_eq_true_eq, ne_eq, UInt64.le_iff_toNat_le,
        UInt64.toNat_sub, UInt64.toNat_add, UInt64.toNat_ofNat]
      omega
    simp [lmbFreeRegion, notFound]

/-- A free is exact except where it loses the tail of a region it splits. -/
theorem lmbFreeRegion_freesExactly_iff (lst : Alist) (base size : UInt64) (sound : Sound lst.data)
    (nonempty : 0 < size.toNat) (inside : base.toNat + size.toNat ≤ 2 ^ 64)
    (alive : lst.fail = false) (room : lst.data.length + 1 < 2 ^ 16) :
    FreesExactly lst base size (lmbFreeRegion true lst base size) ↔
      ¬LosesTail lst.data base size := by
  by_cases proper : base.toNat + size.toNat < 2 ^ 64
  swap
  · have atEnd : base.toNat + size.toNat = 2 ^ 64 := by omega
    obtain ⟨missing, result⟩ := sound.free_atEnd nonempty atEnd true
    rw [result]
    refine ⟨?_, fun _ => ⟨fun has => absurd has missing, fun _ => rfl⟩⟩
    rintro - ⟨region, member, _, _, _, _, _, past, _⟩
    have bound := sound.hi_lt member
    omega
  have range : ProperRange base size := ⟨nonempty, proper⟩
  rcases lmbFreeRegion_cases sound range true with ⟨result, outside⟩ |
    ⟨before, region, after, split, low, high, cuts⟩
  · have missing : ¬HasRange lst.data base size :=
      fun ⟨region, member, contains⟩ => outside region member contains
    rw [result]
    refine ⟨?_, fun _ => ⟨fun has => absurd has missing, fun _ => rfl⟩⟩
    rintro - ⟨region, member, _, _, _, _, under, past, _⟩
    exact outside region member ⟨under.le, past.le⟩
  have member : region ∈ lst.data := by simp [split]
  have has : HasRange lst.data base size := ⟨region, member, low, high⟩
  -- at the ends of a region nothing is lost
  have edited : ∀ rgn, lmbFreeRegion true lst base size = (0, { lst with data := rgn }) →
      Frees lst.data base size rgn →
      ¬(region.lo < base.toNat ∧ base.toNat + size.toNat < region.hi) →
      (FreesExactly lst base size (lmbFreeRegion true lst base size) ↔
        ¬LosesTail lst.data base size) := by
    intro rgn result tags atEnd
    rw [result]
    exact ⟨fun _ loses => atEnd (sound.middle_of_losesTail nonempty loses member low high),
      fun _ => ⟨fun _ => ⟨rfl, tags⟩, fun missing => absurd has missing⟩⟩
  have soundHere := split ▸ sound
  rcases cuts with ⟨front, back, result⟩ | ⟨front, past, result⟩ | ⟨under, back, result⟩ |
    ⟨under, past, result⟩
  · have tags := @Sound.tagged_removed before after base size region soundHere front back
    rw [← split] at tags
    exact edited _ result tags (by omega)
  · obtain ⟨cutLo, cutHi⟩ := LmbRegion.cutFront_bounds range (sound.proper region member) front high
    have tags := soundHere.tagged_cutEnd low high (region.cutFront base size) rfl
      (.inr ⟨cutLo, cutHi, front⟩)
    rw [← split] at tags
    exact edited _ result tags (by omega)
  · obtain ⟨cutLo, cutHi⟩ := LmbRegion.cutBack_bounds low back
    have tags := soundHere.tagged_cutEnd low high (region.cutBack size) rfl
      (.inl ⟨cutLo, cutHi, back.symm⟩)
    rw [← split] at tags
    exact edited _ result tags (by omega)
  · rw [result]
    exact (soundHere.splitTail range under past).freesExactly_iff split alive room

/-- A region with a flagged neighbour, behind which a second one was reserved before the first. -/
def tailRun : List LmbCall :=
  [.reserve true 0x1000 0x1000 lmbNone, .reserve true 0x3000 0x1000 lmbNomap,
    .reserve true 0x2000 0x1000 lmbNomap]

/-- A free in the middle of the region reports success, and the upper part of the region is no
longer reserved. -/
theorem tailRun_loses :
    ¬FreesExactly (runSteps (lmbStep quiet) (lmbSetup false ()) tailRun).usedMem 0x1400 0x400
      (lmbFreeRegion true (runSteps (lmbStep quiet) (lmbSetup false ()) tailRun).usedMem 0x1400
        0x400) := by
  have reserved : (runSteps (lmbStep quiet) (lmbSetup false ()) tailRun).usedMem.data =
      [⟨0x1000, 0x1000, lmbNone⟩, ⟨0x2000, 0x1000, lmbNomap⟩, ⟨0x3000, 0x1000, lmbNomap⟩] := by
    decide +kernel
  have left : (lmbFreeRegion true (runSteps (lmbStep quiet) (lmbSetup false ()) tailRun).usedMem
      0x1400 0x400).2.data = [⟨0x1000, 0x400, lmbNone⟩, ⟨0x2000, 0x2000, lmbNomap⟩] := by
    decide +kernel
  intro exact
  have has : HasRange (runSteps (lmbStep quiet) (lmbSetup false ()) tailRun).usedMem.data 0x1400
      0x400 := by
    rw [reserved]
    exact ⟨_, mem_cons_self, by decide, by decide⟩
  have tags := (exact.contained has).2 0x1800 lmbNone
  rw [reserved, left] at tags
  have lost := tags.mpr ⟨taggedAt_spans.mpr ⟨_, mem_cons_self, by decide, rfl⟩, by decide⟩
  exact absurd lost.covered (by decide)

theorem lmbFreeRegion_freesExactly_iff_pair :
    FreesExactly { alistInit with data := [⟨0x1000, 0x1000, lmbNone⟩, ⟨0x2000, 0x1000, lmbNomap⟩] }
        0x1400 0x400 (lmbFreeRegion true
          { alistInit with data := [⟨0x1000, 0x1000, lmbNone⟩, ⟨0x2000, 0x1000, lmbNomap⟩] }
          0x1400 0x400) ↔
      ¬LosesTail [⟨0x1000, 0x1000, lmbNone⟩, ⟨0x2000, 0x1000, lmbNomap⟩] 0x1400 0x400 :=
  lmbFreeRegion_freesExactly_iff
    { alistInit with data := [⟨0x1000, 0x1000, lmbNone⟩, ⟨0x2000, 0x1000, lmbNomap⟩] } 0x1400 0x400
    ⟨by decide, by decide⟩ (by decide) (by decide) rfl (by decide)

end TachyonBoot.Lmb
