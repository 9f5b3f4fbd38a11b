/-
This file assembles the effect of `lmb_add_region_flags()` and of `_lmb_free()`
on a sound list, and what each does to the addresses the list covers.

An addition that does not return zero leaves the regions alone. One that does
leaves one of the three outcomes of `AddOutcome`, as long as the sixteen-bit
count has room. A free cuts the range out of the one region that contains it; the
tail of a split region goes through an addition of its own, and so may be
dropped like any other range.
-/

import TachyonBoot.Lmb.Coalesce

namespace TachyonBoot.Lmb

open Library List

/-! ### Adding to the table -/

/-- What an addition returns and leaves behind. -/
def AddEffect (lst : Alist) (base size : UInt64) (flags : UInt32) (result : Int × Alist) : Prop :=
  (result.1 ≠ 0 ∧ result.2.data = lst.data) ∨
    (result.1 = 0 ∧ ∃ rgn, AddOutcome lst.data base size flags rgn ∧ result.2.data <+: rgn ∧
      (lst.data.length + 1 < 2 ^ 16 → result.2.data = rgn))

/-- The insertion loop puts a region between those that start at or below it and those that
start above it. -/
theorem lmbInsertRegion_between (before after : List LmbRegion) (region : LmbRegion)
    (below : ∀ other ∈ before, other.lo ≤ region.lo)
    (above : ∀ other ∈ after, region.lo < other.lo) :
    lmbInsertRegion (before ++ after) region = before ++ region :: after := by
  have moved : ∀ other ∈ after.reverse, decide (region.base < other.base) = true := by
    intro other member
    have order := above other (mem_reverse.mp member)
    simpa [UInt64.lt_iff_toNat_lt, LmbRegion.lo] using order
  have stays : ∀ other ∈ before.reverse, ¬ decide (region.base < other.base) = true := by
    intro other member
    have order := below other (mem_reverse.mp member)
    simpa [UInt64.lt_iff_toNat_lt, LmbRegion.lo] using order
  have dropped : before.reverse.dropWhile (fun other => decide (region.base < other.base)) =
      before.reverse := by
    cases reversed : before.reverse with
    | nil => rfl
    | cons head tail => exact dropWhile_cons_of_neg (stays head (by simp [reversed]))
  have taken : before.reverse.takeWhile (fun other => decide (region.base < other.base)) = [] := by
    cases reversed : before.reverse with
    | nil => rfl
    | cons head tail => exact takeWhile_cons_of_neg (stays head (by simp [reversed]))
  rw [lmbInsertRegion, List.rdropWhile, List.rtakeWhile, reverse_append,
    dropWhile_append_of_pos moved, takeWhile_append_of_pos moved, dropped, taken]
  simp

theorem lmbAddToTable_cases (grows : Bool) (lst : Alist) (region : LmbRegion) :
    ((lmbAddToTable grows lst region).1 = -1 ∧
        (lmbAddToTable grows lst region).2.data = lst.data) ∨
      ((lmbAddToTable grows lst region).1 = 0 ∧
        (lmbAddToTable grows lst region).2.data =
          (lmbInsertRegion lst.data region).take
            ((lmbInsertRegion lst.data region).length % 2 ^ 16)) := by
  unfold lmbAddToTable alistExpandBy
  split_ifs <;> simp

variable {lst : Alist} {before after rgn : List LmbRegion} {base size : UInt64}
  {region : LmbRegion} {flags : UInt32} {grows : Bool}

theorem Sound.addToTable (sound : Sound lst.data) (range : ProperRange base size) (flags : UInt32)
    (grows : Bool) (split : lst.data = before ++ after)
    (below : ∀ other ∈ before, other.hi ≤ base.toNat)
    (above : ∀ other ∈ after, base.toNat + size.toNat ≤ other.lo) :
    AddEffect lst base size flags (lmbAddToTable grows lst ⟨base, size, flags⟩) := by
  have rangeNonempty := range.nonempty
  have placed : lmbInsertRegion lst.data ⟨base, size, flags⟩ =
      before ++ ⟨base, size, flags⟩ :: after := by
    rw [split]
    refine lmbInsertRegion_between before after _ (fun other member => ?_)
      (fun other member => ?_)
    · have extent := sound.lo_lt_hi (show other ∈ _ by simp [split, member])
      have bound := below other member
      show other.lo ≤ base.toNat
      omega
    · have bound := above other member
      show base.toNat < other.lo
      omega
  rcases lmbAddToTable_cases grows lst ⟨base, size, flags⟩ with ⟨ret, same⟩ | ⟨ret, data⟩
  · exact .inl ⟨by rw [ret]; decide, same⟩
  · refine .inr ⟨ret, _, .inserted before after split below above, ?_, ?_⟩
    · rw [data, placed]
      exact take_prefix _ _
    · intro room
      rw [data, placed]
      refine take_of_length_le ?_
      simp only [split, length_append, length_cons] at room ⊢
      omega

/-! ### The cases of an addition -/

theorem lmbCoalesceFirst_here (flags : UInt32) (split : rgn = before ++ region :: after)
    (index : rgn.findIdx (lmbTouches base size) = before.length) :
    lmbCoalesceFirst rgn base size flags =
      if 0 < lmbAddrsAdjacent base size region.base region.size then
        if flags ≠ region.flags then .ok (rgn, before.length, 0)
        else .ok (before ++ { region with
          base := region.base - size, size := region.size + size } :: after, before.length, 1)
      else if lmbAddrsAdjacent base size region.base region.size < 0 then
        if flags ≠ region.flags then .ok (rgn, before.length, 0)
        else .ok (before ++ { region with size := region.size + size } :: after,
          before.length, 1)
      else if flags ≠ lmbNone then .error (-eexist)
      else match lmbResizeRegions rgn before.length base size with
        | none => .error (-1)
        | some resized => .ok (resized, before.length, 1) := by
  subst split
  have here : (before ++ region :: after)[before.length]? = some region := by simp
  cases resized : lmbResizeRegions (before ++ region :: after) before.length base size with
  | none => simp only [lmbCoalesceFirst, index, here, set_here, resized]
  | some rgn => simp only [lmbCoalesceFirst, index, here, set_here, resized]

theorem addEffect_of_coalesced {i coalesced : Nat} (alive : lst.fail = false)
    (first : lmbCoalesceFirst lst.data base size flags = .ok (rgn, i, coalesced))
    (outcome : AddOutcome lst.data base size flags (lmbCoalesceNext rgn i coalesced).1)
    (counted : 1 ≤ (lmbCoalesceNext rgn i coalesced).2) :
    AddEffect lst base size flags (lmbAddRegionFlags grows lst base size flags) := by
  have positive : (lmbCoalesceNext rgn i coalesced).2 ≠ 0 := by omega
  rw [lmbAddRegionFlags, if_neg (by simp [alive])]
  simp only [first, if_pos positive]
  exact .inr ⟨rfl, _, outcome, prefix_refl _, fun _ => rfl⟩

/-- A region that the first loop has joined with the range is what an addition leaves behind, with
the second loop going on from it. -/
theorem Joins.addEffect {block : List LmbRegion} {merged : LmbRegion}
    (joins : Joins lst.data base size flags before block after merged) (sound : Sound lst.data)
    (alive : lst.fail = false)
    (first : lmbCoalesceFirst lst.data base size flags =
      .ok (before ++ merged :: after, before.length, 1)) :
    AddEffect lst base size flags (lmbAddRegionFlags grows lst base size flags) := by
  obtain ⟨outcome, counted⟩ := joins.coalesceNext sound 1
  exact addEffect_of_coalesced alive first outcome counted

theorem addEffect_of_uncoalesced {i : Nat} (alive : lst.fail = false)
    (first : lmbCoalesceFirst lst.data base size flags = .ok (lst.data, i, 0))
    (next : lmbCoalesceNext lst.data i 0 = (lst.data, 0))
    (effect : AddEffect lst base size flags (lmbAddToTable grows lst ⟨base, size, flags⟩)) :
    AddEffect lst base size flags (lmbAddRegionFlags grows lst base size flags) := by
  rw [lmbAddRegionFlags, if_neg (by simp [alive])]
  simp only [first, next, ne_eq, not_true, if_false]
  exact effect

theorem addEffect_of_error {ret : Int} (alive : lst.fail = false)
    (first : lmbCoalesceFirst lst.data base size flags = .error ret) (failed : ret ≠ 0) :
    AddEffect lst base size flags (lmbAddRegionFlags grows lst base size flags) := by
  rw [lmbAddRegionFlags, if_neg (by simp [alive])]
  simp only [first]
  exact .inl ⟨failed, rfl⟩

theorem Sound.add_untouched (sound : Sound lst.data) (alive : lst.fail = false)
    (range : ProperRange base size) (flags : UInt32) (grows : Bool)
    (apart : ∀ region ∈ lst.data, region.hi < base.toNat ∨ base.toNat + size.toNat < region.lo)
    (index : lst.data.findIdx (lmbTouches base size) = lst.data.length) :
    AddEffect lst base size flags (lmbAddRegionFlags grows lst base size flags) := by
  obtain ⟨before, after, split, low, high⟩ := sound.splitBelow (base.toNat + size.toNat)
  have below : ∀ other ∈ before, other.hi ≤ base.toNat := by
    intro other member
    have bound := low other member
    have outside := apart other (by simp [split, member])
    omega
  refine addEffect_of_uncoalesced alive (i := lst.data.length) ?_ ?_
    (sound.addToTable range flags grows split below high)
  · simp [lmbCoalesceFirst, index]
  · simp [lmbCoalesceNext]

theorem Sound.joinsOne {merged : LmbRegion} (sound : Sound rgn) (range : ProperRange base size)
    (split : rgn = before ++ region :: after) (regionFlags : region.flags = flags)
    (mergedFlags : merged.flags = flags)
    (touches : region.lo ≤ base.toNat + size.toNat ∧ base.toNat ≤ region.hi)
    (lo_eq : merged.lo = min base.toNat region.lo)
    (hi_eq : merged.hi = max region.hi (base.toNat + size.toNat))
    (below : ∀ other ∈ before, other.hi < base.toNat)
    (above : ∀ other ∈ after, base.toNat + size.toNat ≤ other.lo) :
    Joins rgn base size flags before [region] after merged := by
  have rangeNonempty := range.nonempty
  have rangeEnd := range.inside
  have extent := sound.lo_lt_hi (show region ∈ _ by simp [split])
  have regionEnd := sound.hi_lt (show region ∈ _ by simp [split])
  refine ⟨by simp [split], by simp, by simp [regionFlags], mergedFlags, ⟨?_, ?_⟩, ?_, ?_, ?_⟩
  · simp only [LmbRegion.lo, LmbRegion.hi] at *
    omega
  · rw [← LmbRegion.hi]
    omega
  · intro address
    simp only [spans_cons, spans_nil, covered_cons, covered_nil, or_false, Span.Contains,
      LmbRegion.span]
    omega
  · intro other member
    have bound := below other member
    have order := (split ▸ sound).split.1 other member
    omega
  · intro other member
    have bound := above other member
    have order := (split ▸ sound).split.2 other member
    omega

/-- A range that meets a region with other flags: the region and its successor may be
coalesced, which drops the range; otherwise the range goes to the table. -/
theorem Sound.add_otherFlags (sound : Sound lst.data) (alive : lst.fail = false)
    (split : lst.data = before ++ region :: after)
    (below : ∀ other ∈ before, other.hi < base.toNat) (differ : flags ≠ region.flags)
    (touches : region.hi = base.toNat ∨ region.lo = base.toNat + size.toNat)
    (first : lmbCoalesceFirst lst.data base size flags = .ok (lst.data, before.length, 0))
    (insert : (∀ next rest, after = next :: rest →
        ¬ (region.flags = next.flags ∧ region.hi = next.lo)) →
      AddEffect lst base size flags (lmbAddToTable grows lst ⟨base, size, flags⟩)) :
    AddEffect lst base size flags (lmbAddRegionFlags grows lst base size flags) := by
  cases after with
  | nil =>
    refine addEffect_of_uncoalesced alive first ?_ (insert (by simp))
    rw [split, lmbCoalesceNext_last]
  | cons next rest =>
    have nextProper := sound.proper next (by simp [split])
    have next_eq := lmbCoalesceNext_apart before rest 0 (sound.proper region (by simp [split]))
      nextProper ((split ▸ sound).split.2 next (by simp))
    rw [← split] at next_eq
    by_cases merges : region.flags = next.flags ∧ region.hi = next.lo
    · rw [if_pos merges] at next_eq
      refine addEffect_of_coalesced alive first ?_ (by simp [next_eq])
      rw [next_eq]
      exact .dropped before rest region next _ ⟨split, below, merges.1, differ.symm, merges.2,
        touches, rfl, rfl, nextProper.growUp merges.2⟩
    · rw [if_neg merges] at next_eq
      refine addEffect_of_uncoalesced alive first next_eq (insert ?_)
      rintro other tail ⟨rfl, rfl⟩
      exact merges

/-- A range that starts where a region ends and overlaps the next one, with all flags equal:
the region takes over the end of its successor. -/
theorem Sound.add_bridge {rest : List LmbRegion} {next : LmbRegion} (sound : Sound lst.data)
    (alive : lst.fail = false) (range : ProperRange base size)
    (split : lst.data = before ++ region :: next :: rest) (meets : region.hi = base.toNat)
    (regionFlags : region.flags = flags) (nextFlags : next.flags = flags)
    (overlaps : next.lo < base.toNat + size.toNat) (reaches : base.toNat + size.toNat ≤ next.hi)
    (first : lmbCoalesceFirst lst.data base size flags =
      .ok (before ++ { region with size := region.size + size } :: next :: rest,
        before.length, 1)) :
    AddEffect lst base size flags (lmbAddRegionFlags grows lst base size flags) := by
  have rangeNonempty := range.nonempty
  have rangeEnd := range.inside
  have proper := sound.proper region (by simp [split])
  have nextProper := sound.proper next (by simp [split])
  have extent := sound.lo_lt_hi (show region ∈ _ by simp [split])
  have nextEnd := sound.hi_lt (show next ∈ _ by simp [split])
  have order := (split ▸ sound).split.2 next (by simp)
  have later := (show Sound ((before ++ [region]) ++ next :: rest) by
    simpa [split] using sound).split.2
  have grownHi := range.growUp meets
  have grownProper := range.growUp_proper meets extent
  have mergedHi := nextProper.takeOver (show region.lo ≤ next.lo by omega)
  have next_eq : lmbCoalesceNext
      (before ++ { region with size := region.size + size } :: next :: rest) before.length 1 =
      (before ++ { region with size := next.base + next.size - region.base } :: rest, 2) := by
    obtain ⟨notAdjacent, overlap⟩ :=
      range.growUp_overlaps meets extent nextProper order overlaps
    have inside : ¬ region.base + (region.size + size) > next.base + next.size := by
      rw [gt_iff_lt, UInt64.lt_iff_toNat_lt, grownProper.toNat_add, nextProper.toNat_add, grownHi,
        not_lt]
      exact reaches
    rw [lmbCoalesceNext_cons]
    simp only [regionFlags, nextFlags, notAdjacent, overlap, if_neg inside, ne_eq, not_true,
      if_true, if_false]
  refine addEffect_of_coalesced alive first ?_ (by simp [next_eq])
  rw [next_eq]
  refine .joined before [region, next] rest _ ⟨by simp [split], by simp, ?_, regionFlags,
    ⟨?_, ?_⟩, ?_, ?_, ?_⟩
  · simp [regionFlags, nextFlags]
  · show 0 < (next.base + next.size - region.base).toNat
    simp only [LmbRegion.lo, LmbRegion.hi] at *
    omega
  · show region.base.toNat + (next.base + next.size - region.base).toNat < 2 ^ 64
    omega
  · intro address
    show region.base.toNat ≤ address ∧
      address < region.base.toNat + (next.base + next.size - region.base).toNat ↔ _
    simp only [spans_cons, spans_nil, covered_cons, covered_nil, or_false, Span.Contains,
      LmbRegion.span, mergedHi]
    simp only [LmbRegion.lo, LmbRegion.hi] at *
    omega
  · exact (split ▸ sound).split.1
  · intro other member
    have bound := later other member
    show region.base.toNat + (next.base + next.size - region.base).toNat ≤ other.lo
    omega

/-- Once the first region starts beyond a bound, so do all others. -/
theorem Sound.le_lo_of_first {regions : List LmbRegion} (sound : Sound regions) {bound : Nat}
    (first : ∀ next rest, regions = next :: rest → bound ≤ next.lo) :
    ∀ other ∈ regions, bound ≤ other.lo := by
  intro other member
  cases regions with
  | nil => cases member
  | cons next rest => exact (first next rest rfl).trans (sound.first_lo_le member)

section Touching

variable (sound : Sound lst.data) (alive : lst.fail = false) (range : ProperRange base size)
  (flags grows) (split : lst.data = before ++ region :: after)
  (below : ∀ other ∈ before, other.hi < base.toNat)
  (index : lst.data.findIdx (lmbTouches base size) = before.length)

include sound alive range split below index

/-- A range that ends where the first region it touches starts. -/
theorem Sound.add_above (meets : region.lo = base.toNat + size.toNat) :
    AddEffect lst base size flags (lmbAddRegionFlags grows lst base size flags) := by
  have proper := sound.proper region (by simp [split])
  have extent := sound.lo_lt_hi (show region ∈ _ by simp [split])
  have beyond := (split ▸ sound).split.2
  have above : ∀ other ∈ region :: after, base.toNat + size.toNat ≤ other.lo := by
    intro other member
    rcases mem_cons.mp member with rfl | later
    · exact meets.ge
    · have bound := beyond other later
      omega
  have first := lmbCoalesceFirst_here flags split index
  rw [range.adjacent_eq proper, if_pos meets, if_pos (by decide)] at first
  by_cases differ : flags ≠ region.flags
  · rw [if_pos differ] at first
    exact sound.add_otherFlags alive split below differ (.inr meets) first fun _ =>
      sound.addToTable range flags grows split (fun other member => (below other member).le) above
  · rw [if_neg differ] at first
    rw [not_not] at differ
    obtain ⟨grownLo, grownHi⟩ := growDown proper meets
    have joins : Joins lst.data base size flags before [region] after
        { region with base := region.base - size, size := region.size + size } := by
      refine sound.joinsOne range split differ.symm differ.symm ⟨meets.le, by omega⟩ ?_ ?_ below
        fun other member => above other (by simp [member])
      · show (region.base - size).toNat = _
        omega
      · show (region.base - size).toNat + (region.size + size).toNat = _
        omega
    exact joins.addEffect sound alive first

/-- A range that starts where the first region it touches ends. This is the only case in
which the range can overlap a region the first loop does not look at. -/
theorem Sound.add_below (meets : region.hi = base.toNat)
    (fits : ∀ next rest, after = next :: rest → next.lo < base.toNat + size.toNat →
      SeamPair region next base size flags) :
    AddEffect lst base size flags (lmbAddRegionFlags grows lst base size flags) := by
  have rangeNonempty := range.nonempty
  have proper := sound.proper region (by simp [split])
  have extent := sound.lo_lt_hi (show region ∈ _ by simp [split])
  have adjacent : lmbAddrsAdjacent base size region.base region.size = -1 := by
    rw [range.adjacent_eq proper, if_neg (by omega), if_pos meets]
  have first := lmbCoalesceFirst_here flags split index
  rw [adjacent, if_neg (by decide), if_pos (by decide)] at first
  have afterSound : Sound after := sound.sublist <| by
    rw [split]
    exact (sublist_cons_self _ _).trans (sublist_append_right _ _)
  by_cases differ : flags ≠ region.flags
  · rw [if_pos differ] at first
    refine sound.add_otherFlags alive split below differ (.inl meets) first fun apart => ?_
    refine sound.addToTable range flags grows
      (show lst.data = (before ++ [region]) ++ after by simp [split]) ?_
      (afterSound.le_lo_of_first ?_)
    · intro other member
      rcases mem_append.mp member with earlier | same
      · exact (below other earlier).le
      · rw [mem_singleton.mp same, meets]
    · rintro next rest rfl
      by_contra overlaps
      rcases fits next rest rfl (not_le.mp overlaps) with ⟨same, _⟩ | ⟨_, nextFlags, starts⟩
      · exact differ same.symm
      · exact apart next rest rfl ⟨nextFlags.symm, by omega⟩
  · rw [if_neg differ] at first
    rw [not_not] at differ
    by_cases bridge : ∃ next rest, after = next :: rest ∧ next.lo < base.toNat + size.toNat
    · obtain ⟨next, rest, rfl, overlaps⟩ := bridge
      rcases fits next rest rfl overlaps with ⟨_, nextFlags, reaches⟩ | ⟨other, _⟩
      · exact sound.add_bridge alive range split meets differ.symm nextFlags overlaps reaches
          first
      · exact absurd differ.symm other
    · have above := afterSound.le_lo_of_first fun next rest shape =>
        not_lt.mp fun overlaps => bridge ⟨next, rest, shape, overlaps⟩
      have grown := range.growUp meets
      have joins : Joins lst.data base size flags before [region] after
          { region with size := region.size + size } := by
        refine sound.joinsOne range split differ.symm differ.symm ⟨by omega, meets.ge⟩ ?_ ?_ below
          above
        · show region.lo = _
          omega
        · show region.base.toNat + (region.size + size).toNat = _
          omega
      exact joins.addEffect sound alive first

/-- A range that overlaps the first region it touches is refused when it or an overlapped
region has flags, and joined with all overlapped regions otherwise. -/
theorem Sound.add_overlap
    (overlaps : base.toNat < region.hi ∧ region.lo < base.toNat + size.toNat) :
    AddEffect lst base size flags (lmbAddRegionFlags grows lst base size flags) := by
  have first := lmbCoalesceFirst_here flags split index
  rw [range.adjacent_eq (sound.proper region (by simp [split])), if_neg overlaps.2.ne,
    if_neg overlaps.1.ne', if_neg (by decide), if_neg (by decide)] at first
  by_cases flagged : flags ≠ lmbNone
  · rw [if_pos flagged] at first
    exact addEffect_of_error alive first (by decide)
  rw [if_neg flagged] at first
  rw [not_not] at flagged
  rcases (split ▸ sound).resize range below overlaps with
    failed | ⟨block, rest, merged, joins, resized⟩
  · rw [split, failed] at first
    exact addEffect_of_error alive (split ▸ first) (by decide)
  · rw [← split] at joins resized
    rw [resized] at first
    subst flagged
    exact joins.addEffect sound alive first

end Touching

/-- An addition to a sound list, up to the one case the seam condition is about. -/
theorem Sound.add_or_seam (sound : Sound lst.data) (alive : lst.fail = false)
    (range : ProperRange base size) (flags : UInt32) (grows : Bool) :
    AddEffect lst base size flags (lmbAddRegionFlags grows lst base size flags) ∨
      ∃ before region next rest, lst.data = before ++ region :: next :: rest ∧
        lst.data.findIdx (lmbTouches base size) = before.length ∧
        region.hi = base.toNat ∧ next.lo < base.toNat + size.toNat ∧
        ¬SeamPair region next base size flags := by
  rcases sound.firstTouch range with
    ⟨apart, index⟩ | ⟨before, region, after, split, below, low, high, index⟩
  · exact .inl (sound.add_untouched alive range flags grows apart index)
  by_cases above : region.lo = base.toNat + size.toNat
  · exact .inl (sound.add_above flags grows alive range split below index above)
  by_cases meets : region.hi = base.toNat
  · by_cases seam : ∃ next rest, after = next :: rest ∧ next.lo < base.toNat + size.toNat ∧
        ¬SeamPair region next base size flags
    · obtain ⟨next, rest, rfl, overlaps, unfit⟩ := seam
      exact .inr ⟨before, region, next, rest, split, index, meets, overlaps, unfit⟩
    · refine .inl (sound.add_below flags grows alive range split below index meets ?_)
      intro next rest shape overlaps
      by_contra unfit
      exact seam ⟨next, rest, shape, overlaps, unfit⟩
  · exact .inl (sound.add_overlap flags grows alive range split below index (by omega))

/-- The effect of `lmb_add_region_flags()` on a sound list that meets the seam condition. -/
theorem Sound.add (sound : Sound lst.data) (range : ProperRange base size) (flags : UInt32)
    (grows : Bool) (fits : SeamFits lst.data base size flags) :
    AddEffect lst base size flags (lmbAddRegionFlags grows lst base size flags) := by
  by_cases dead : lst.fail = true
  · rw [lmbAddRegionFlags, if_pos dead]
    exact .inl ⟨by simp, rfl⟩
  rcases sound.add_or_seam (by simpa using dead) range flags grows with
    effect | ⟨before, region, next, rest, split, _, meets, overlaps, unfit⟩
  · exact effect
  · exact absurd (fits.pair split meets overlaps) unfit

theorem Sound.add_sound (sound : Sound lst.data) (range : ProperRange base size) (flags : UInt32)
    (grows : Bool) (fits : SeamFits lst.data base size flags) :
    Sound (lmbAddRegionFlags grows lst base size flags).2.data := by
  rcases sound.add range flags grows fits with ⟨_, same⟩ | ⟨_, rgn, outcome, initial, _⟩
  · rw [same]
    exact sound
  · exact (outcome.sound sound range).sublist initial.sublist

theorem Sound.seamFits_of_apart (sound : Sound rgn) (flags : UInt32)
    (apart : ∀ region ∈ rgn, region.hi ≤ base.toNat ∨ base.toNat + size.toNat ≤ region.lo) :
    SeamFits rgn base size flags := by
  refine List.Pairwise.isChain ?_
  have ordered : rgn.Pairwise fun first second => first.hi ≤ second.lo :=
    pairwise_map.mp sound.ascending
  refine ordered.imp_of_mem ?_
  intro region next _ nextMember order ends overlaps
  have extent := sound.lo_lt_hi nextMember
  have outside := apart next nextMember
  omega

/-! ### Freeing a range -/

/-- The part of a region above a freed range that starts with the region. -/
def LmbRegion.cutFront (region : LmbRegion) (base size : UInt64) : LmbRegion :=
  { region with base := base + size - 1 + 1, size := region.size - size }

/-- The part of a region below a freed range that ends with the region. -/
def LmbRegion.cutBack (region : LmbRegion) (size : UInt64) : LmbRegion :=
  { region with size := region.size - size }

/-- The part of a region below a freed range in its middle. -/
def LmbRegion.cutBelow (region : LmbRegion) (base : UInt64) : LmbRegion :=
  { region with size := base - region.base }

theorem LmbRegion.cutFront_bounds (range : ProperRange base size)
    (proper : ProperRange region.base region.size) (front : region.lo = base.toNat)
    (high : base.toNat + size.toNat ≤ region.hi) :
    (region.cutFront base size).lo = base.toNat + size.toNat ∧
      (region.cutFront base size).hi = region.hi := by
  have rangeNonempty := range.nonempty
  have rangeEnd := range.inside
  have inside := proper.inside
  simp only [LmbRegion.cutFront, LmbRegion.lo, LmbRegion.hi, UInt64.toNat_add, UInt64.toNat_sub,
    UInt64.toNat_ofNat] at *
  omega

theorem LmbRegion.cutBack_bounds (low : region.lo ≤ base.toNat)
    (back : region.hi = base.toNat + size.toNat) :
    (region.cutBack size).lo = region.lo ∧ (region.cutBack size).hi = base.toNat := by
  have small := region.size.toNat_lt
  refine ⟨rfl, ?_⟩
  simp only [LmbRegion.cutBack, LmbRegion.lo, LmbRegion.hi, UInt64.toNat_sub] at *
  omega

theorem LmbRegion.cutBelow_bounds (low : region.lo ≤ base.toNat) :
    (region.cutBelow base).lo = region.lo ∧ (region.cutBelow base).hi = base.toNat := by
  have small := base.toNat_lt
  refine ⟨rfl, ?_⟩
  simp only [LmbRegion.cutBelow, LmbRegion.lo, LmbRegion.hi, UInt64.toNat_sub] at *
  omega

/-- What `_lmb_free()` does: nothing when no region contains the range, and otherwise one of
four cuts. -/
theorem lmbFreeRegion_cases (sound : Sound lst.data) (range : ProperRange base size)
    (grows : Bool) :
    (lmbFreeRegion grows lst base size = (-1, lst) ∧ ∀ region ∈ lst.data,
        ¬ (region.lo ≤ base.toNat ∧ base.toNat + size.toNat ≤ region.hi)) ∨
      ∃ before region after, lst.data = before ++ region :: after ∧
        region.lo ≤ base.toNat ∧ base.toNat + size.toNat ≤ region.hi ∧
        ((region.lo = base.toNat ∧ region.hi = base.toNat + size.toNat ∧
            lmbFreeRegion grows lst base size = (0, { lst with data := before ++ after })) ∨
          (region.lo = base.toNat ∧ base.toNat + size.toNat < region.hi ∧
            lmbFreeRegion grows lst base size =
              (0, { lst with data := before ++ region.cutFront base size :: after })) ∨
          (region.lo < base.toNat ∧ region.hi = base.toNat + size.toNat ∧
            lmbFreeRegion grows lst base size =
              (0, { lst with data := before ++ region.cutBack size :: after })) ∨
          (region.lo < base.toNat ∧ base.toNat + size.toNat < region.hi ∧
            lmbFreeRegion grows lst base size =
              lmbAddRegionFlags grows
                { lst with data := before ++ region.cutBelow base :: after }
                (base + size - 1 + 1) (region.base + region.size - 1 - (base + size - 1))
                region.flags)) := by
  have rangeNonempty := range.nonempty
  have rangeEnd := range.inside
  have test : ∀ region ∈ lst.data,
      ((decide (region.base ≤ base) &&
        decide (base + size - 1 ≤ region.base + region.size - 1)) = true ↔
      region.lo ≤ base.toNat ∧ base.toNat + size.toNat ≤ region.hi) := by
    intro region member
    have proper := sound.proper region member
    have nonempty := proper.nonempty
    have inside := proper.inside
    simp only [Bool.and_eq_true, decide_eq_true_eq, UInt64.le_iff_toNat_le, UInt64.toNat_sub,
      UInt64.toNat_add, UInt64.toNat_ofNat, LmbRegion.lo, LmbRegion.hi]
    omega
  rcases findIdx_cases (fun region : LmbRegion => decide (region.base ≤ base) &&
      decide (base + size - 1 ≤ region.base + region.size - 1)) lst.data with
    ⟨outside, index⟩ | ⟨before, region, after, split, outside, hit, index⟩
  · refine .inl ⟨by simp [lmbFreeRegion, index], fun region member contained => ?_⟩
    rw [← test region member, outside region member] at contained
    cases contained
  · right
    have member : region ∈ lst.data := by simp [split]
    have contained := (test region member).mp hit
    have proper := sound.proper region member
    have nonempty := proper.nonempty
    have inside := proper.inside
    have front : region.base = base ↔ region.lo = base.toNat := UInt64.toNat_inj.symm
    have back : region.base + region.size - 1 = base + size - 1 ↔
        region.hi = base.toNat + size.toNat := by
      rw [← UInt64.toNat_inj]
      simp only [UInt64.toNat_sub, UInt64.toNat_add, UInt64.toNat_ofNat, LmbRegion.hi]
      omega
    have here : lst.data[before.length]? = some region := by simp [split]
    have removed : lmbRemoveRegion (before ++ region :: after) before.length =
        before ++ after := by
      simp [lmbRemoveRegion, eraseIdx_append_of_length_le]
    refine ⟨before, region, after, split, contained.1, contained.2, ?_⟩
    simp only [lmbFreeRegion, index, here, front, back]
    rw [split]
    simp only [set_here, removed]
    by_cases atFront : region.lo = base.toNat <;>
      by_cases atBack : region.hi = base.toNat + size.toNat
    · exact .inl ⟨atFront, atBack, by rw [if_pos ⟨atFront, atBack⟩]⟩
    · refine .inr (.inl ⟨atFront, by omega, ?_⟩)
      rw [if_neg (fun both => atBack both.2), if_pos atFront]
      rfl
    · refine .inr (.inr (.inl ⟨by omega, atBack, ?_⟩))
      rw [if_neg (fun both => atFront both.1), if_neg atFront, if_pos atBack]
      rfl
    · refine .inr (.inr (.inr ⟨by omega, by omega, ?_⟩))
      rw [if_neg (fun both => atFront both.1), if_neg atFront, if_neg atBack]
      rfl

/-- A range in the middle of a region with the tail of the region above it. The tail overlaps
nothing of what is left of the list, which is sound. -/
structure SplitTail (before after : List LmbRegion) (region : LmbRegion)
    (base size tailBase tailSize : UInt64) : Prop where
  sound : Sound (before ++ region :: after)
  range : ProperRange base size
  under : region.lo < base.toNat
  past : base.toNat + size.toNat < region.hi
  lo : tailBase.toNat = base.toNat + size.toNat
  hi : tailBase.toNat + tailSize.toNat = region.hi
  cutHi : (region.cutBelow base).hi = base.toNat
  cutSound : Sound (before ++ region.cutBelow base :: after)
  apart : ∀ other ∈ before ++ region.cutBelow base :: after,
    other.hi ≤ base.toNat ∨ region.hi ≤ other.lo

theorem SplitTail.properRange {tailBase tailSize : UInt64}
    (tail : SplitTail before after region base size tailBase tailSize) :
    ProperRange tailBase tailSize := by
  obtain ⟨sound, -, -, past, lo, hi, -⟩ := tail
  have inside := sound.hi_lt (show region ∈ before ++ region :: after by simp)
  exact ⟨by omega, by omega⟩

theorem Sound.splitTail (sound : Sound (before ++ region :: after))
    (range : ProperRange base size) (low : region.lo < base.toNat)
    (high : base.toNat + size.toNat < region.hi) :
    SplitTail before after region base size (base + size - 1 + 1)
      (region.base + region.size - 1 - (base + size - 1)) := by
  have rangeNonempty := range.nonempty
  have rangeEnd := range.inside
  have nonempty := (sound.proper region (by simp)).nonempty
  have inside := (sound.proper region (by simp)).inside
  have cutHi := (LmbRegion.cutBelow_bounds low.le).2
  have cutLo : (region.cutBelow base).lo = region.lo := rfl
  have bounds := sound.split
  refine ⟨sound, range, low, high, ?_, ?_, cutHi, ?_, ?_⟩
  · simp only [UInt64.toNat_add, UInt64.toNat_sub, UInt64.toNat_ofNat]
    omega
  · simp only [UInt64.toNat_add, UInt64.toNat_sub, UInt64.toNat_ofNat, LmbRegion.lo,
      LmbRegion.hi] at *
    omega
  · have apart : Sound (before ++ [region] ++ after) := by simpa using sound
    refine apart.replace ⟨?_, ?_⟩ bounds.1 fun other member => ?_
    · simp only [LmbRegion.lo, LmbRegion.hi] at *
      omega
    · rw [← LmbRegion.hi]
      omega
    · have bound := bounds.2 other member
      omega
  · intro other member
    rcases mem_append.mp member with earlier | later
    · have bound := bounds.1 other earlier
      omega
    · rcases mem_cons.mp later with rfl | after
      · exact .inl cutHi.le
      · exact .inr (bounds.2 other after)

theorem Sound.free_sound (sound : Sound lst.data) (range : ProperRange base size) (grows : Bool) :
    Sound (lmbFreeRegion grows lst base size).2.data := by
  have rangeNonempty := range.nonempty
  have rangeEnd := range.inside
  rcases lmbFreeRegion_cases sound range grows with ⟨same, _⟩ |
    ⟨before, region, after, split, low, high, (⟨_, _, result⟩ | ⟨front, _, result⟩ |
      ⟨_, back, result⟩ | ⟨under, past, result⟩)⟩
  · rw [same]
    exact sound
  all_goals
    have apart : Sound (before ++ [region] ++ after) := by simpa [split] using sound
    have bounds := (split ▸ sound).split
    have nonempty := (apart.proper region (by simp)).nonempty
    have inside := (apart.proper region (by simp)).inside
    rw [result]
  · refine sound.sublist ?_
    rw [split]
    exact List.Sublist.append_left (sublist_cons_self region after) before
  · obtain ⟨cutLo, cutHi⟩ := LmbRegion.cutFront_bounds range (apart.proper region (by simp)) front
      high
    refine apart.replace ⟨?_, ?_⟩ (fun other member => ?_) (fun other member => ?_)
    · simp only [LmbRegion.lo, LmbRegion.hi] at *
      omega
    · rw [← LmbRegion.hi, cutHi]
      exact inside
    · have bound := bounds.1 other member
      omega
    · rw [cutHi]
      exact bounds.2 other member
  · obtain ⟨cutLo, cutHi⟩ := LmbRegion.cutBack_bounds low back
    refine apart.replace ⟨?_, ?_⟩ bounds.1 (fun other member => ?_)
    · simp only [LmbRegion.lo, LmbRegion.hi] at *
      omega
    · rw [← LmbRegion.hi]
      omega
    · have bound := bounds.2 other member
      omega
  · have tail := (split ▸ sound).splitTail range under past
    refine Sound.add_sound ?_ tail.properRange _ _ ?_
    · exact tail.cutSound
    refine tail.cutSound.seamFits_of_apart _ fun other member => ?_
    obtain ⟨tailLo, tailHi⟩ := And.intro tail.lo tail.hi
    have outside := tail.apart other member
    omega

end TachyonBoot.Lmb
