/-
This file settles what `efi_add_memory_map_pg()` does to the memory map.

For a range of whole pages the call ends. When it succeeds the range has the new
type and attribute, every other page is as it was, and the list is merged. When
it does not, pages may have been lost but none is added or changed. A refused
mapping gives the map back as it was exactly when the refusal comes before the
first change of the list: the caller that is asked to add the carved pages again
does not do so. Over any run of such calls no page has another type than the one it
was given last.
-/

import TachyonBoot.Efi.Merge

namespace TachyonBoot.Efi

open Library List

/-- The type and attribute of a page. -/
def pageAt (mem : List EfiMemDesc) (page : Nat) : Option (UInt32 × UInt64) :=
  tagAt (spans mem) (page * 4096)

/-- The map after a successful addition: well-formed, with nothing left to merge, the new tag
in the range and the old ones outside of it. -/
structure Updated (mem : List EfiMemDesc) (start stop : Nat) (tag : UInt32 × UInt64)
    (after : List EfiMemDesc) : Prop where
  wellFormed : WellFormed after
  noneTouch : NoneTouch after
  tagged : ∀ address other, TaggedAt (spans after) address other ↔
    if start ≤ address ∧ address < stop then other = tag else TaggedAt (spans mem) address other

/-- How an addition of whole pages ends. -/
inductive AddEnd (mem : List EfiMemDesc) (newlist : EfiMemDesc) (overlapConventional : Bool)
    (calloc : Nat → Bool) (after : List EfiMemDesc) : EfiStatus → Prop where
  | added (updated : Updated mem newlist.lo newlist.hi newlist.span.tag after) :
      AddEnd mem newlist overlapConventional calloc after .success
  | refused (status : EfiStatus) (failed : status ≠ .success)
      (reason : overlapConventional = true ∨ ∃ round, calloc round = false)
      (wellFormed : WellFormed after)
      (subset : ∀ address tag, TaggedAt (spans after) address tag →
        TaggedAt (spans mem) address tag) :
      AddEnd mem newlist overlapConventional calloc after status

variable {mem after : List EfiMemDesc} {start stop : Nat} {calloc : Nat → Bool}
  {overlapConventional : Bool}

theorem not_taggedAt_of_apart {address : Nat} (apart : ∀ map ∈ mem, ¬ Overlaps start stop map)
    (low : start ≤ address) (high : address < stop) (tag : UInt32 × UInt64) :
    ¬ TaggedAt (spans mem) address tag := by
  rintro ⟨span, member, contains, _⟩
  obtain ⟨map, mapMember, rfl⟩ := mem_map.mp member
  exact apart map mapMember ⟨contains.1.trans_lt high, low.trans_lt contains.2⟩

theorem efiMemSort_updated {carved : List EfiMemDesc} {newlist : EfiMemDesc}
    (range : PageRange newlist.physicalStart newlist.numPages) (wellFormed : WellFormed carved)
    (same : SameOutside newlist.lo newlist.hi mem carved)
    (apart : ∀ map ∈ carved, ¬ Overlaps newlist.lo newlist.hi map) :
    ∃ after, efiMemSort (carved ++ [newlist]) = some after ∧
      Updated mem newlist.lo newlist.hi newlist.span.tag after := by
  have pages : ∀ desc ∈ carved ++ [newlist], PageRange desc.physicalStart desc.numPages := by
    intro desc member
    rcases mem_append.mp member with old | new
    · exact wellFormed.pages desc old
    · rwa [mem_singleton.mp new]
  have disjoint : Apart (spans (carved ++ [newlist])) := by
    rw [spans_append]
    refine pairwise_append.mpr ⟨wellFormed.descending.apart, pairwise_singleton _ _, ?_⟩
    intro span member new newMember
    obtain ⟨map, mapMember, rfl⟩ := mem_map.mp member
    obtain rfl : new = newlist.span := mem_singleton.mp newMember
    have mapApart := apart map mapMember
    unfold Overlaps at mapApart
    show map.hi ≤ newlist.lo ∨ newlist.hi ≤ map.lo
    omega
  obtain ⟨after, sorted, afterWellFormed, sameTags, noneTouch⟩ := efiMemSort_spec pages disjoint
  refine ⟨after, sorted, afterWellFormed, noneTouch, ?_⟩
  intro address other
  rw [sameTags, spans_append, taggedAt_append, spans_cons, taggedAt_cons, spans_nil]
  have inNew : newlist.span.Contains address ↔ newlist.lo ≤ address ∧ address < newlist.hi :=
    Iff.rfl
  have nothing : ¬ TaggedAt ([] : List (Span (UInt32 × UInt64))) address other :=
    fun tagged => covered_nil address tagged.covered
  split_ifs with inside
  · have old := not_taggedAt_of_apart apart inside.1 inside.2 other
    simp only [old, nothing, inNew, inside, false_or, or_false, true_and, and_self]
    exact eq_comm
  · rw [same address inside other]
    simp only [inNew, inside, false_and, nothing, or_false]

/-- An addition of whole pages of a valid type ends in one of the two ways. -/
theorem efiAddMemoryMapPg_addEnd (calloc : Nat → Bool) {map : EfiMap}
    (wellFormed : WellFormed map.mem) {start pages : UInt64} (range : PageRange start pages)
    {memoryType : Int32} (valid : memoryType < efiMaxMemoryType) (overlapConventional : Bool)
    (attr : UInt64) :
    ∃ status after, efiAddMemoryMapPg calloc map start pages memoryType overlapConventional attr =
        some (status, after) ∧
      AddEnd map.mem (newDesc start pages memoryType attr) overlapConventional calloc after.mem
        status := by
  have newRange : PageRange (newDesc start pages memoryType attr).physicalStart
      (newDesc start pages memoryType attr).numPages := range
  have nonzero : pages ≠ 0 := by
    rintro rfl
    exact absurd range.nonempty (by decide)
  have stop : (descGetEnd (newDesc start pages memoryType attr)).toNat =
      (newDesc start pages memoryType attr).hi := toNat_descGetEnd range.inside
  simp only [efiAddMemoryMapPg, if_neg (Int32.not_le.mpr valid), if_neg nonzero]
  generalize newDesc start pages memoryType attr = newlist at *
  have startAligned : newlist.lo % 4096 = 0 := newRange.aligned
  have stopAligned : newlist.hi % 4096 = 0 := by
    unfold EfiMemDesc.hi
    omega
  by_cases allocated : calloc 0 = true
  · simp only [allocated, Bool.not_true, Bool.false_eq_true, if_false]
    have bound := carveMeasure_le newlist.lo (descGetEnd newlist).toNat map.mem
    obtain ⟨outcome, carved, result⟩ : ∃ outcome carved, carveLoop
        (fun round => calloc (round + 1)) newlist overlapConventional (2 * map.mem.length + 1) 0
        map.mem = some (outcome, carved) :=
      carveLoop_returns _ 0 wellFormed.ordered (by omega)
    obtain ⟨⟨carvedWellFormed, same⟩, ends⟩ := carveLoop_invariant
      (fun after => WellFormed after ∧ SameOutside newlist.lo newlist.hi map.mem after)
      (fun before map after pieces _ kept overlap carved => by
        rw [OverlapsDesc, stop] at overlap
        rw [stop] at carved
        exact ⟨kept.1.carve carved startAligned stopAligned overlap,
          kept.2.carve carved (kept.1.pages map (by simp)) startAligned stopAligned overlap⟩)
      wellFormed.ordered ⟨wellFormed, fun _ _ _ => Iff.rfl⟩ result
    have subset := (carveLoop_taggedAt wellFormed.ordered result).2
    rw [result]
    cases ends with
    | finished carvedPages apart =>
      by_cases shortfall : overlapConventional = true ∧ carvedPages ≠ pages
      · simp only [if_pos shortfall]
        exact ⟨_, _, rfl, .refused _ (by decide) (.inl shortfall.1) carvedWellFormed subset⟩
      · simp only [if_neg shortfall]
        simp only [OverlapsDesc, stop] at apart
        obtain ⟨after, sorted, updated⟩ :=
          efiMemSort_updated newRange carvedWellFormed same apart
        rw [sorted]
        exact ⟨_, _, rfl, .added updated⟩
    | nonram only => exact ⟨_, _, rfl, .refused _ (by decide) (.inl only) carvedWellFormed subset⟩
    | noMemory round failed =>
      exact ⟨_, _, rfl, .refused _ (by decide) (.inr ⟨_, failed⟩) carvedWellFormed subset⟩
  · rw [Bool.not_eq_true] at allocated
    simp only [allocated, Bool.not_false, if_true]
    exact ⟨_, _, rfl, .refused _ (by decide) (.inr ⟨0, allocated⟩) wellFormed fun _ _ => id⟩

theorem Updated.pageAt {newlist : EfiMemDesc}
    (updated : Updated mem newlist.lo newlist.hi newlist.span.tag after)
    (wellFormed : WellFormed mem) (range : PageRange newlist.physicalStart newlist.numPages)
    (page : Nat) :
    pageAt after page =
      if newlist.lo / 4096 ≤ page ∧ page < newlist.lo / 4096 + newlist.numPages.toNat then
        some newlist.span.tag
      else pageAt mem page := by
  have aligned : newlist.lo % 4096 = 0 := range.aligned
  have hi : newlist.hi = newlist.lo + newlist.numPages.toNat * 4096 := rfl
  have inPages : newlist.lo ≤ page * 4096 ∧ page * 4096 < newlist.hi ↔
      newlist.lo / 4096 ≤ page ∧ page < newlist.lo / 4096 + newlist.numPages.toNat := by
    omega
  refine Option.ext fun other => ?_
  rw [Efi.pageAt, updated.wellFormed.descending.apart.tagAt_eq_some_iff, updated.tagged]
  simp only [inPages]
  split_ifs with inside
  · rw [Option.some.injEq, eq_comm]
  · rw [Efi.pageAt, wellFormed.descending.apart.tagAt_eq_some_iff]

/-- The update law: an addition of whole pages that may overlap anything succeeds when memory
for the descriptors can be allocated, the list stays well-formed and merged, and the range gets
the new type and attribute while every other page keeps its own. -/
theorem efiAddMemoryMapPg_updates {calloc : Nat → Bool} (allocates : ∀ round, calloc round = true)
    {map : EfiMap} (wellFormed : WellFormed map.mem) {start pages : UInt64}
    (range : PageRange start pages) {memoryType : Int32} (valid : memoryType < efiMaxMemoryType)
    (attr : UInt64) :
    ∃ after, efiAddMemoryMapPg calloc map start pages memoryType false attr =
        some (.success, after) ∧
      WellFormed after.mem ∧ NoneTouch after.mem ∧
      ∀ page, pageAt after.mem page =
        if start.toNat / 4096 ≤ page ∧ page < start.toNat / 4096 + pages.toNat then
          some (memoryType.toUInt32, newAttribute memoryType attr)
        else pageAt map.mem page := by
  obtain ⟨status, after, result, ends⟩ :=
    efiAddMemoryMapPg_addEnd calloc wellFormed range valid false attr
  cases ends with
  | added updated =>
    exact ⟨after, result, updated.wellFormed, updated.noneTouch,
      updated.pageAt wellFormed range⟩
  | refused status failed reason =>
    rcases reason with only | ⟨round, failure⟩
    · cases only
    · rw [allocates round] at failure
      cases failure

def ramDesc (start pages : UInt64) : EfiMemDesc := newDesc start pages efiConventionalMemory 0

def ramMap : EfiMap := ⟨[ramDesc 0x20000 16], 0⟩

theorem ramMap_wellFormed : WellFormed ramMap.mem := by
  refine ⟨?_, pairwise_singleton _ _⟩
  intro desc member
  rw [mem_singleton.mp member]
  exact ⟨by decide, by decide, by decide⟩

theorem efiAddMemoryMapPg_updates_ramMap :
    ∃ after, efiAddMemoryMapPg (fun _ => true) ramMap 0x24000 2 efiBootServicesData false 0 =
        some (.success, after) ∧
      WellFormed after.mem ∧ NoneTouch after.mem ∧
      ∀ page, pageAt after.mem page =
        if 0x24 ≤ page ∧ page < 0x26 then some (4, 8) else pageAt ramMap.mem page :=
  efiAddMemoryMapPg_updates (fun _ => rfl) ramMap_wellFormed
    ⟨by decide, by decide, by decide⟩ (by decide) 0

/-! ### Refused mappings -/

section Refused

variable {before pieces final : List EfiMemDesc} {carveDesc map : EfiMemDesc} {fuel : Nat}
  {carvedPages : UInt64} {outcome : Except EfiStatus UInt64}

theorem Ordered.not_covered (ordered : Ordered (before ++ map :: after)) {address : Nat}
    (contains : map.span.Contains address) (taken : ¬ Covered (spans pieces) address) :
    ¬ Covered (spans (before ++ pieces ++ after)) address := by
  have descending := ordered.descending
  rw [spans_append, spans_cons] at descending
  obtain ⟨notBefore, notAfter⟩ := descending.alone contains
  rw [spans_append, spans_append, covered_append, covered_append]
  rintro ((inBefore | inPieces) | inAfter)
  · exact notBefore inBefore
  · exact taken inPieces
  · exact notAfter inAfter

theorem CarvedInto.takes_lo (carved : CarvedInto start stop map pieces)
    (overlap : Overlaps start stop map) (startsIn : start ≤ map.lo) :
    ¬ Covered (spans pieces) map.lo := by
  cases carved with
  | removed => exact covered_nil map.lo
  | moved left _ endsOut lo hi tag =>
    rw [spans_cons, covered_cons]
    rintro (⟨low, _⟩ | none)
    · have below : left.lo ≤ map.lo := low
      exact absurd overlap.1 (by omega)
    · exact covered_nil map.lo none
  | split newmap low startsOut => omega

/-- A split inside a page loses the first address of that page. -/
theorem CarvedInto.takes_page (carved : CarvedInto start stop map pieces)
    (startsOut : map.lo < start) (aligned : map.lo % 4096 = 0) (unaligned : start % 4096 ≠ 0) :
    ¬ Covered (spans pieces) (start / 4096 * 4096) := by
  cases carved with
  | removed => exact covered_nil _
  | moved left startsIn => omega
  | split newmap low _ newLo newHi newTag lowLo lowHi lowTag =>
    rw [spans_cons, spans_cons, covered_cons, covered_cons]
    rintro (⟨inNew, _⟩ | ⟨_, inLow⟩ | none)
    · have below : newmap.lo ≤ start / 4096 * 4096 := inNew
      omega
    · have above : start / 4096 * 4096 < low.hi := inLow
      omega
    · exact covered_nil _ none

section

variable (apart : ∀ other ∈ before, ¬ OverlapsDesc carveDesc other)
  (overlap : OverlapsDesc carveDesc map) (ram : map.type = efiConventionalMemory.toUInt32)
  (result : carveLoop calloc carveDesc overlapConventional fuel carvedPages
    (before ++ map :: after) = some (outcome, final))
  (memory : outcome ≠ .error .outOfResources)

include apart overlap ram result memory

/-- The descriptor that the loop meets first is carved, when it is free memory, and the loop goes
on with what is left. -/
theorem carveLoop_first (ordered : Ordered (before ++ map :: after)) :
    ∃ rounds pages pieces, CarvedInto carveDesc.lo (descGetEnd carveDesc).toNat map pieces ∧
      carveLoop calloc carveDesc overlapConventional rounds (carvedPages + pages)
        (before ++ pieces ++ after) = some (outcome, final) := by
  cases fuel with
  | zero => cases result
  | succ fuel =>
    have ends := carveRound_first carveDesc overlapConventional (calloc fuel) ordered.inside apart
      overlap
    rw [carveLoop] at result
    generalize carveRound (calloc fuel) carveDesc overlapConventional (before ++ map :: after) =
      round at ends result
    cases ends with
    | nonram only other => exact absurd ram other
    | noMemory => cases result; exact absurd rfl memory
    | changed pages pieces carved _ => exact ⟨fuel, pages, pieces, carved, result⟩

/-- The loop takes the first address of the descriptor it meets first, when that is free memory
that starts in the range. -/
theorem carveLoop_takes_lo (ordered : Ordered (before ++ map :: after))
    (nonempty : map.lo < map.hi) (startsIn : carveDesc.lo ≤ map.lo) :
    ¬ Covered (spans final) map.lo := by
  obtain ⟨rounds, pages, pieces, carved, rest⟩ :=
    carveLoop_first apart overlap ram result memory ordered
  have taken : ¬ Covered (spans (before ++ pieces ++ after)) map.lo :=
    ordered.not_covered ⟨le_rfl, nonempty⟩ (carved.takes_lo overlap startsIn)
  rintro ⟨span, member, contains⟩
  exact taken ((carveLoop_taggedAt (ordered.carve carved overlap) rest).2 map.lo span.tag
    ⟨span, member, contains, rfl⟩).covered

/-- The loop takes the first address of some page, when the descriptor it meets first is free
memory and the range is not one that ends before it starts on a page boundary. -/
theorem carveLoop_takes_page (wellFormed : WellFormed (before ++ map :: after))
    (proper : carveDesc.lo < (descGetEnd carveDesc).toNat ∨ carveDesc.lo % 4096 ≠ 0) :
    ∃ page, map.span.Contains (page * 4096) ∧ ¬ Covered (spans final) (page * 4096) := by
  have range := wellFormed.pages map (by simp)
  have aligned : map.lo % 4096 = 0 := range.aligned
  have hi : map.hi = map.lo + map.numPages.toNat * 4096 := rfl
  have nonempty := range.lo_lt_hi
  have ordered := wellFormed.ordered
  rcases le_or_gt carveDesc.lo map.lo with startsIn | startsOut
  · have page : map.lo / 4096 * 4096 = map.lo := by omega
    refine ⟨map.lo / 4096, ?_, ?_⟩
    · rw [page]
      exact ⟨le_rfl, nonempty⟩
    · rw [page]
      exact carveLoop_takes_lo apart overlap ram result memory ordered nonempty startsIn
  · obtain ⟨rounds, pages, pieces, carved, rest⟩ :=
      carveLoop_first apart overlap ram result memory ordered
    have inMap : map.span.Contains (carveDesc.lo / 4096 * 4096) := by
      have upper := overlap.2
      exact ⟨by show map.lo ≤ _; omega, by show _ < map.hi; omega⟩
    refine ⟨carveDesc.lo / 4096, inMap, ?_⟩
    have restOrdered := ordered.carve carved overlap
    by_cases unaligned : carveDesc.lo % 4096 = 0
    · -- the new descriptor of the split starts in the range, so it is carved next
      have stop := proper.resolve_right fun other => other unaligned
      cases carved with
      | removed startsIn => omega
      | moved left startsIn => omega
      | split newmap low _ newLo newHi newTag lowLo lowHi lowTag =>
        have page : carveDesc.lo / 4096 * 4096 = newmap.lo := by omega
        have upper := overlap.2
        have newOverlap : OverlapsDesc carveDesc newmap := ⟨by omega, by omega⟩
        have newRam : newmap.type = efiConventionalMemory.toUInt32 :=
          (congrArg Prod.fst newTag).trans ram
        rw [page]
        rw [append_assoc] at restOrdered rest
        exact carveLoop_takes_lo apart newOverlap newRam rest memory restOrdered (by omega)
          (by omega)
    · have taken := ordered.not_covered inMap (carved.takes_page startsOut aligned unaligned)
      rintro ⟨span, member, contains⟩
      exact taken ((carveLoop_taggedAt restOrdered rest).2 _ span.tag
        ⟨span, member, contains, rfl⟩).covered

end

theorem carveLoop_takes_nothing (wellFormed : WellFormed mem)
    (backward : (descGetEnd carveDesc).toNat ≤ carveDesc.lo) (aligned : carveDesc.lo % 4096 = 0)
    (result : carveLoop calloc carveDesc overlapConventional fuel carvedPages mem =
      some (outcome, final)) : SameTags mem final := by
  have stopAligned : (descGetEnd carveDesc).toNat % 4096 = 0 := by
    unfold EfiMemDesc.lo at aligned
    rw [descGetEnd, UInt64.toNat_add, toNat_shiftLeft_pages]
    omega
  have kept := (carveLoop_invariant (fun after => WellFormed after ∧
    SameOutside carveDesc.lo (descGetEnd carveDesc).toNat mem after)
    (fun before map after pieces _ kept overlap carved =>
      ⟨kept.1.carve carved aligned stopAligned overlap,
        kept.2.carve carved (kept.1.pages map (by simp)) aligned stopAligned overlap⟩)
    wellFormed.ordered ⟨wellFormed, fun _ _ _ => Iff.rfl⟩ result).1
  exact fun address => kept.2 address (by omega)

end Refused

/-- A mapping is refused before the list is changed: nothing overlaps the range, or what
overlaps it first is not free memory. A range that wraps around on a page boundary only splits
a descriptor. -/
def RefusedEarly (mem : List EfiMemDesc) (newlist : EfiMemDesc) : Prop :=
  ∀ map, firstOverlap newlist mem = some map →
    map.type ≠ efiConventionalMemory.toUInt32 ∨
      ((descGetEnd newlist).toNat ≤ newlist.lo ∧ newlist.lo % 4096 = 0)

/-- A refused mapping has left the list as the carving loop did. -/
theorem efiAddMemoryMapPg_refused {map after : EfiMap} {start pages : UInt64} {memoryType : Int32}
    {attr : UInt64}
    (refused : efiAddMemoryMapPg calloc map start pages memoryType overlapConventional attr =
      some (.noMapping, after)) :
    ∃ outcome, outcome ≠ .error .outOfResources ∧
      carveLoop (fun round => calloc (round + 1)) (newDesc start pages memoryType attr)
        overlapConventional (2 * map.mem.length + 1) 0 map.mem = some (outcome, after.mem) := by
  simp only [efiAddMemoryMapPg] at refused
  split_ifs at refused
  · cases refused
  · cases refused
  · cases refused
  · generalize carveLoop (fun round => calloc (round + 1)) (newDesc start pages memoryType attr)
      overlapConventional (2 * map.mem.length + 1) 0 map.mem = result at refused ⊢
    match result with
    | none => cases refused
    | some (.error status, mem) =>
      cases refused
      exact ⟨_, by simp, rfl⟩
    | some (.ok carvedPages, mem) =>
      by_cases shortfall : overlapConventional = true ∧ carvedPages ≠ pages
      · simp only [if_pos shortfall] at refused
        cases refused
        exact ⟨_, by simp, rfl⟩
      · simp only [if_neg shortfall] at refused
        cases sorted : efiMemSort (mem ++ [newDesc start pages memoryType attr]) with
        | none => rw [sorted] at refused; cases refused
        | some list => rw [sorted] at refused; cases refused

/-- A refused mapping leaves every page as it was exactly when it was refused early. -/
theorem efiAddMemoryMapPg_refused_iff {calloc : Nat → Bool} {map after : EfiMap}
    (wellFormed : WellFormed map.mem) {start pages : UInt64} {memoryType : Int32} {attr : UInt64}
    (refused : efiAddMemoryMapPg calloc map start pages memoryType true attr =
      some (.noMapping, after)) :
    (∀ page, pageAt after.mem page = pageAt map.mem page) ↔
      RefusedEarly map.mem (newDesc start pages memoryType attr) := by
  obtain ⟨outcome, memory, result⟩ := efiAddMemoryMapPg_refused refused
  generalize newDesc start pages memoryType attr = newlist at result ⊢
  generalize after.mem = final at result ⊢
  have ordered := wellFormed.ordered
  have apart := wellFormed.descending.apart
  have finalApart := (carveLoop_taggedAt ordered result).1.descending.apart
  constructor
  · intro same found first
    obtain ⟨overlap, before, rest, split, apartBefore⟩ := firstOverlap_eq_some newlist first
    by_contra late
    rw [not_or, not_not, not_and_or, not_le] at late
    rw [split] at wellFormed result
    obtain ⟨page, contains, taken⟩ := carveLoop_takes_page apartBefore overlap late.1 result
      memory wellFormed late.2
    have old : pageAt map.mem page = some found.span.tag := by
      refine apart.tagAt_eq_some_iff.mpr ⟨found.span, ?_, contains, rfl⟩
      exact mem_map_of_mem (by simp [split])
    have new := finalApart.tagAt_eq_some_iff.mp ((same page).trans old)
    exact taken new.covered
  · intro early page
    have unchanged : SameTags map.mem final := by
      cases first : firstOverlap newlist map.mem with
      | none =>
        have finished := carveRound_finished newlist true (calloc (2 * map.mem.length + 1))
          ordered.inside ((firstOverlap_eq_none_iff newlist).mp first)
        rw [carveLoop, finished] at result
        cases result
        exact fun _ _ => Iff.rfl
      | some found =>
        rcases early found first with nonram | ⟨backward, aligned⟩
        · obtain ⟨overlap, before, rest, split, apartBefore⟩ := firstOverlap_eq_some newlist first
          rw [split] at ordered
          have ends := carveRound_first newlist true (calloc (2 * map.mem.length + 1))
            ordered.inside apartBefore overlap
          rw [← split] at ends
          rw [carveLoop] at result
          generalize carveRound _ newlist true map.mem = round at ends result
          cases ends with
          | nonram =>
            cases result
            exact fun _ _ => Iff.rfl
          | noMemory failed ram => exact absurd (ram rfl) nonram
          | changed pages pieces carved ram => exact absurd (ram rfl) nonram
        · exact carveLoop_takes_nothing wellFormed backward aligned result
    exact finalApart.tagAt_congr apart fun tag => unchanged _ tag

/-- A request for two pages of which only the upper one is mapped: it is refused for the lower
one, and the upper one is no longer mapped. -/
theorem ramMap_loses_page :
    ∃ after, efiAddMemoryMapPg (fun _ => true) ramMap 0x1f000 2 efiBootServicesData true 0 =
        some (.noMapping, after) ∧
      WellFormed ramMap.mem ∧ pageAt ramMap.mem 0x20 = some (7, 8) ∧
      pageAt after.mem 0x20 = none := by
  refine ⟨⟨[ramDesc 0x21000 15], 1⟩, ?_, ramMap_wellFormed, ?_, ?_⟩
  · decide
  · decide
  · decide

theorem efiAddMemoryMapPg_refused_iff_ramMap :
    ∃ after, efiAddMemoryMapPg (fun _ => true) ramMap 0x1f000 2 efiBootServicesData true 0 =
        some (.noMapping, after) ∧
      ((∀ page, pageAt after.mem page = pageAt ramMap.mem page) ↔
        RefusedEarly ramMap.mem (newDesc 0x1f000 2 efiBootServicesData 0)) := by
  have refused : efiAddMemoryMapPg (fun _ => true) ramMap 0x1f000 2 efiBootServicesData true 0 =
      some (.noMapping, ⟨[ramDesc 0x21000 15], 1⟩) := by decide
  exact ⟨_, refused, efiAddMemoryMapPg_refused_iff ramMap_wellFormed refused⟩

/-! ### Runs of additions -/

/-- A call of `efi_add_memory_map_pg()` for whole pages of a valid type, with the outcomes of the
allocations it may make. -/
structure MapRequest where
  calloc : Nat → Bool
  start : UInt64
  pages : UInt64
  memoryType : Int32
  overlapConventional : Bool
  attr : UInt64
  range : PageRange start pages
  valid : memoryType < efiMaxMemoryType

/-- The type and attribute of every page. -/
abbrev PageTable := Nat → Option (UInt32 × UInt64)

/-- The table with the pages of the request entered. -/
def MapRequest.paint (request : MapRequest) (table : PageTable) : PageTable := fun page =>
  if request.start.toNat / 4096 ≤ page ∧
      page < request.start.toNat / 4096 + request.pages.toNat then
    some (request.memoryType.toUInt32, newAttribute request.memoryType request.attr)
  else table page

/-- The map after a call, beside a table that only the additions that succeed are entered in. -/
def mapStep (state : EfiMap × PageTable) (request : MapRequest) : Option (EfiMap × PageTable) :=
  (efiAddMemoryMapPg request.calloc state.1 request.start request.pages request.memoryType
    request.overlapConventional request.attr).map fun (status, after) =>
      (after, if status = .success then request.paint state.2 else state.2)

/-- The map is well-formed, and its pages are as the table says. -/
structure Faithful (state : EfiMap × PageTable) : Prop where
  wellFormed : WellFormed state.1.mem
  current : ∀ page tag, pageAt state.1.mem page = some tag → state.2 page = some tag

theorem Faithful.mapStep {state : EfiMap × PageTable} (faithful : Faithful state)
    (request : MapRequest) : ∃ after, mapStep state request = some after ∧ Faithful after := by
  obtain ⟨status, after, result, ends⟩ := efiAddMemoryMapPg_addEnd request.calloc
    faithful.wellFormed request.range request.valid request.overlapConventional request.attr
  rw [Efi.mapStep, result]
  refine ⟨_, rfl, ?_⟩
  cases ends with
  | added updated =>
    refine ⟨updated.wellFormed, fun page tag found => ?_⟩
    have painted : pageAt after.mem page = request.paint (pageAt state.1.mem) page :=
      updated.pageAt faithful.wellFormed request.range page
    rw [painted] at found
    change request.paint state.2 page = some tag
    unfold MapRequest.paint at found ⊢
    split_ifs at found ⊢
    · exact found
    · exact faithful.current page tag found
  | refused status failed reason wellFormed subset =>
    -- what a refused addition has carved out is lost, but nothing else has changed
    refine ⟨wellFormed, fun page tag found => ?_⟩
    dsimp only
    rw [if_neg failed]
    refine faithful.current page tag ?_
    rw [pageAt, wellFormed.descending.apart.tagAt_eq_some_iff] at found
    rw [pageAt, faithful.wellFormed.descending.apart.tagAt_eq_some_iff]
    exact subset _ _ found

/-- Whatever is added, refused or out of memory, every call ends, the map stays well-formed, and a
page that is in it has the type and attribute of the last addition that succeeded for it. -/
theorem memoryMap_faithful (memoryMapKey : UInt64) (requests : List MapRequest) :
    ∃ state, requests.foldlM mapStep (⟨[], memoryMapKey⟩, fun _ => none) = some state ∧
      Faithful state := by
  suffices run : ∀ start, Faithful start →
      ∃ state, requests.foldlM mapStep start = some state ∧ Faithful state from
    run _ ⟨⟨forall_mem_nil _, .nil⟩, fun _ _ found => by cases found⟩
  induction requests with
  | nil => exact fun start faithful => ⟨start, rfl, faithful⟩
  | cons request rest ih =>
    intro start faithful
    obtain ⟨next, step, kept⟩ := faithful.mapStep request
    rw [foldlM_cons, step]
    exact ih next kept

/-- Sixteen pages of free memory, two of them for boot services, and a mapping that is refused
since its last page is not free. -/
def threeRequests : List MapRequest :=
  [⟨fun _ => true, 0x10000, 16, efiConventionalMemory, false, 0, ⟨by decide, by decide, by decide⟩,
      by decide⟩,
    ⟨fun _ => true, 0x12000, 2, efiBootServicesData, true, 0, ⟨by decide, by decide, by decide⟩,
      by decide⟩,
    ⟨fun _ => true, 0x1f000, 2, efiBootServicesData, true, 0, ⟨by decide, by decide, by decide⟩,
      by decide⟩]

theorem memoryMap_faithful_threeRequests :
    ∃ state, threeRequests.foldlM mapStep (⟨[], 0⟩, fun _ => none) = some state ∧ Faithful state ∧
      pageAt state.1.mem 0x11 = some (7, 8) ∧ pageAt state.1.mem 0x12 = some (4, 8) ∧
        pageAt state.1.mem 0x1f = none := by
  obtain ⟨state, run, faithful⟩ := memoryMap_faithful 0 threeRequests
  have pages : (threeRequests.foldlM mapStep (⟨[], 0⟩, fun _ => none)).map (fun state =>
      [0x11, 0x12, 0x1f].map (pageAt state.1.mem)) = some [some (7, 8), some (4, 8), none] := by
    decide
  rw [run, Option.map_some, Option.some.injEq] at pages
  simp only [map_cons, map_nil, List.cons.injEq] at pages
  exact ⟨state, run, faithful, pages.1, pages.2.1, pages.2.2.1⟩

end TachyonBoot.Efi
