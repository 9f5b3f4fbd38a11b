/-
This file follows the carving loop of `efi_add_memory_map_pg()`.

A descriptor denotes a span of addresses with its type and attribute as the tag.
Carving a range out of a descriptor gives way to at most two smaller descriptors
inside it with the same tag, so the order of the list is kept and no address
gets another tag. Every walk that changes the list lowers a weight: two for a
descriptor that still has to be split, one for an overlapping one that starts
inside the range, nothing for the others. For page-aligned ranges nothing
outside the range is lost.
-/

import TachyonBoot.Efi.MemoryMap
import TachyonBoot.Library.Spans

namespace TachyonBoot.Efi

open Library List

/-! ### What a list of descriptors denotes -/

/-- The first address of a descriptor. -/
def EfiMemDesc.lo (desc : EfiMemDesc) : Nat := desc.physicalStart.toNat

/-- The address behind a descriptor. -/
def EfiMemDesc.hi (desc : EfiMemDesc) : Nat := desc.lo + desc.numPages.toNat * 4096

/-- The addresses of a descriptor, with its type and attribute. -/
def EfiMemDesc.span (desc : EfiMemDesc) : Span (UInt32 × UInt64) :=
  ⟨desc.lo, desc.hi, (desc.type, desc.attr)⟩

def spans (mem : List EfiMemDesc) : List (Span (UInt32 × UInt64)) := mem.map EfiMemDesc.span

/-- The descriptors are in descending order, without shared addresses, and none of them reaches
the end of the address space. -/
structure Ordered (mem : List EfiMemDesc) : Prop where
  inside : ∀ desc ∈ mem, desc.hi < 2 ^ 64
  descending : Descending (spans mem)

/-- A range of whole pages that is not empty and whose end does not wrap around. -/
structure PageRange (start pages : UInt64) : Prop where
  aligned : start.toNat % 4096 = 0
  nonempty : 0 < pages.toNat
  inside : start.toNat + pages.toNat * 4096 < 2 ^ 64

/-- The descriptors are page ranges in descending order, without shared pages. -/
structure WellFormed (mem : List EfiMemDesc) : Prop where
  pages : ∀ desc ∈ mem, PageRange desc.physicalStart desc.numPages
  descending : Descending (spans mem)

variable {mem : List EfiMemDesc} {map : EfiMemDesc}

theorem WellFormed.ordered (wellFormed : WellFormed mem) : Ordered mem :=
  ⟨fun desc member => (wellFormed.pages desc member).inside, wellFormed.descending⟩

@[simp] theorem spans_append (first second : List EfiMemDesc) :
    spans (first ++ second) = spans first ++ spans second := map_append

@[simp] theorem spans_cons (desc : EfiMemDesc) (mem : List EfiMemDesc) :
    spans (desc :: mem) = desc.span :: spans mem := rfl

@[simp] theorem spans_nil : spans [] = [] := rfl

/-! ### Page arithmetic -/

theorem toNat_shiftLeft_pages (pages : UInt64) :
    (pages <<< efiPageShift).toNat = pages.toNat * 4096 % 2 ^ 64 := by
  rw [UInt64.toNat_shiftLeft, efiPageShift]
  simp [Nat.shiftLeft_eq]

theorem toNat_shiftRight_pages (size : UInt64) :
    (size >>> efiPageShift).toNat = size.toNat / 4096 := by
  rw [UInt64.toNat_shiftRight, efiPageShift]
  simp [Nat.shiftRight_eq_div_pow]

variable {desc : EfiMemDesc}

theorem toNat_descGetEnd (inside : desc.hi < 2 ^ 64) :
    (descGetEnd desc).toNat = desc.hi := by
  unfold EfiMemDesc.hi EfiMemDesc.lo at *
  rw [descGetEnd, UInt64.toNat_add, toNat_shiftLeft_pages]
  omega

/-! ### Carving one descriptor -/

/-- The descriptor overlaps the range, the way `efi_mem_carve_out()` tests it. -/
def Overlaps (start stop : Nat) (map : EfiMemDesc) : Prop := map.lo < stop ∧ start < map.hi

instance (start stop : Nat) (map : EfiMemDesc) : Decidable (Overlaps start stop map) :=
  inferInstanceAs (Decidable (_ ∧ _))

/-- What is left of a descriptor after a change of it. -/
inductive CarvedInto (start stop : Nat) (map : EfiMemDesc) : List EfiMemDesc → Prop where
  | removed (startsIn : start ≤ map.lo) (endsIn : map.hi ≤ stop) : CarvedInto start stop map []
  | moved (left : EfiMemDesc) (startsIn : start ≤ map.lo) (endsOut : stop < map.hi)
      (lo : left.lo = stop) (hi : left.hi = stop + (map.hi - stop) / 4096 * 4096)
      (tag : left.span.tag = map.span.tag) : CarvedInto start stop map [left]
  | split (newmap low : EfiMemDesc) (startsOut : map.lo < start) (newLo : newmap.lo = start)
      (newHi : newmap.hi = start + (map.hi - start) / 4096 * 4096)
      (newTag : newmap.span.tag = map.span.tag) (lowLo : low.lo = map.lo)
      (lowHi : low.hi = map.lo + (start - map.lo) / 4096 * 4096)
      (lowTag : low.span.tag = map.span.tag) : CarvedInto start stop map [newmap, low]

theorem hi_part {start stop : UInt64} (inOrder : start ≤ stop) (lo : desc.physicalStart = start)
    (pages : desc.numPages = (stop - start) >>> efiPageShift) :
    desc.hi = start.toNat + (stop.toNat - start.toNat) / 4096 * 4096 := by
  rw [EfiMemDesc.hi, EfiMemDesc.lo, lo, pages, toNat_shiftRight_pages,
    UInt64.toNat_sub_of_le _ _ inOrder]

theorem efiMemCarveOut_cases (calloc overlapConventional : Bool) (carveDesc : EfiMemDesc)
    (inside : map.hi < 2 ^ 64) :
    let start := carveDesc.lo
    let stop := (descGetEnd carveDesc).toNat
    let result := efiMemCarveOut calloc map carveDesc overlapConventional
    (result = .noOverlap ∧ ¬ Overlaps start stop map) ∨
      (Overlaps start stop map ∧
        ((result = .overlapsNonram ∧ overlapConventional = true ∧
            map.type ≠ efiConventionalMemory.toUInt32) ∨
          ((overlapConventional = true → map.type = efiConventionalMemory.toUInt32) ∧
            ((result = .outOfResources ∧ calloc = false) ∨
              (∃ pages left, result = .carved pages left ∧
                CarvedInto start stop map left.toList) ∨
              ∃ newmap low, result = .loopAgain newmap low ∧
                CarvedInto start stop map [newmap, low])))) := by
  intro start stop result
  have mapEnd : (descGetEnd map).toNat = map.hi := toNat_descGetEnd inside
  have overlaps : Overlaps start stop map ↔
      ¬ (descGetEnd carveDesc ≤ map.physicalStart ∨ descGetEnd map ≤ carveDesc.physicalStart) := by
    rw [not_or, UInt64.not_le, UInt64.not_le, UInt64.lt_iff_toNat_lt,
      UInt64.lt_iff_toNat_lt, mapEnd]
    rfl
  have fold : ∀ desc : EfiMemDesc, desc.physicalStart + desc.numPages <<< efiPageShift =
      descGetEnd desc := fun _ => rfl
  simp only [result, efiMemCarveOut, fold]
  by_cases apart : descGetEnd carveDesc ≤ map.physicalStart ∨
      descGetEnd map ≤ carveDesc.physicalStart
  · rw [if_pos apart]
    exact .inl ⟨rfl, fun overlap => overlaps.mp overlap apart⟩
  rw [if_neg apart]
  refine .inr ⟨overlaps.mpr apart, ?_⟩
  by_cases nonram : overlapConventional = true ∧ map.type ≠ efiConventionalMemory.toUInt32
  · rw [if_pos nonram]
    exact .inl ⟨rfl, nonram⟩
  rw [if_neg nonram]
  refine .inr ⟨fun only => not_not.mp fun other => nonram ⟨only, other⟩, ?_⟩
  rw [not_or, UInt64.not_le, UInt64.not_le] at apart
  by_cases startsOut : map.physicalStart < carveDesc.physicalStart
  · -- the descriptor starts below the range
    have notLess : ¬ carveDesc.physicalStart < map.physicalStart :=
      UInt64.not_lt.mpr (UInt64.le_of_lt startsOut)
    simp only [if_neg notLess, if_neg (UInt64.ne_of_lt startsOut).symm]
    cases calloc with
    | false => exact .inl ⟨rfl, rfl⟩
    | true =>
      refine .inr (.inr ⟨_, _, rfl, .split _ _ startsOut rfl ?_ rfl rfl ?_ rfl⟩)
      · rw [← mapEnd]
        exact hi_part (UInt64.le_of_lt apart.2) rfl rfl
      · exact hi_part (UInt64.le_of_lt startsOut) rfl rfl
  · have startsIn : start ≤ map.lo := UInt64.not_lt.mp startsOut
    have clamped : (if carveDesc.physicalStart < map.physicalStart then map.physicalStart
        else carveDesc.physicalStart) = map.physicalStart := by
      split_ifs with less
      · rfl
      · exact UInt64.le_antisymm (UInt64.not_lt.mp startsOut) (UInt64.not_lt.mp less)
    simp only [clamped, if_true]
    by_cases endsOut : descGetEnd carveDesc < descGetEnd map
    · have endsOut' : stop < map.hi := mapEnd ▸ endsOut
      simp only [if_pos endsOut, if_neg (UInt64.ne_of_lt endsOut).symm]
      refine .inr (.inl ⟨_, _, rfl, .moved _ startsIn endsOut' rfl ?_ rfl⟩)
      rw [← mapEnd]
      exact hi_part (UInt64.le_of_lt endsOut) rfl rfl
    · have endsIn : map.hi ≤ stop := mapEnd ▸ UInt64.not_lt.mp endsOut
      simp only [if_neg endsOut, if_true]
      exact .inr (.inl ⟨_, _, rfl, .removed startsIn endsIn⟩)

/-! ### One walk over the list -/

section Walks

variable (carveDesc : EfiMemDesc) (overlapConventional : Bool)

/-- The descriptor overlaps the range of another one. -/
abbrev OverlapsDesc (map : EfiMemDesc) : Prop :=
  Overlaps carveDesc.lo (descGetEnd carveDesc).toNat map

/-- How a walk that finds an overlapping descriptor ends. -/
inductive WalkEnd (calloc : Bool) (before : List EfiMemDesc) (map : EfiMemDesc)
    (after : List EfiMemDesc) : CarveRound → Prop where
  | nonram (only : overlapConventional = true)
      (other : map.type ≠ efiConventionalMemory.toUInt32) :
      WalkEnd calloc before map after (.failed .noMapping)
  | noMemory (failed : calloc = false)
      (ram : overlapConventional = true → map.type = efiConventionalMemory.toUInt32) :
      WalkEnd calloc before map after (.failed .outOfResources)
  | changed (pages : UInt64) (pieces : List EfiMemDesc)
      (carved : CarvedInto carveDesc.lo (descGetEnd carveDesc).toNat map pieces)
      (ram : overlapConventional = true → map.type = efiConventionalMemory.toUInt32) :
      WalkEnd calloc before map after (.again pages (before ++ pieces ++ after))

theorem carveRound_behind (calloc : Bool) {lmem : EfiMemDesc} (rest : List EfiMemDesc)
    (inside : lmem.hi < 2 ^ 64) (apart : ¬ OverlapsDesc carveDesc lmem) :
    carveRound calloc carveDesc overlapConventional (lmem :: rest) =
      (carveRound calloc carveDesc overlapConventional rest).behind lmem := by
  rcases efiMemCarveOut_cases calloc overlapConventional carveDesc inside with
    ⟨result, _⟩ | ⟨overlap, _⟩
  · rw [carveRound, result]
  · exact absurd overlap apart

theorem carveRound_finished (calloc : Bool) (inside : ∀ desc ∈ mem, desc.hi < 2 ^ 64)
    (apart : ∀ map ∈ mem, ¬ OverlapsDesc carveDesc map) :
    carveRound calloc carveDesc overlapConventional mem = .finished := by
  induction mem with
  | nil => rfl
  | cons lmem rest ih =>
    rw [carveRound_behind _ _ _ _ (inside lmem (by simp)) (apart lmem (by simp)),
      ih (fun desc member => inside desc (by simp [member]))
        fun map member => apart map (by simp [member])]
    rfl

variable {before after pieces : List EfiMemDesc} {start stop fuel : Nat}

theorem carveRound_first (calloc : Bool)
    (inside : ∀ desc ∈ before ++ map :: after, desc.hi < 2 ^ 64)
    (apart : ∀ other ∈ before, ¬ OverlapsDesc carveDesc other)
    (overlap : OverlapsDesc carveDesc map) :
    WalkEnd carveDesc overlapConventional calloc before map after
      (carveRound calloc carveDesc overlapConventional (before ++ map :: after)) := by
  induction before with
  | nil =>
    rw [nil_append, carveRound]
    rcases efiMemCarveOut_cases calloc overlapConventional carveDesc (inside map (by simp)) with
      ⟨_, apart⟩ | ⟨_, ⟨result, only, other⟩ | ⟨ram, ⟨result, failed⟩ |
        ⟨pages, left, result, carved⟩ | ⟨newmap, low, result, carved⟩⟩⟩
    · exact absurd overlap apart
    · rw [result]
      exact .nonram only other
    · rw [result]
      exact .noMemory failed ram
    · rw [result]
      exact .changed pages left.toList carved ram
    · rw [result]
      exact .changed 0 [newmap, low] carved ram
  | cons lmem before ih =>
    have ends := ih (fun desc member => inside desc (by simp_all))
      fun other member => apart other (by simp [member])
    rw [cons_append, carveRound_behind _ _ _ _ (inside lmem (by simp)) (apart lmem (by simp))]
    generalize carveRound calloc carveDesc overlapConventional (before ++ map :: after) = round
      at ends ⊢
    cases ends with
    | nonram only other => exact .nonram only other
    | noMemory failed ram => exact .noMemory failed ram
    | changed pages pieces carved ram => exact .changed pages pieces carved ram

/-- The overlapping descriptor that a walk meets first. -/
def firstOverlap (mem : List EfiMemDesc) : Option EfiMemDesc :=
  mem.find? fun map => decide (OverlapsDesc carveDesc map)

theorem firstOverlap_eq_none_iff :
    firstOverlap carveDesc mem = none ↔ ∀ map ∈ mem, ¬ OverlapsDesc carveDesc map := by
  simp [firstOverlap]

theorem firstOverlap_eq_some (first : firstOverlap carveDesc mem = some map) :
    OverlapsDesc carveDesc map ∧ ∃ before after, mem = before ++ map :: after ∧
      ∀ other ∈ before, ¬ OverlapsDesc carveDesc other := by
  obtain ⟨overlap, before, after, split, apart⟩ := find?_eq_some_iff_append.mp first
  exact ⟨of_decide_eq_true overlap, before, after, split, fun other member => by
    simpa using apart other member⟩

theorem carveRound_cases (calloc : Bool) (inside : ∀ desc ∈ mem, desc.hi < 2 ^ 64) :
    (carveRound calloc carveDesc overlapConventional mem = .finished ∧
        ∀ map ∈ mem, ¬ OverlapsDesc carveDesc map) ∨
      ∃ before map after, mem = before ++ map :: after ∧ OverlapsDesc carveDesc map ∧
        WalkEnd carveDesc overlapConventional calloc before map after
          (carveRound calloc carveDesc overlapConventional mem) := by
  cases found : firstOverlap carveDesc mem with
  | none =>
    have apart := (firstOverlap_eq_none_iff carveDesc).mp found
    exact .inl ⟨carveRound_finished carveDesc overlapConventional calloc inside apart, apart⟩
  | some map =>
    obtain ⟨overlap, before, after, rfl, apart⟩ := firstOverlap_eq_some carveDesc found
    exact .inr ⟨before, map, after, rfl, overlap,
      carveRound_first carveDesc overlapConventional calloc inside apart overlap⟩

/-! ### What a change keeps -/

variable {carveDesc overlapConventional}

theorem CarvedInto.inside (carved : CarvedInto start stop map pieces)
    (overlap : Overlaps start stop map) :
    ∀ piece ∈ pieces, map.lo ≤ piece.lo ∧ piece.hi ≤ map.hi ∧
      piece.span.tag = map.span.tag := by
  unfold Overlaps at overlap
  cases carved with
  | removed => simp
  | moved left startsIn endsOut lo hi tag =>
    simp only [mem_singleton, forall_eq]
    exact ⟨by omega, by omega, tag⟩
  | split newmap low startsOut newLo newHi newTag lowLo lowHi lowTag =>
    simp only [mem_cons, not_mem_nil, or_false, forall_eq_or_imp, forall_eq]
    exact ⟨⟨by omega, by omega, newTag⟩, by omega, by omega, lowTag⟩

theorem CarvedInto.descending (carved : CarvedInto start stop map pieces) :
    Descending (spans pieces) := by
  cases carved with
  | removed => exact List.Pairwise.nil
  | moved left => exact pairwise_singleton _ _
  | split newmap low startsOut newLo newHi newTag lowLo lowHi lowTag =>
    refine pairwise_pair.mpr ?_
    show low.hi ≤ newmap.lo
    omega

theorem Ordered.carve (ordered : Ordered (before ++ map :: after))
    (carved : CarvedInto start stop map pieces) (overlap : Overlaps start stop map) :
    Ordered (before ++ pieces ++ after) := by
  refine ⟨?_, ?_⟩
  · intro desc member
    simp only [mem_append] at member
    rcases member with (beforeMember | pieceMember) | afterMember
    · exact ordered.inside desc (by simp [beforeMember])
    · exact lt_of_le_of_lt (carved.inside overlap desc pieceMember).2.1
        (ordered.inside map (by simp))
    · exact ordered.inside desc (by simp [afterMember])
  · have descending := ordered.descending
    rw [spans_append, spans_cons] at descending
    rw [spans_append, spans_append]
    refine descending.refine carved.descending ?_
    intro piece member
    obtain ⟨desc, descMember, rfl⟩ := mem_map.mp member
    have inside := carved.inside overlap desc descMember
    exact ⟨inside.1, inside.2.1⟩

variable {address : Nat} {calloc : Nat → Bool} {carvedPages : UInt64} {final : List EfiMemDesc}
  {outcome : Except EfiStatus UInt64}

theorem CarvedInto.taggedAt (carved : CarvedInto start stop map pieces)
    (overlap : Overlaps start stop map) {tag : UInt32 × UInt64}
    (tagged : TaggedAt (spans (before ++ pieces ++ after)) address tag) :
    TaggedAt (spans (before ++ map :: after)) address tag := by
  simp only [spans_append, spans_cons, taggedAt_append, taggedAt_cons] at tagged ⊢
  rcases tagged with (inBefore | ⟨span, member, contains, rfl⟩) | inAfter
  · exact .inl inBefore
  · obtain ⟨piece, pieceMember, rfl⟩ := mem_map.mp member
    obtain ⟨low, high, tag⟩ := carved.inside overlap piece pieceMember
    exact .inr (.inl ⟨⟨low.trans contains.1, contains.2.trans_le high⟩, tag.symm⟩)
  · exact .inr (.inr inAfter)

/-! ### The loop -/

/-- The changes a descriptor still takes. -/
def carveWeight (start stop : Nat) (map : EfiMemDesc) : Nat :=
  if Overlaps start stop map then if map.lo < start then 2 else 1 else 0

/-- The changes a list still takes. -/
def carveMeasure (start stop : Nat) (mem : List EfiMemDesc) : Nat :=
  (mem.map (carveWeight start stop)).sum

theorem carveMeasure_cons (start stop : Nat) (map : EfiMemDesc) (mem : List EfiMemDesc) :
    carveMeasure start stop (map :: mem) =
      carveWeight start stop map + carveMeasure start stop mem := sum_cons

theorem carveMeasure_le (start stop : Nat) (mem : List EfiMemDesc) :
    carveMeasure start stop mem ≤ 2 * mem.length := by
  induction mem with
  | nil => exact le_rfl
  | cons map mem ih =>
    have weight : carveWeight start stop map ≤ 2 := by
      unfold carveWeight
      split_ifs <;> omega
    rw [carveMeasure_cons, length_cons]
    omega

theorem carveMeasure_append (start stop : Nat) (first second : List EfiMemDesc) :
    carveMeasure start stop (first ++ second) =
      carveMeasure start stop first + carveMeasure start stop second := by
  rw [carveMeasure, map_append, sum_append]
  rfl

theorem carveWeight_apart (apart : ¬ Overlaps start stop map) :
    carveWeight start stop map = 0 := if_neg apart

theorem CarvedInto.measure_lt (carved : CarvedInto start stop map pieces)
    (overlap : Overlaps start stop map) :
    carveMeasure start stop pieces < carveWeight start stop map := by
  have weight : carveWeight start stop map = if map.lo < start then 2 else 1 := if_pos overlap
  rw [weight]
  cases carved with
  | removed startsIn endsIn =>
    rw [if_neg startsIn.not_gt]
    exact Nat.one_pos
  | moved left startsIn endsOut lo hi tag =>
    have apart : ¬ Overlaps start stop left := fun again => by
      unfold Overlaps at again
      omega
    rw [if_neg startsIn.not_gt, carveMeasure_cons, carveWeight_apart apart]
    exact Nat.one_pos
  | split newmap low startsOut newLo newHi newTag lowLo lowHi lowTag =>
    have apart : ¬ Overlaps start stop low := fun again => by
      unfold Overlaps at again
      omega
    have once : carveWeight start stop newmap ≤ 1 := by
      unfold carveWeight
      split_ifs <;> omega
    rw [if_pos startsOut]
    rw [carveMeasure_cons, carveMeasure_cons, carveWeight_apart apart]
    exact Nat.lt_succ_of_le once

inductive LoopEnd (carveDesc : EfiMemDesc) (overlapConventional : Bool) (calloc : Nat → Bool)
    (mem : List EfiMemDesc) : Except EfiStatus UInt64 → Prop where
  | finished (carvedPages : UInt64) (apart : ∀ map ∈ mem, ¬ OverlapsDesc carveDesc map) :
      LoopEnd carveDesc overlapConventional calloc mem (.ok carvedPages)
  | nonram (only : overlapConventional = true) :
      LoopEnd carveDesc overlapConventional calloc mem (.error .noMapping)
  | noMemory (round : Nat) (failed : calloc round = false) :
      LoopEnd carveDesc overlapConventional calloc mem (.error .outOfResources)

theorem carveLoop_returns (calloc : Nat → Bool) (carvedPages : UInt64) (ordered : Ordered mem)
    (enough : carveMeasure carveDesc.lo (descGetEnd carveDesc).toNat mem < fuel) :
    ∃ outcome after, carveLoop calloc carveDesc overlapConventional fuel carvedPages mem =
      some (outcome, after) := by
  induction fuel generalizing carvedPages mem with
  | zero => omega
  | succ fuel ih =>
    rw [carveLoop]
    rcases carveRound_cases carveDesc overlapConventional (calloc fuel) ordered.inside with
      ⟨finished, _⟩ | ⟨before, map, after, rfl, overlap, ends⟩
    · rw [finished]
      exact ⟨_, _, rfl⟩
    · generalize carveRound (calloc fuel) carveDesc overlapConventional (before ++ map :: after) =
        round at ends
      cases ends with
      | nonram => exact ⟨_, _, rfl⟩
      | noMemory => exact ⟨_, _, rfl⟩
      | changed pages pieces carved ram =>
        refine ih (carvedPages + pages) (ordered.carve carved overlap) ?_
        have less := carved.measure_lt overlap
        rw [carveMeasure_append, carveMeasure_cons] at enough
        rw [carveMeasure_append, carveMeasure_append]
        omega

/-- The rule for the loop: what every change keeps holds when it ends. -/
theorem carveLoop_invariant (Invariant : List EfiMemDesc → Prop)
    (preserved : ∀ before map after pieces, Ordered (before ++ map :: after) →
      Invariant (before ++ map :: after) → OverlapsDesc carveDesc map →
      CarvedInto carveDesc.lo (descGetEnd carveDesc).toNat map pieces →
      Invariant (before ++ pieces ++ after)) (ordered : Ordered mem) (initial : Invariant mem)
    (result : carveLoop calloc carveDesc overlapConventional fuel carvedPages mem =
      some (outcome, final)) :
    Invariant final ∧ LoopEnd carveDesc overlapConventional calloc final outcome := by
  induction fuel generalizing carvedPages mem with
  | zero => cases result
  | succ fuel ih =>
    rw [carveLoop] at result
    rcases carveRound_cases carveDesc overlapConventional (calloc fuel) ordered.inside with
      ⟨finished, apart⟩ | ⟨before, map, after, rfl, overlap, ends⟩
    · rw [finished] at result
      cases result
      exact ⟨initial, .finished _ apart⟩
    · generalize carveRound (calloc fuel) carveDesc overlapConventional (before ++ map :: after) =
        round at ends result
      cases ends with
      | nonram only other =>
        cases result
        exact ⟨initial, .nonram only⟩
      | noMemory failed ram =>
        cases result
        exact ⟨initial, .noMemory fuel failed⟩
      | changed pages pieces carved ram =>
        exact ih (ordered.carve carved overlap)
          (preserved before map after pieces ordered initial overlap carved) result

theorem carveLoop_taggedAt (ordered : Ordered mem)
    (result : carveLoop calloc carveDesc overlapConventional fuel carvedPages mem =
      some (outcome, final)) :
    Ordered final ∧ ∀ address tag, TaggedAt (spans final) address tag →
      TaggedAt (spans mem) address tag := by
  refine (carveLoop_invariant (fun after => Ordered after ∧ ∀ address tag,
    TaggedAt (spans after) address tag → TaggedAt (spans mem) address tag) ?_ ordered
    ⟨ordered, fun _ _ => id⟩ result).1
  rintro before map after pieces order ⟨_, subset⟩ overlap carved
  exact ⟨order.carve carved overlap, fun address tag tagged =>
    subset address tag (carved.taggedAt overlap tagged)⟩

/-! ### Page-aligned ranges -/

/-- For a page-aligned range a change loses nothing outside of it. -/
theorem CarvedInto.taggedAt_iff (carved : CarvedInto start stop map pieces)
    (range : PageRange map.physicalStart map.numPages) (startAligned : start % 4096 = 0)
    (stopAligned : stop % 4096 = 0) (overlap : Overlaps start stop map)
    (outside : ¬ (start ≤ address ∧ address < stop)) (tag : UInt32 × UInt64) :
    TaggedAt (spans pieces) address tag ↔
      map.span.Contains address ∧ map.span.tag = tag := by
  have aligned : map.lo % 4096 = 0 := range.aligned
  have hi : map.hi = map.lo + map.numPages.toNat * 4096 := rfl
  unfold Overlaps at overlap
  cases carved with
  | removed startsIn endsIn =>
    refine ⟨fun tagged => absurd tagged.covered (covered_nil address), ?_⟩
    rintro ⟨⟨low, high⟩, _⟩
    exact absurd ⟨startsIn.trans low, high.trans_le endsIn⟩ outside
  | moved left startsIn endsOut lo hi' tag' =>
    have contains : left.span.Contains address ↔ map.span.Contains address := by
      show left.lo ≤ address ∧ address < left.hi ↔ map.lo ≤ address ∧ address < map.hi
      omega
    rw [spans_cons, taggedAt_cons, contains, tag', spans_nil]
    exact or_iff_left fun tagged => covered_nil address tagged.covered
  | split newmap low startsOut newLo newHi newTag lowLo lowHi lowTag =>
    have contains : newmap.span.Contains address ∨ low.span.Contains address ↔
        map.span.Contains address := by
      show (newmap.lo ≤ address ∧ address < newmap.hi) ∨ (low.lo ≤ address ∧ address < low.hi) ↔
        map.lo ≤ address ∧ address < map.hi
      omega
    rw [spans_cons, spans_cons, taggedAt_cons, taggedAt_cons, newTag, lowTag, spans_nil, ← contains,
      or_and_right]
    exact or_congr_right (or_iff_left fun tagged => covered_nil address tagged.covered)

theorem WellFormed.carve (wellFormed : WellFormed (before ++ map :: after))
    (carved : CarvedInto start stop map pieces) (startAligned : start % 4096 = 0)
    (stopAligned : stop % 4096 = 0) (overlap : Overlaps start stop map) :
    WellFormed (before ++ pieces ++ after) := by
  refine ⟨?_, (wellFormed.ordered.carve carved overlap).descending⟩
  intro desc member
  simp only [mem_append] at member
  rcases member with (beforeMember | pieceMember) | afterMember
  · exact wellFormed.pages desc (by simp [beforeMember])
  · have range := wellFormed.pages map (by simp)
    have inside := carved.inside overlap desc pieceMember
    have facts : desc.lo % 4096 = 0 ∧ desc.lo < desc.hi := by
      have aligned : map.lo % 4096 = 0 := range.aligned
      have hi : map.hi = map.lo + map.numPages.toNat * 4096 := rfl
      unfold Overlaps at overlap
      cases carved with
      | removed => cases pieceMember
      | moved left startsIn endsOut lo hi' tag' =>
        rw [mem_singleton.mp pieceMember]
        omega
      | split newmap low startsOut newLo newHi newTag lowLo lowHi lowTag =>
        simp only [mem_cons, not_mem_nil, or_false] at pieceMember
        rcases pieceMember with rfl | rfl <;> omega
    have bound : map.hi < 2 ^ 64 := range.inside
    have hi : desc.hi = desc.lo + desc.numPages.toNat * 4096 := rfl
    refine ⟨facts.1, by omega, ?_⟩
    exact lt_of_le_of_lt inside.2.1 bound
  · exact wellFormed.pages desc (by simp [afterMember])

/-- Outside of the range the list is tagged as before. -/
def SameOutside (start stop : Nat) (mem after : List EfiMemDesc) : Prop :=
  ∀ address, ¬ (start ≤ address ∧ address < stop) → ∀ tag,
    TaggedAt (spans after) address tag ↔ TaggedAt (spans mem) address tag

theorem SameOutside.carve (same : SameOutside start stop mem (before ++ map :: after))
    (carved : CarvedInto start stop map pieces) (range : PageRange map.physicalStart map.numPages)
    (startAligned : start % 4096 = 0) (stopAligned : stop % 4096 = 0)
    (overlap : Overlaps start stop map) :
    SameOutside start stop mem (before ++ pieces ++ after) := by
  intro address outside tag
  rw [← same address outside tag]
  simp only [spans_append, spans_cons, taggedAt_append, taggedAt_cons,
    carved.taggedAt_iff range startAligned stopAligned overlap outside, or_assoc]

end Walks

end TachyonBoot.Efi
