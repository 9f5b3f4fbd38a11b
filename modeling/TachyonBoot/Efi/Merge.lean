/-
This file follows `efi_mem_sort()`.

Sorting puts descriptors that share no page into descending order. A pass then
merges the first pair of neighbours that touch and are of the same kind; the
pass after it starts with the position that `prevmem` was left at, which changes
nothing, since no descriptor ends where one below it or itself starts. Every
merge makes the list shorter and keeps what it denotes, and when a pass merges
nothing no two descriptors of the same kind touch.
-/

import Mathlib.Data.List.Chain
import Mathlib.Data.List.GetD
import TachyonBoot.Efi.Carve

namespace TachyonBoot.Efi

open Library List

/-! ### Merging two descriptors -/

variable {prev cur desc : EfiMemDesc} {mem after : List EfiMemDesc}

theorem mergeable_iff (inside : cur.hi < 2 ^ 64) :
    mergeable prev cur = true ↔ cur.hi = prev.lo ∧ prev.span.tag = cur.span.tag := by
  rw [mergeable, Bool.and_eq_true, Bool.and_eq_true, beq_iff_eq, beq_iff_eq, beq_iff_eq,
    ← UInt64.toNat_inj, toNat_descGetEnd inside, and_assoc]
  exact and_congr_right fun _ => Prod.mk_inj.symm

section

variable (prevRange : PageRange prev.physicalStart prev.numPages)
  (curRange : PageRange cur.physicalStart cur.numPages) (meets : cur.hi = prev.lo)

include prevRange curRange meets

theorem absorb_spec :
    (absorb prev cur).lo = cur.lo ∧ (absorb prev cur).hi = prev.hi := by
  have prevInside := prevRange.inside
  have curInside := curRange.inside
  simp only [EfiMemDesc.hi, EfiMemDesc.lo, absorb] at *
  have shift := toNat_shiftLeft_pages cur.numPages
  rw [UInt64.toNat_sub_of_le, shift, UInt64.toNat_add]
  · omega
  · rw [UInt64.le_iff_toNat_le, shift]
    omega

theorem absorb_pageRange :
    PageRange (absorb prev cur).physicalStart (absorb prev cur).numPages := by
  obtain ⟨lo, hi⟩ := absorb_spec prevRange curRange meets
  have aligned : cur.lo % 4096 = 0 := curRange.aligned
  have nonempty := curRange.nonempty
  have inside : prev.hi < 2 ^ 64 := prevRange.inside
  have hi' : (absorb prev cur).hi =
      (absorb prev cur).lo + (absorb prev cur).numPages.toNat * 4096 := rfl
  have curHi : cur.hi = cur.lo + cur.numPages.toNat * 4096 := rfl
  have prevHi : prev.hi = prev.lo + prev.numPages.toNat * 4096 := rfl
  refine ⟨?_, by omega, ?_⟩
  · show (absorb prev cur).lo % 4096 = 0
    omega
  · show (absorb prev cur).hi < 2 ^ 64
    omega

end

/-! ### Passes -/

/-- The two lists tag every address alike. -/
def SameTags (mem after : List EfiMemDesc) : Prop :=
  ∀ address tag, TaggedAt (spans after) address tag ↔ TaggedAt (spans mem) address tag

theorem WellFormed.tail (wellFormed : WellFormed (desc :: mem)) : WellFormed mem :=
  ⟨fun other member => wellFormed.pages other (by simp [member]),
    (pairwise_cons.mp wellFormed.descending).2⟩

theorem WellFormed.below {other : EfiMemDesc} (wellFormed : WellFormed (desc :: mem))
    (member : other ∈ mem) : other.hi ≤ desc.lo :=
  (pairwise_cons.mp wellFormed.descending).1 other.span (mem_map_of_mem member)

theorem PageRange.lo_lt_hi (range : PageRange desc.physicalStart desc.numPages) :
    desc.lo < desc.hi := by
  have nonempty := range.nonempty
  unfold EfiMemDesc.hi
  omega

/-- What is below a descriptor stays below it while the tags stay the same. -/
theorem WellFormed.cons_sameTags (wellFormed : WellFormed (desc :: mem))
    (afterWellFormed : WellFormed after) (same : SameTags mem after) :
    WellFormed (desc :: after) := by
  refine ⟨?_, pairwise_cons.mpr ⟨?_, afterWellFormed.descending⟩⟩
  · intro other member
    rcases mem_cons.mp member with rfl | later
    · exact wellFormed.pages other (by simp)
    · exact afterWellFormed.pages other later
  · intro span member
    obtain ⟨other, otherMember, rfl⟩ := mem_map.mp member
    have nonempty := (afterWellFormed.pages other otherMember).lo_lt_hi
    -- the last address of the descriptor was covered before
    have last : TaggedAt (spans after) (other.hi - 1) other.span.tag :=
      ⟨other.span, member, ⟨Nat.le_sub_one_of_lt nonempty, by show _ < other.hi; omega⟩, rfl⟩
    obtain ⟨_, oldMember, contains, _⟩ := (same _ _).mp last
    obtain ⟨old, oldMember', rfl⟩ := mem_map.mp oldMember
    have below := wellFormed.below oldMember'
    have high : other.hi - 1 < old.hi := contains.2
    show other.hi ≤ desc.lo
    omega

theorem SameTags.cons (same : SameTags mem after) (desc : EfiMemDesc) :
    SameTags (desc :: mem) (desc :: after) := by
  intro address tag
  rw [spans_cons, spans_cons, taggedAt_cons, taggedAt_cons, same]

theorem WellFormed.absorb {rest : List EfiMemDesc} (wellFormed : WellFormed (prev :: cur :: rest))
    (meets : cur.hi = prev.lo) (tags : prev.span.tag = cur.span.tag) :
    WellFormed (absorb prev cur :: rest) ∧
      SameTags (prev :: cur :: rest) (absorb prev cur :: rest) := by
  have prevRange := wellFormed.pages prev (by simp)
  have curRange := wellFormed.pages cur (by simp)
  obtain ⟨lo, hi⟩ := absorb_spec prevRange curRange meets
  have tag : (Efi.absorb prev cur).span.tag = prev.span.tag := rfl
  refine ⟨⟨?_, pairwise_cons.mpr ⟨?_, wellFormed.tail.tail.descending⟩⟩, ?_⟩
  · intro other member
    rcases mem_cons.mp member with rfl | later
    · exact absorb_pageRange prevRange curRange meets
    · exact wellFormed.pages other (by simp [later])
  · intro span member
    obtain ⟨other, otherMember, rfl⟩ := mem_map.mp member
    show other.hi ≤ (Efi.absorb prev cur).lo
    rw [lo]
    exact wellFormed.tail.below otherMember
  · intro address tag'
    have prevNonempty := prevRange.lo_lt_hi
    have curNonempty := curRange.lo_lt_hi
    have contains : (Efi.absorb prev cur).span.Contains address ↔
        prev.span.Contains address ∨ cur.span.Contains address := by
      show (Efi.absorb prev cur).lo ≤ address ∧ address < (Efi.absorb prev cur).hi ↔
        (prev.lo ≤ address ∧ address < prev.hi) ∨ (cur.lo ≤ address ∧ address < cur.hi)
      omega
    rw [spans_cons, spans_cons, spans_cons, taggedAt_cons, taggedAt_cons, taggedAt_cons, contains,
      tag, ← tags, or_and_right, or_assoc]

/-- What a pass does: it finds nothing to merge, or the list is one shorter. -/
inductive PassEnd (mem : List EfiMemDesc) : Option (List EfiMemDesc × Nat) → Prop where
  | nothing (apart : mem.IsChain fun prev cur => mergeable prev cur = false) : PassEnd mem none
  | merged (after : List EfiMemDesc) (position : Nat) (wellFormed : WellFormed after)
      (same : SameTags mem after) (shorter : after.length + 1 = mem.length)
      (valid : position < after.length) : PassEnd mem (some (after, position))

theorem mergeFrom_passEnd {rest : List EfiMemDesc} (wellFormed : WellFormed (prev :: rest)) :
    PassEnd (prev :: rest) (mergeFrom prev rest) := by
  induction rest generalizing prev with
  | nil => exact .nothing (isChain_singleton _)
  | cons cur rest ih =>
    rw [mergeFrom]
    by_cases merges : mergeable prev cur = true
    · rw [if_pos merges]
      obtain ⟨meets, tags⟩ :=
        (mergeable_iff (wellFormed.pages cur (by simp)).inside).mp merges
      obtain ⟨merged, same⟩ := wellFormed.absorb meets tags
      exact .merged _ 0 merged same rfl (Nat.succ_pos _)
    · rw [if_neg merges]
      have ends := ih wellFormed.tail
      generalize mergeFrom cur rest = result at ends
      cases ends with
      | nothing apart =>
        exact .nothing (isChain_cons_cons.mpr ⟨Bool.eq_false_of_not_eq_true merges, apart⟩)
      | merged after position afterWellFormed same shorter valid =>
        refine .merged _ _ (wellFormed.cons_sameTags afterWellFormed same) (same.cons prev) ?_ ?_
        · rw [length_cons, length_cons, shorter]
        · show position + 1 < after.length + 1
          omega

section

variable {prevmem : Option Nat} (wellFormed : WellFormed mem)
  (valid : ∀ position ∈ prevmem, position < mem.length)

include wellFormed valid

theorem mergePass_passEnd :
    PassEnd mem (mergePass prevmem mem) := by
  cases mem with
  | nil => exact .nothing isChain_nil
  | cons first rest =>
    cases prevmem with
    | none => exact mergeFrom_passEnd wellFormed
    | some position =>
      have bound := valid position rfl
      have member : (first :: rest).getD position first ∈ first :: rest := by
        rw [getD_eq_getElem _ _ bound]
        exact getElem_mem bound
      have firstRange := wellFormed.pages first (by simp)
      -- the first descriptor ends above the start of every descriptor
      have never : ¬ mergeable ((first :: rest).getD position first) first = true := by
        rw [mergeable_iff firstRange.inside]
        rintro ⟨meets, _⟩
        have nonempty := firstRange.lo_lt_hi
        rcases mem_cons.mp member with same | later
        · rw [same] at meets
          omega
        · have below := wellFormed.below later
          have otherNonempty :=
            (wellFormed.pages _ (mem_cons_of_mem _ later)).lo_lt_hi
          omega
      rw [mergePass]
      simp only [if_neg never]
      exact mergeFrom_passEnd wellFormed

theorem mergeLoop_spec {fuel : Nat} (enough : mem.length < fuel) :
    ∃ after, mergeLoop fuel prevmem mem = some after ∧ WellFormed after ∧ SameTags mem after ∧
      after.IsChain fun prev cur => mergeable prev cur = false := by
  induction fuel generalizing prevmem mem with
  | zero => omega
  | succ fuel ih =>
    rw [mergeLoop]
    have ends := mergePass_passEnd wellFormed valid
    generalize mergePass prevmem mem = result at ends
    cases ends with
    | nothing apart => exact ⟨mem, rfl, wellFormed, fun _ _ => Iff.rfl, apart⟩
    | merged shorterMem position shorterWellFormed same shorter validPosition =>
      obtain ⟨after, loop, afterWellFormed, afterSame, apart⟩ :=
        ih shorterWellFormed (show ∀ other ∈ some position, _ from
          fun other isPosition => Option.some.inj isPosition ▸ validPosition) (by omega)
      exact ⟨after, loop, afterWellFormed, fun address tag =>
        (afterSame address tag).trans (same address tag), apart⟩

end

/-! ### Sorting -/

/-- No two descriptors of the same kind touch. -/
def NoneTouch (mem : List EfiMemDesc) : Prop :=
  ∀ upper ∈ mem, ∀ lower ∈ mem, lower.hi = upper.lo → upper.span.tag ≠ lower.span.tag

/-- Touching descriptors are neighbours, so nothing to merge means that none touch. -/
theorem WellFormed.noneTouch (wellFormed : WellFormed mem)
    (apart : mem.IsChain fun prev cur => mergeable prev cur = false) : NoneTouch mem := by
  induction mem with
  | nil => exact fun upper member => absurd member not_mem_nil
  | cons first rest ih =>
    have firstRange := wellFormed.pages first (by simp)
    have firstNonempty := firstRange.lo_lt_hi
    have later := ih wellFormed.tail apart.tail
    intro upper upperMember lower lowerMember meets
    rcases mem_cons.mp lowerMember with rfl | lowerLater
    · -- nothing starts where the first descriptor ends
      rcases mem_cons.mp upperMember with rfl | upperLater
      · omega
      · have below := wellFormed.below upperLater
        have nonempty := (wellFormed.pages upper upperMember).lo_lt_hi
        omega
    · rcases mem_cons.mp upperMember with rfl | upperLater
      · cases rest with
        | nil => cases lowerLater
        | cons second rest =>
          have secondRange := wellFormed.pages second (by simp)
          have secondNonempty := secondRange.lo_lt_hi
          have secondBelow := wellFormed.below mem_cons_self
          rcases mem_cons.mp lowerLater with rfl | behind
          · intro tags
            have merges := (mergeable_iff secondRange.inside).mpr ⟨meets, tags⟩
            rw [(isChain_cons_cons.mp apart).1] at merges
            cases merges
          · have lowerBelow := wellFormed.tail.below behind
            omega
      · exact later upper upperLater lower lowerLater meets

theorem SameTags.perm (perm : after.Perm mem) :
    SameTags mem after := by
  intro address tag
  simp only [TaggedAt, spans, (perm.map EfiMemDesc.span).mem_iff]

theorem precedes_iff {mema memb : EfiMemDesc} : Precedes mema memb ↔ memb.lo ≤ mema.lo := by
  have same : mema.physicalStart = memb.physicalStart ↔ mema.lo = memb.lo := UInt64.toNat_inj.symm
  have less : mema.physicalStart < memb.physicalStart ↔ mema.lo < memb.lo :=
    UInt64.lt_iff_toNat_lt
  simp only [Precedes, efiMemCmp, same, less]
  split_ifs <;> omega

instance : Std.Total Precedes where
  total mema memb := by
    rw [precedes_iff, precedes_iff]
    exact Nat.le_total _ _

instance : IsTrans EfiMemDesc Precedes where
  trans mema memb memc := by
    rw [precedes_iff, precedes_iff, precedes_iff]
    exact fun first second => second.trans first

section

variable (pages : ∀ desc ∈ mem, PageRange desc.physicalStart desc.numPages)
  (apart : Apart (spans mem))

include pages apart

theorem wellFormed_insertionSort :
    WellFormed (mem.insertionSort Precedes) := by
  have perm := perm_insertionSort Precedes mem
  have sortedApart : Apart (spans (mem.insertionSort Precedes)) :=
    ((perm.map EfiMemDesc.span).pairwise_iff fun either => either.symm).mpr apart
  have sortedPages : ∀ desc ∈ mem.insertionSort Precedes,
      PageRange desc.physicalStart desc.numPages :=
    fun desc member => pages desc (perm.mem_iff.mp member)
  refine ⟨sortedPages, pairwise_map.mpr ?_⟩
  refine ((pairwise_insertionSort Precedes mem).and
    (pairwise_map.mp sortedApart)).imp_of_mem ?_
  intro first second firstMember secondMember both
  have firstNonempty := (sortedPages first firstMember).lo_lt_hi
  have order := precedes_iff.mp both.1
  have disjoint : first.hi ≤ second.lo ∨ second.hi ≤ first.lo := both.2
  show second.hi ≤ first.lo
  omega

theorem efiMemSort_spec :
    ∃ after, efiMemSort mem = some after ∧ WellFormed after ∧ SameTags mem after ∧
      NoneTouch after := by
  have perm := perm_insertionSort Precedes mem
  obtain ⟨after, loop, wellFormed, same, chain⟩ :=
    mergeLoop_spec (wellFormed_insertionSort pages apart)
      (show ∀ position ∈ none, _ from fun position member => nomatch member)
      (show _ < mem.length + 1 by rw [perm.length_eq]; exact Nat.lt_succ_self _)
  refine ⟨after, loop, wellFormed, ?_, wellFormed.noneTouch chain⟩
  intro address tag
  rw [same address tag, SameTags.perm perm address tag]

end

end TachyonBoot.Efi
