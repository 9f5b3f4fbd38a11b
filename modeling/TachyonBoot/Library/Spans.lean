/-
This file develops lists of tagged half-open spans of the natural numbers.

A memory map is such a list: the reservations of the memory-block lists and the
descriptors of the EFI memory map both denote a partial function from addresses
to tags, and both are kept ordered and disjoint. The one structural operation is
replacement: a consecutive block of spans, possibly empty, gives way to a single
span that lies between its neighbours. Insertion, growth, coalescing and
trimming are all instances of it, so order and denotation are settled here once.
-/

import Mathlib.Data.List.Basic
import Mathlib.Data.List.Pairwise

namespace TachyonBoot.Library

open List

variable {Tag : Type}

/-- A half-open span of addresses with a tag. -/
structure Span (Tag : Type) where
  lo : Nat
  hi : Nat
  tag : Tag
deriving DecidableEq, Repr

/-- The address lies in the span. -/
def Span.Contains (span : Span Tag) (address : Nat) : Prop :=
  span.lo ≤ address ∧ address < span.hi

instance (span : Span Tag) (address : Nat) : Decidable (span.Contains address) :=
  inferInstanceAs (Decidable (_ ∧ _))

/-- The spans are listed in ascending order and no two of them share an address. -/
def Ascending (spans : List (Span Tag)) : Prop :=
  spans.Pairwise fun first second => first.hi ≤ second.lo

instance (spans : List (Span Tag)) : Decidable (Ascending spans) :=
  inferInstanceAs (Decidable (spans.Pairwise _))

/-- Some span of the list contains the address. -/
def Covered (spans : List (Span Tag)) (address : Nat) : Prop :=
  ∃ span ∈ spans, span.Contains address

instance (spans : List (Span Tag)) (address : Nat) : Decidable (Covered spans address) :=
  inferInstanceAs (Decidable (∃ span ∈ spans, span.Contains address))

/-- Some span of the list contains the address and carries the tag. -/
def TaggedAt (spans : List (Span Tag)) (address : Nat) (tag : Tag) : Prop :=
  ∃ span ∈ spans, span.Contains address ∧ span.tag = tag

/-! ### Denotation of concatenations -/

@[simp] theorem covered_nil (address : Nat) : ¬ Covered ([] : List (Span Tag)) address := by
  simp [Covered]

@[simp] theorem covered_cons (span : Span Tag) (spans : List (Span Tag)) (address : Nat) :
    Covered (span :: spans) address ↔ span.Contains address ∨ Covered spans address := by
  simp [Covered]

@[simp] theorem covered_append (first second : List (Span Tag)) (address : Nat) :
    Covered (first ++ second) address ↔ Covered first address ∨ Covered second address := by
  simp [Covered, or_and_right, exists_or]

@[simp] theorem taggedAt_cons (span : Span Tag) (spans : List (Span Tag)) (address : Nat)
    (tag : Tag) :
    TaggedAt (span :: spans) address tag ↔
      (span.Contains address ∧ span.tag = tag) ∨ TaggedAt spans address tag := by
  simp [TaggedAt]

@[simp] theorem taggedAt_append (first second : List (Span Tag)) (address : Nat) (tag : Tag) :
    TaggedAt (first ++ second) address tag ↔
      TaggedAt first address tag ∨ TaggedAt second address tag := by
  simp [TaggedAt, or_and_right, exists_or]

variable {spans before after : List (Span Tag)} {address : Nat} {span : Span Tag}

theorem TaggedAt.covered {tag : Tag} (tagged : TaggedAt spans address tag) :
    Covered spans address := by
  obtain ⟨span, member, contains, _⟩ := tagged
  exact ⟨span, member, contains⟩

/-! ### Lookup -/

/-- No two spans of the list share an address. -/
def Apart (spans : List (Span Tag)) : Prop :=
  spans.Pairwise fun first second => first.hi ≤ second.lo ∨ second.hi ≤ first.lo

/-- The spans are listed in descending order and no two of them share an address. -/
def Descending (spans : List (Span Tag)) : Prop :=
  spans.Pairwise fun first second => second.hi ≤ first.lo

instance (spans : List (Span Tag)) : Decidable (Descending spans) :=
  inferInstanceAs (Decidable (spans.Pairwise _))

theorem Descending.apart (descending : Descending spans) :
    Apart spans :=
  List.Pairwise.imp Or.inr descending

/-- The tag of the first span that contains the address. -/
def tagAt (spans : List (Span Tag)) (address : Nat) : Option Tag :=
  (spans.find? fun span => decide (span.Contains address)).map Span.tag

/-- Without shared addresses the lookup finds every tag. -/
theorem Apart.tagAt_eq_some_iff (apart : Apart spans) {tag : Tag} :
    tagAt spans address = some tag ↔ TaggedAt spans address tag := by
  induction spans with
  | nil => simp [tagAt, TaggedAt]
  | cons span spans ih =>
    obtain ⟨headApart, tailApart⟩ := pairwise_cons.mp apart
    rw [taggedAt_cons, ← ih tailApart, tagAt, find?_cons]
    by_cases contains : span.Contains address
    · have alone : tagAt spans address ≠ some tag := by
        intro found
        obtain ⟨other, member, otherContains, _⟩ :=
          (ih tailApart).mp found
        have disjoint := headApart other member
        simp only [Span.Contains] at contains otherContains
        omega
      simp [contains, alone]
    · simp [contains, tagAt]

/-- Two lists that tag an address alike give the same lookup. -/
theorem Apart.tagAt_congr {first second : List (Span Tag)} (firstApart : Apart first)
    (secondApart : Apart second)
    (same : ∀ tag, TaggedAt first address tag ↔ TaggedAt second address tag) :
    tagAt first address = tagAt second address := by
  refine Option.ext fun tag => ?_
  rw [firstApart.tagAt_eq_some_iff, secondApart.tagAt_eq_some_iff, same]

/-- An address of one span is in no other one. -/
theorem Descending.alone (descending : Descending (before ++ span :: after))
    (contains : span.Contains address) : ¬ Covered before address ∧ ¬ Covered after address := by
  simp only [Descending, pairwise_append, pairwise_cons, mem_cons] at descending
  obtain ⟨_, ⟨below, _⟩, above⟩ := descending
  constructor
  · rintro ⟨other, member, otherContains⟩
    have apart := above other member span (.inl rfl)
    simp only [Span.Contains] at contains otherContains
    omega
  · rintro ⟨other, member, otherContains⟩
    have apart := below other member
    simp only [Span.Contains] at contains otherContains
    omega

/-- Replacing a span by smaller ones inside it keeps the descending order. -/
theorem Descending.refine {pieces : List (Span Tag)}
    (descending : Descending (before ++ span :: after)) (piecesDescending : Descending pieces)
    (inside : ∀ piece ∈ pieces, span.lo ≤ piece.lo ∧ piece.hi ≤ span.hi) :
    Descending (before ++ pieces ++ after) := by
  simp only [Descending, append_assoc, pairwise_append, pairwise_cons,
    mem_append, mem_cons] at descending piecesDescending ⊢
  obtain ⟨beforeDescending, ⟨spanAbove, afterDescending⟩, apart⟩ := descending
  refine ⟨beforeDescending, ⟨piecesDescending, afterDescending, ?_⟩, ?_⟩
  · intro piece member other otherMember
    exact Nat.le_trans (spanAbove other otherMember) (inside piece member).1
  · rintro first firstMember second (pieceMember | afterMember)
    · exact Nat.le_trans (inside second pieceMember).2 (apart first firstMember span (.inl rfl))
    · exact apart first firstMember second (.inr afterMember)

/-! ### Replacing a block by one span -/

/-- Replacing a consecutive block by a span between its neighbours keeps the order. -/
theorem Ascending.replace {block : List (Span Tag)}
    (ascending : Ascending (before ++ block ++ after))
    (below : ∀ other ∈ before, other.hi ≤ span.lo) (above : ∀ other ∈ after, span.hi ≤ other.lo) :
    Ascending (before ++ span :: after) := by
  simp only [Ascending, append_assoc, pairwise_append, pairwise_cons,
    mem_append, mem_cons] at ascending ⊢
  obtain ⟨beforeAscending, ⟨_, afterAscending, _⟩, apart⟩ := ascending
  refine ⟨beforeAscending, ⟨above, afterAscending⟩, ?_⟩
  rintro first firstMember second (rfl | secondMember)
  · exact below first firstMember
  · exact apart first firstMember second (.inr secondMember)

end TachyonBoot.Library
