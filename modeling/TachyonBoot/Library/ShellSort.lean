/-
This file defines a Shell sort over any items and any comparison, in the way it is done in
an array, and collects what can be said about its result.

The items are only exchanged, so the result is a permutation for every comparison. The last
pass has the gap one and is an insertion sort, so the result is in order for every relation
that follows from the comparison, whatever the passes before have done.
-/

import Mathlib.Data.List.Perm.Basic
import Mathlib.Tactic.Common

namespace TachyonBoot.Library

open List

variable {Item : Type} (compare : Item → Item → Int)

/-! ### The sort -/

/-- The loop that exchanges an item with those before it, a gap apart, until one is in order. -/
def sift (gap : Nat) : Nat → Nat → List Item → List Item
  | 0, _, items => items
  | fuel + 1, index, items =>
    if index < gap then items
    else
      match items[index - gap]?, items[index]? with
      | some first, some second =>
        if compare first second ≤ 0 then items
        else sift gap fuel (index - gap) ((items.set (index - gap) second).set index first)
      | _, _ => items

/-- A pass with one gap. -/
def siftPass (items : List Item) (gap : Nat) : List Item :=
  (List.range' gap (items.length - gap)).foldl
    (fun items index => sift compare gap index index items)
    items

/-- The greatest gap for a number of items, from a smaller one on. -/
def greatestGap (count : Nat) : Nat → Nat → Nat
  | 0, gap => gap
  | fuel + 1, gap =>
    if gap < (count - 1) / 3 then greatestGap count fuel (3 * gap + 1) else gap

/-- The gaps from a greatest one down. -/
def gapsFrom : Nat → Nat → List Nat
  | 0, _ => []
  | fuel + 1, gap => if gap = 0 then [] else gap :: gapsFrom fuel ((gap - 1) / 3)

def shellSort (items : List Item) : List Item :=
  if items.length > 1 then
    (gapsFrom items.length (greatestGap items.length items.length 1)).foldl (siftPass compare) items
  else items

variable {compare}

/-! ### The result is a permutation -/

theorem sift_perm (gap fuel index : Nat) (items : List Item) :
    (sift compare gap fuel index items).Perm items := by
  induction fuel generalizing index items with
  | zero => exact .refl _
  | succ fuel ih =>
    rw [sift]
    split_ifs
    · exact .refl _
    · split
      · next first second isFirst isSecond =>
        split_ifs
        · exact .refl _
        · obtain ⟨before, rfl⟩ := List.getElem?_eq_some_iff.mp isFirst
          obtain ⟨inside, rfl⟩ := List.getElem?_eq_some_iff.mp isSecond
          exact (ih _ _).trans (set_set_perm before inside)
      · exact .refl _

theorem foldl_perm {Index : Type} {step : List Item → Index → List Item}
    (each : ∀ items index, (step items index).Perm items) (indices : List Index)
    (items : List Item) : (indices.foldl step items).Perm items := by
  induction indices generalizing items with
  | nil => exact .refl _
  | cons index rest ih => exact (ih _).trans (each items index)

theorem siftPass_perm (items : List Item) (gap : Nat) : (siftPass compare items gap).Perm items :=
  foldl_perm (fun items index => sift_perm gap index index items) _ _

theorem shellSort_perm (items : List Item) : (shellSort compare items).Perm items := by
  unfold shellSort
  split_ifs
  · exact foldl_perm siftPass_perm _ _
  · exact .refl _

/-! ### The last pass -/

/-- The gaps that the first loop passes through. -/
def nthGap : Nat → Nat
  | 0 => 1
  | level + 1 => 3 * nthGap level + 1

theorem exists_greatestGap {count level : Nat} (fuel : Nat) (smaller : nthGap level < count) :
    ∃ last, greatestGap count fuel (nthGap level) = nthGap last ∧ nthGap last < count := by
  induction fuel generalizing level with
  | zero => exact ⟨level, rfl, smaller⟩
  | succ fuel ih =>
    rw [greatestGap]
    split_ifs with more
    · refine @ih (level + 1) ?_
      rw [nthGap]
      omega
    · exact ⟨level, rfl, smaller⟩

theorem lt_nthGap (level : Nat) : level < nthGap level := by
  induction level with
  | zero => exact Nat.zero_lt_one
  | succ level ih =>
    rw [nthGap]
    omega

theorem exists_gapsFrom {fuel level : Nat} (enough : level < fuel) :
    ∃ front, gapsFrom fuel (nthGap level) = front ++ [1] := by
  induction fuel generalizing level with
  | zero => omega
  | succ fuel ih =>
    have positive := lt_nthGap level
    rw [gapsFrom, if_neg (by omega)]
    cases level with
    | zero => exact ⟨[], by cases fuel <;> rfl⟩
    | succ level =>
      obtain ⟨front, isFront⟩ := @ih level (by omega)
      have next : (nthGap (level + 1) - 1) / 3 = nthGap level := by
        rw [nthGap]
        omega
      exact ⟨nthGap (level + 1) :: front, by rw [next, isFront]; rfl⟩

/-- Insertion into a reversed list from its front. -/
def sink (compare : Item → Item → Int) (item : Item) : List Item → List Item
  | [] => [item]
  | last :: rest =>
    if compare last item ≤ 0 then item :: last :: rest else last :: sink compare item rest

theorem mem_sink {item other : Item} {reversed : List Item} :
    other ∈ sink compare item reversed ↔ other = item ∨ other ∈ reversed := by
  induction reversed with
  | nil => simp [sink]
  | cons last rest ih =>
    rw [sink]
    split_ifs
    · exact mem_cons
    · rw [mem_cons, ih, mem_cons]
      exact or_left_comm

theorem length_sink (item : Item) (reversed : List Item) :
    (sink compare item reversed).length = reversed.length + 1 := by
  induction reversed with
  | nil => rfl
  | cons last rest ih =>
    rw [sink]
    split_ifs
    · rfl
    · rw [length_cons, ih, length_cons]

/-- With the gap one, an item is inserted into those before it. -/
theorem sift_one (reversed : List Item) (item : Item) (rest : List Item) :
    sift compare 1 reversed.length reversed.length (reversed.reverse ++ item :: rest) =
      (sink compare item reversed).reverse ++ rest := by
  induction reversed generalizing rest with
  | nil => rfl
  | cons last reversed ih =>
    have split : (last :: reversed).reverse ++ item :: rest =
        reversed.reverse ++ last :: item :: rest := by simp
    rw [split, length_cons, sift, if_neg (by omega), Nat.add_sub_cancel]
    have isFirst : (reversed.reverse ++ last :: item :: rest)[reversed.length]? = some last := by
      simp
    have isSecond : (reversed.reverse ++ last :: item :: rest)[reversed.length + 1]? =
        some item := by
      simp
    rw [isFirst, isSecond, sink]
    dsimp only
    split_ifs
    · simp
    · have exchanged : ((reversed.reverse ++ last :: item :: rest).set reversed.length item).set
          (reversed.length + 1) last = reversed.reverse ++ item :: last :: rest := by
        simp [set_append_right]
      rw [exchanged, ih]
      simp

/-! ### The result is in order -/

section Order

variable {Good : Item → Prop} {InOrder : Item → Item → Prop}
  (below : ∀ first second, Good first → Good second → compare first second ≤ 0 →
    InOrder first second)
  (above : ∀ first second, Good first → Good second → 0 < compare first second →
    InOrder second first)
  (trans : ∀ first second third, Good first → Good second → Good third →
    InOrder first second → InOrder second third → InOrder first third)

include below above trans in
theorem sink_pairwise {item : Item} {reversed : List Item} (isGood : Good item)
    (allGood : ∀ other ∈ reversed, Good other)
    (ordered : reversed.Pairwise fun later earlier => InOrder earlier later) :
    (sink compare item reversed).Pairwise fun later earlier => InOrder earlier later := by
  induction reversed with
  | nil => exact pairwise_singleton _ _
  | cons last rest ih =>
    obtain ⟨lastGood, restGood⟩ := forall_mem_cons.mp allGood
    obtain ⟨beforeLast, restOrdered⟩ := pairwise_cons.mp ordered
    rw [sink]
    split_ifs with here
    · refine pairwise_cons.mpr ⟨forall_mem_cons.mpr ⟨?_, fun other member => ?_⟩, ordered⟩
      · exact below last item lastGood isGood here
      · exact trans other last item (restGood other member) lastGood isGood
          (beforeLast other member) (below last item lastGood isGood here)
    · refine pairwise_cons.mpr
        ⟨fun other member => ?_, ih restGood restOrdered⟩
      rcases mem_sink.mp member with rfl | earlier
      · exact above last other lastGood isGood (by omega)
      · exact beforeLast other earlier

include below above trans in
/-- The pass with the gap one: what is inserted so far is in order. -/
theorem foldl_sift_pairwise (reversed rest : List Item)
    (allGood : ∀ other ∈ reversed ++ rest, Good other)
    (ordered : reversed.Pairwise fun later earlier => InOrder earlier later) :
    ((List.range' reversed.length rest.length).foldl
      (fun items index => sift compare 1 index index items) (reversed.reverse ++ rest)).Pairwise
        InOrder := by
  induction rest generalizing reversed with
  | nil => simpa [pairwise_reverse] using ordered
  | cons item rest ih =>
    rw [length_cons, List.range'_succ, foldl_cons, sift_one,
      ← length_sink item reversed]
    have good : ∀ other ∈ sink compare item reversed, Good other := fun other member =>
      allGood other (by rcases mem_sink.mp member with rfl | earlier <;> simp [*])
    refine ih _ (forall_mem_append.mpr ⟨good, fun other member => ?_⟩) ?_
    · exact allGood other (by simp [member])
    · exact sink_pairwise below above trans (allGood item (by simp))
        (fun other member => allGood other (by simp [member])) ordered

include below above trans in
/-- The result is in order, if the comparison decides the order of any two items. -/
theorem shellSort_pairwise {items : List Item} (allGood : ∀ item ∈ items, Good item) :
    (shellSort compare items).Pairwise InOrder := by
  unfold shellSort
  split_ifs with several
  · obtain ⟨last, isLast, smaller⟩ : ∃ last, greatestGap items.length items.length 1 = nthGap last ∧
        nthGap last < items.length :=
      @exists_greatestGap items.length 0 items.length several
    obtain ⟨front, isFront⟩ := @exists_gapsFrom items.length last (by
      have := lt_nthGap last
      omega)
    rw [isLast, isFront, foldl_append]
    generalize isBefore : front.foldl (siftPass compare) items = before
    have perm : before.Perm items := isBefore ▸ foldl_perm siftPass_perm _ _
    cases before with
    | nil => exact List.Pairwise.nil
    | cons first rest =>
      refine foldl_sift_pairwise below above trans [first] rest (fun item member => ?_)
        (pairwise_singleton _ _)
      exact allGood item (perm.mem_iff.mp member)
  · cases items with
    | nil => exact List.Pairwise.nil
    | cons first rest =>
      cases rest with
      | nil => exact pairwise_singleton _ _
      | cons second rest => exact absurd (by simp : (first :: second :: rest).length > 1) several

end Order

end TachyonBoot.Library
