/-
This file is a small library of queues that are kept in the order of priorities, with the first
in the queue first out among equal priorities.

A new item goes before the first item with a lower priority, that is, behind all items with
its priority. The order of a queue compares priorities and then the times of arrival. It is
irreflexive, so that a queue in order holds no item twice.
-/

import Mathlib.Data.List.Basic

namespace TachyonBoot.Library

open List

variable {Item : Type}

/-- The queue with an item before the first one of a lower priority. -/
def insertByPriority (priority : Item → Nat) (item : Item) : List Item → List Item
  | [] => [item]
  | other :: rest =>
    if priority other < priority item then item :: other :: rest
    else other :: insertByPriority priority item rest

/-- The first item is to leave the queue before the second. -/
def Precedes (priority arrival : Item → Nat) (first second : Item) : Prop :=
  priority second < priority first ∨
    priority first = priority second ∧ arrival first < arrival second

/-- A queue in the order of priorities and arrivals. -/
def InOrder (priority arrival : Item → Nat) (queue : List Item) : Prop :=
  queue.Pairwise (Precedes priority arrival)

@[simp] theorem mem_insertByPriority {priority : Item → Nat} {item other : Item}
    {queue : List Item} :
    other ∈ insertByPriority priority item queue ↔ other = item ∨ other ∈ queue := by
  induction queue with
  | nil => exact mem_cons
  | cons first rest ih =>
    rw [insertByPriority]
    split_ifs
    · exact mem_cons
    · rw [mem_cons, ih, mem_cons]
      exact or_left_comm

namespace InOrder

variable {priority arrival : Item → Nat} {queue : List Item}

theorem nodup (inOrder : InOrder priority arrival queue) : queue.Nodup := by
  refine List.Pairwise.imp (fun precedes => ?_) inOrder
  rintro rfl
  rcases precedes with lower | ⟨-, earlier⟩
  · exact Nat.lt_irrefl _ lower
  · exact Nat.lt_irrefl _ earlier

/-- No item has a higher priority than the first. -/
theorem le_first {first : Item} (inOrder : InOrder priority arrival (first :: queue)) :
    ∀ item ∈ queue, priority item ≤ priority first := by
  intro item member
  rcases (pairwise_cons.mp inOrder).1 item member with lower | ⟨equal, -⟩
  · exact Nat.le_of_lt lower
  · exact Nat.le_of_eq equal.symm

/-- The item that has arrived last goes to its place. -/
theorem insert {item : Item} (inOrder : InOrder priority arrival queue)
    (last : ∀ other ∈ queue, arrival other < arrival item) :
    InOrder priority arrival (insertByPriority priority item queue) := by
  induction queue with
  | nil => exact pairwise_singleton _ _
  | cons first rest ih =>
    obtain ⟨before, restInOrder⟩ := pairwise_cons.mp inOrder
    rw [insertByPriority]
    split_ifs with lower
    · refine pairwise_cons.mpr ⟨fun other member => .inl ?_, inOrder⟩
      rcases mem_cons.mp member with rfl | later
      · exact lower
      · exact Nat.lt_of_le_of_lt (inOrder.le_first other later) lower
    · refine pairwise_cons.mpr ⟨fun other member => ?_, ?_⟩
      · rcases mem_insertByPriority.mp member with rfl | later
        · rcases Nat.lt_or_eq_of_le (Nat.le_of_not_lt lower) with above | equal
          · exact .inl above
          · exact .inr ⟨equal.symm, last first mem_cons_self⟩
        · exact before other later
      · exact ih restInOrder
          fun other member => last other (mem_cons_of_mem _ member)

/-- The order depends only on the arrivals of the items in the queue. -/
theorem congr {other : Item → Nat} (inOrder : InOrder priority arrival queue)
    (same : ∀ item ∈ queue, other item = arrival item) : InOrder priority other queue := by
  refine List.Pairwise.imp_of_mem (fun firstMember secondMember precedes => ?_) inOrder
  unfold Precedes
  rw [same _ firstMember, same _ secondMember]
  exact precedes

end InOrder

end TachyonBoot.Library
