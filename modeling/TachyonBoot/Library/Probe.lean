/-
This file develops probe sequences of open addressing with a fixed stride.

The slots are numbered from one to the size of the table. A probe sequence
starts in some slot and steps down by the stride, wrapping from the bottom to
the top. When the size is prime and the stride smaller than it, the first `size`
probes visit every slot exactly once and the next one is back at the start, so a
search that stops there has seen the whole table.
-/

import Mathlib.Algebra.Order.Ring.Nat
import Mathlib.Data.Finset.Card
import Mathlib.Data.Nat.ModEq
import Mathlib.Data.Nat.Prime.Basic
import Mathlib.Order.Interval.Finset.Nat

namespace TachyonBoot.Library

/-- One step down by the stride, wrapping from the bottom to the top. -/
def stepDown (size stride idx : Nat) : Nat :=
  if idx ≤ stride then size + idx - stride else idx - stride

/-- The slot a probe sequence visits after a number of steps. -/
def probe (size stride start : Nat) : Nat → Nat
  | 0 => start
  | steps + 1 => stepDown size stride (probe size stride start steps)

/-- What makes a probe sequence visit everything. -/
structure ProbePlan (size stride start : Nat) : Prop where
  prime : size.Prime
  stride_pos : 0 < stride
  stride_lt : stride < size
  start_pos : 0 < start
  start_le : start ≤ size

namespace ProbePlan

variable {size stride start : Nat} (plan : ProbePlan size stride start)

include plan

theorem probe_mem (steps : Nat) :
    0 < probe size stride start steps ∧ probe size stride start steps ≤ size := by
  obtain ⟨_, stride_pos, stride_lt, start_pos, start_le⟩ := plan
  induction steps with
  | zero => exact ⟨start_pos, start_le⟩
  | succ steps ih =>
    rw [probe, stepDown]
    split_ifs <;> omega

/-- Each step takes the stride away, up to the size. -/
theorem probe_modEq (steps : Nat) :
    probe size stride start steps + steps * stride ≡ start [MOD size] := by
  induction steps with
  | zero => simp [probe, Nat.ModEq]
  | succ steps ih =>
    have bound := (plan.probe_mem steps).2
    have below := plan.stride_lt
    refine Nat.ModEq.trans ?_ ih
    rw [probe, stepDown, Nat.succ_mul]
    split_ifs with wraps
    · have shifted : size + probe size stride start steps - stride + (steps * stride + stride) =
          size + (probe size stride start steps + steps * stride) := by omega
      rw [shifted]
      exact Nat.add_modEq_left
    · have shifted : probe size stride start steps - stride + (steps * stride + stride) =
          probe size stride start steps + steps * stride := by omega
      rw [shifted]

theorem probe_injective {first second : Nat} (firstBound : first < size)
    (secondBound : second < size)
    (equal : probe size stride start first = probe size stride start second) :
    first = second := by
  have congruent : first * stride ≡ second * stride [MOD size] := by
    have both := (plan.probe_modEq first).trans (plan.probe_modEq second).symm
    rw [equal] at both
    exact Nat.ModEq.add_left_cancel' _ both
  have coprime : Nat.gcd size stride = 1 :=
    (Nat.Prime.coprime_iff_not_dvd plan.prime).mpr
      (Nat.not_dvd_of_pos_of_lt plan.stride_pos plan.stride_lt)
  have cancelled := Nat.ModEq.cancel_right_of_coprime coprime congruent
  exact Nat.ModEq.eq_of_lt_of_lt cancelled firstBound secondBound

/-- After as many steps as there are slots the sequence is back at its start. -/
theorem probe_size : probe size stride start size = start := by
  obtain ⟨low, high⟩ := plan.probe_mem size
  have start_pos := plan.start_pos
  have start_le := plan.start_le
  have same : probe size stride start size ≡ start [MOD size] :=
    (Nat.add_mul_mod_self_left _ _ _).symm.trans (plan.probe_modEq size)
  -- both lie between one and the size, so one less than each is a residue
  have residues : probe size stride start size - 1 ≡ start - 1 [MOD size] := by
    refine Nat.ModEq.add_right_cancel' 1 ?_
    rwa [Nat.sub_add_cancel low, Nat.sub_add_cancel start_pos]
  have equal := Nat.ModEq.eq_of_lt_of_lt residues (by omega) (by omega)
  omega

theorem probe_surjective {idx : Nat} (low : 0 < idx) (high : idx ≤ size) :
    ∃ steps < size, probe size stride start steps = idx := by
  have image : (Finset.range size).image (probe size stride start) = Finset.Icc 1 size := by
    refine Finset.eq_of_subset_of_card_le ?_ ?_
    · intro slot member
      obtain ⟨steps, _, rfl⟩ := Finset.mem_image.mp member
      exact Finset.mem_Icc.mpr (plan.probe_mem steps)
    · rw [Finset.card_image_of_injOn, Finset.card_range, Nat.card_Icc, Nat.add_sub_cancel]
      intro first firstMember second secondMember equal
      exact plan.probe_injective (Finset.mem_range.mp firstMember)
        (Finset.mem_range.mp secondMember) equal
  have member : idx ∈ (Finset.range size).image (probe size stride start) := by
    rw [image]
    exact Finset.mem_Icc.mpr ⟨low, high⟩
  obtain ⟨steps, bound, reached⟩ := Finset.mem_image.mp member
  exact ⟨steps, Finset.mem_range.mp bound, reached⟩

theorem probe_eq_start_iff {steps : Nat} (positive : 0 < steps) (bound : steps ≤ size) :
    probe size stride start steps = start ↔ steps = size := by
  constructor
  · intro returned
    by_contra short
    have first : steps = 0 :=
      plan.probe_injective (by omega) plan.prime.pos (returned.trans rfl)
    omega
  · rintro rfl
    exact plan.probe_size

end ProbePlan

end TachyonBoot.Library
