/-
This file treats shift registers with linear feedback.

A register is shifted right by one place at a time, and the bit that falls out is
fed back into the places given by a mask. The step is linear over exclusive or. The
states that a single bit at the top runs through in the first `w` steps are the
single bits, so every state is a combination of them, and a state that many steps
lead to is computed by repeated squaring. The period of a state follows from a few
such powers: it is `n` when `n` steps lead back to the state and no `n / p` steps do,
for the primes `p` that divide `n`.
-/

import Mathlib.Data.Nat.Prime.Basic
import Mathlib.Dynamics.PeriodicPts.Defs
import Mathlib.Tactic.Common

namespace TachyonBoot.Library

open Function

/-! ### Periods -/

/-- A period of which no proper divisor by a prime is a period is the smallest one. -/
theorem minimalPeriod_eq_of_prime {State : Type} {step : State → State} {state : State} {n : Nat}
    (returns : step^[n] state = state)
    (sooner : ∀ p, p.Prime → p ∣ n → step^[n / p] state ≠ state) :
    minimalPeriod step state = n := by
  have periodic : IsPeriodicPt step n state := returns
  obtain ⟨factor, factored⟩ := periodic.minimalPeriod_dvd
  by_cases trivialFactor : factor = 1
  · rw [factored, trivialFactor, Nat.mul_one]
  · obtain ⟨p, isPrime, divides⟩ := Nat.exists_prime_and_dvd trivialFactor
    obtain ⟨rest, rfl⟩ := divides
    have quotient : n / p = minimalPeriod step state * rest := by
      rw [factored, Nat.mul_left_comm, Nat.mul_div_cancel_left _ isPrime.pos]
    refine absurd ?_ (sooner p isPrime ⟨minimalPeriod step state * rest, ?_⟩)
    · rw [quotient]
      exact (isPeriodicPt_minimalPeriod step state).mul_const rest
    · rw [factored, Nat.mul_left_comm]

/-! ### The register -/

variable {w : Nat}

/-- One step of the register. -/
def shiftOut (taps state : BitVec w) : BitVec w :=
  if state.getLsbD 0 then taps ^^^ (state >>> 1) else state >>> 1

variable (taps : BitVec w)

theorem shiftOut_xor (a b : BitVec w) :
    shiftOut taps (a ^^^ b) = shiftOut taps a ^^^ shiftOut taps b := by
  unfold shiftOut
  rw [BitVec.getLsbD_xor, BitVec.ushiftRight_xor_distrib]
  refine BitVec.eq_of_getLsbD_eq fun i _ => ?_
  cases a.getLsbD 0 <;> cases b.getLsbD 0 <;> cases bit : taps.getLsbD i <;> simp [bit]

theorem shiftOut_zero : shiftOut taps 0 = 0 := by simp [shiftOut]

theorem iterate_shiftOut_xor (n : Nat) (a b : BitVec w) :
    (shiftOut taps)^[n] (a ^^^ b) = (shiftOut taps)^[n] a ^^^ (shiftOut taps)^[n] b := by
  induction n generalizing a b with
  | zero => rfl
  | succ n ih =>
    simp only [iterate_succ_apply, shiftOut_xor, ih]

theorem iterate_shiftOut_zero (n : Nat) : (shiftOut taps)^[n] 0 = 0 :=
  iterate_fixed (shiftOut_zero taps) n

/-- As long as no bit falls out, the state is only shifted. -/
theorem iterate_shiftOut_of_low {n : Nat} {state : BitVec w}
    (low : ∀ i < n, state.getLsbD i = false) : (shiftOut taps)^[n] state = state >>> n := by
  induction n with
  | zero => simp
  | succ n ih =>
    rw [iterate_succ_apply', ih fun i inside => low i (by omega), shiftOut]
    simp [low n (by omega), BitVec.shiftRight_add]

/-! ### Combinations -/

/-- The states that `v` runs through, combined as the first `count` bits of `a` say, from the
top. -/
def combination (a v : BitVec w) : Nat → BitVec w
  | 0 => 0
  | count + 1 =>
    combination a v count ^^^ if a.getMsbD count then (shiftOut taps)^[count] v else 0

/-- Steps may be taken before or after combining. -/
theorem iterate_combination (n : Nat) (a v : BitVec w) (count : Nat) :
    (shiftOut taps)^[n] (combination taps a v count) =
      combination taps a ((shiftOut taps)^[n] v) count := by
  induction count with
  | zero => exact iterate_shiftOut_zero taps n
  | succ count ih =>
    rw [combination, combination, iterate_shiftOut_xor, ih]
    congr 1
    split
    · rw [← iterate_add_apply, ← iterate_add_apply, Nat.add_comm]
    · exact iterate_shiftOut_zero taps n

/-- The state with the top bit alone. -/
def topBit (w : Nat) : BitVec w := BitVec.twoPow w (w - 1)

theorem getMsbD_iterate_topBit {i : Nat} (inside : i < w) (j : Nat) :
    ((shiftOut taps)^[i] (topBit w)).getMsbD j = decide (i = j ∧ j < w) := by
  have shifted : (shiftOut taps)^[i] (topBit w) = topBit w >>> i := by
    refine iterate_shiftOut_of_low taps fun k below => ?_
    rw [topBit, BitVec.getLsbD_twoPow]
    simp
    omega
  rw [shifted, BitVec.getMsbD_eq_getLsbD, BitVec.getLsbD_ushiftRight, topBit,
    BitVec.getLsbD_twoPow]
  simp only [← Bool.decide_and, decide_eq_decide]
  omega

theorem getMsbD_combination_topBit (a : BitVec w) {count : Nat} (inside : count ≤ w) (j : Nat) :
    (combination taps a (topBit w) count).getMsbD j = (decide (j < count) && a.getMsbD j) := by
  induction count with
  | zero => simp [combination]
  | succ count ih =>
    rw [combination, BitVec.getMsbD_xor, ih (by omega)]
    have added : (if a.getMsbD count then (shiftOut taps)^[count] (topBit w) else 0).getMsbD j =
        (decide (count = j) && a.getMsbD j) := by
      split
      · rename_i bit
        rw [getMsbD_iterate_topBit taps (by omega)]
        by_cases same : count = j
        · subst same
          simp [bit]
          omega
        · simp [same]
      · rename_i bit
        by_cases same : count = j
        · subst same
          simp [bit]
        · simp [same]
    rw [added]
    by_cases same : count = j
    · simp [same]
    · have step : j < count + 1 ↔ j < count := by omega
      simp [same, step]

/-- Every state is the combination of single bits that its own bits say. -/
theorem combination_topBit (a : BitVec w) : combination taps a (topBit w) w = a := by
  refine BitVec.eq_of_getMsbD_eq fun j inside => ?_
  rw [getMsbD_combination_topBit taps a le_rfl, decide_eq_true inside, Bool.true_and]

/-- The steps from any state are a combination of the steps from the top bit. -/
theorem iterate_eq_combination (n : Nat) (a : BitVec w) :
    (shiftOut taps)^[n] a = combination taps a ((shiftOut taps)^[n] (topBit w)) w := by
  rw [← iterate_combination, combination_topBit]

/-- The state after `n` steps from the top bit, for the `n` with the given binary digits, the
lowest first, computed by squaring. -/
def power : List Bool → BitVec w
  | [] => topBit w
  | digit :: rest =>
    let root := power rest
    let square := combination taps root root w
    if digit then shiftOut taps square else square

/-- The number with the given binary digits. -/
def ofDigits : List Bool → Nat
  | [] => 0
  | digit :: rest => 2 * ofDigits rest + digit.toNat

theorem power_eq_iterate (digits : List Bool) :
    power taps digits = (shiftOut taps)^[ofDigits digits] (topBit w) := by
  induction digits with
  | nil => rfl
  | cons digit rest ih =>
    have square : combination taps (power taps rest) (power taps rest) w =
        (shiftOut taps)^[2 * ofDigits rest] (topBit w) := by
      conv_lhs => arg 3; rw [ih]
      rw [← iterate_eq_combination, ih, ← iterate_add_apply, Nat.two_mul]
    cases digit
    · exact square
    · simp only [power, ofDigits, if_true, square, Bool.toNat_true]
      rw [iterate_succ_apply']

end TachyonBoot.Library
