/-
This file is a small library of the one's-complement sums that the Internet protocols use as
checksums.

A word has sixteen bits, and a carry out of the highest bit is added to the lowest one. Such a sum
is the sum of the words modulo 65535, where of the two zeros the one with all bits set stands for
every sum that is not plainly zero. A wide sum may also be taken first and its carries be added
afterwards, again and again.
-/

import Mathlib.Data.List.Basic
import Mathlib.Algebra.Order.Ring.Nat

namespace TachyonBoot.Library

open List

/-! ### Sums with an end-around carry -/

/-- The sum of two words with an end-around carry. -/
def onesAdd (total word : Nat) : Nat :=
  if total + word < 65536 then total + word else total + word - 65535

/-- The one's-complement sum of some words. -/
def onesSum (words : List Nat) : Nat := words.foldl onesAdd 0

/-- One word stands for a wide sum. -/
structure StandsFor (word total : Nat) : Prop where
  small : word < 65536
  mod : word % 65535 = total % 65535
  zero : word = 0 ↔ total = 0

variable {word total fuel : Nat} {words : List Nat}

theorem StandsFor.onesAdd (stands : StandsFor word total) {next : Nat} (small : next < 65536) :
    StandsFor (onesAdd word next) (total + next) := by
  obtain ⟨smallWord, mod, zero⟩ := stands
  unfold Library.onesAdd
  split_ifs with fits
  · exact ⟨fits, by omega, by omega⟩
  · exact ⟨by omega, by omega, by omega⟩

theorem standsFor_foldl (small : ∀ word ∈ words, word < 65536) (stands : StandsFor word total) :
    StandsFor (words.foldl onesAdd word) (total + words.sum) := by
  induction words generalizing word total with
  | nil => exact stands
  | cons next words ih =>
    obtain ⟨smallNext, smallLater⟩ := forall_mem_cons.mp small
    rw [foldl_cons, sum_cons, ← Nat.add_assoc]
    exact ih smallLater (stands.onesAdd smallNext)

/-- The sum of words that are not all zero has all bits set exactly if it is divisible. -/
theorem onesSum_eq_iff (small : ∀ word ∈ words, word < 65536) (positive : 0 < words.sum) :
    onesSum words = 0xffff ↔ words.sum % 65535 = 0 := by
  obtain ⟨smallSum, mod, zero⟩ :=
    standsFor_foldl small (⟨by decide, rfl, Iff.rfl⟩ : StandsFor 0 0)
  rw [Nat.zero_add] at mod zero
  unfold onesSum
  omega

/-! ### Adding the carries afterwards -/

/-- The loop that adds the carries of a wide sum. -/
def foldCarries : Nat → Nat → Nat
  | 0, total => total
  | fuel + 1, total =>
    if total / 65536 ≠ 0 then foldCarries fuel (total % 65536 + total / 65536 % 65536) else total

theorem foldCarries_standsFor (enough : total ≤ fuel) (small : total < 2 ^ 32) :
    StandsFor (foldCarries fuel total) total := by
  induction fuel generalizing total with
  | zero =>
    obtain rfl := Nat.le_zero.mp enough
    exact ⟨by decide, rfl, Iff.rfl⟩
  | succ fuel ih =>
    rw [foldCarries]
    split_ifs with carries
    · rw [Nat.mod_eq_of_lt (show total / 65536 < 65536 by omega)]
      obtain ⟨smallWord, mod, zero⟩ := @ih
        (total % 65536 + total / 65536) (by omega) (by omega)
      exact ⟨smallWord, by omega, by omega⟩
    · exact ⟨by omega, rfl, Iff.rfl⟩

/-- One of the two zeros is left exactly if the sum is divisible. -/
theorem foldCarries_eq_zero_iff (enough : total ≤ fuel) (small : total < 2 ^ 32) :
    foldCarries fuel total = 0 ∨ foldCarries fuel total = 0xffff ↔ total % 65535 = 0 := by
  obtain ⟨smallWord, mod, zero⟩ := foldCarries_standsFor enough small
  omega

/-! ### Words of bytes -/

/-- The words of some bytes, the high byte first; an odd number of bytes is padded with a zero. -/
def wordsOf : List UInt8 → List Nat
  | high :: low :: rest => (256 * high.toNat + low.toNat) :: wordsOf rest
  | [last] => [256 * last.toNat]
  | [] => []

theorem wordsOf_lt (bytes : List UInt8) : ∀ word ∈ wordsOf bytes, word < 65536 := by
  induction bytes using wordsOf.induct with
  | case1 high low rest ih =>
    have highSmall := high.toNat_lt
    have lowSmall := low.toNat_lt
    exact forall_mem_cons.mpr ⟨by omega, ih⟩
  | case2 last =>
    have small := last.toNat_lt
    exact forall_mem_singleton.mpr (by omega)
  | case3 => exact forall_mem_nil _

theorem sum_wordsOf_le (bytes : List UInt8) :
    (wordsOf bytes).sum ≤ 65535 * ((bytes.length + 1) / 2) := by
  induction bytes using wordsOf.induct with
  | case1 high low rest ih =>
    have highSmall := high.toNat_lt
    have lowSmall := low.toNat_lt
    rw [wordsOf, sum_cons, length_cons, length_cons]
    omega
  | case2 last =>
    have small := last.toNat_lt
    rw [wordsOf, sum_singleton, length_singleton]
    omega
  | case3 => exact Nat.le_refl 0

end TachyonBoot.Library
