/-
This file proves what the checksum of a run of zero bytes is.

A zero byte moves the checksum eight steps through a shift register whose feedback
polynomial is primitive, so the register returns to the state of all ones only after
`2 ^ 32 - 1` steps. Hence a block of zeros never has the checksum zero: memory that was
only cleared does not pass for data with a good checksum.
-/

import TachyonBoot.Efi.VarStore
import TachyonBoot.Library.ShiftRegister
import Mathlib.Tactic.NormNum.Prime

namespace TachyonBoot.Efi

open Library Function

/-- The feedback polynomial of `make_crc_table()`. -/
def crcTaps : BitVec 32 := 0xedb88320#32

theorem crcTable_toBitVec (byte : UInt32) :
    (crcTable byte).toBitVec = (shiftOut crcTaps)^[8] byte.toBitVec := by
  have bitStep : ∀ c : UInt32,
      (if c &&& 1 ≠ 0 then (0xedb88320 : UInt32) ^^^ (c >>> 1) else c >>> 1).toBitVec =
        shiftOut crcTaps c.toBitVec := by
    intro c
    have odd : c &&& 1 ≠ 0 ↔ c.toBitVec.getLsbD 0 = true := by
      rw [Ne, ← UInt32.toBitVec_inj]
      simp [BitVec.and_one_eq_setWidth_ofBool_getLsbD]
      cases c.toBitVec[0] <;> decide
    unfold shiftOut crcTaps
    split <;> simp_all
  have steps : ∀ n, (Nat.repeat (fun c : UInt32 =>
      if c &&& 1 ≠ 0 then (0xedb88320 : UInt32) ^^^ (c >>> 1) else c >>> 1) n byte).toBitVec =
        (shiftOut crcTaps)^[n] byte.toBitVec := by
    intro n
    induction n with
    | zero => rfl
    | succ n ih =>
      rw [iterate_succ_apply', ← ih, ← bitStep]
      rfl
  exact steps 8

theorem crcTable_zero (crc : UInt32) :
    (crcTable (crc &&& 255) ^^^ (crc >>> 8)).toBitVec = (shiftOut crcTaps)^[8] crc.toBitVec := by
  have parts : crc.toBitVec =
      (crc &&& 255).toBitVec ^^^ ((crc &&& 255).toBitVec ^^^ crc.toBitVec) := by
    rw [← BitVec.xor_assoc, BitVec.xor_self, BitVec.zero_xor]
  have small : (crc &&& 255).toBitVec >>> 8 = 0#32 := by
    apply BitVec.eq_of_toNat_eq
    have below : (crc.toBitVec &&& 255#32).toNat ≤ 255 := by
      rw [BitVec.toNat_and]
      exact Nat.and_le_right
    simp only [UInt32.toBitVec_and, BitVec.toNat_ushiftRight, Nat.shiftRight_eq_div_pow]
    exact Nat.div_eq_of_lt (Nat.lt_succ_of_le below)
  have high : (shiftOut crcTaps)^[8] ((crc &&& 255).toBitVec ^^^ crc.toBitVec) =
      (crc >>> 8).toBitVec := by
    rw [iterate_shiftOut_of_low, BitVec.ushiftRight_xor_distrib, small, BitVec.zero_xor]
    · rfl
    · intro i low
      have inMask : (255#32).getLsbD i = true := by
        revert i
        decide
      simp [inMask]
  rw [UInt32.toBitVec_xor, crcTable_toBitVec, ← high, ← iterate_shiftOut_xor, ← parts]

theorem crc32NoComp_zeros (crc : UInt32) (n : Nat) :
    (crc32NoComp crc (List.replicate n 0)).toBitVec =
      (shiftOut crcTaps)^[8 * n] crc.toBitVec := by
  induction n generalizing crc with
  | zero => rfl
  | succ n ih =>
    have step : crc32NoComp crc (List.replicate (n + 1) 0) =
        crc32NoComp (crcTable (crc &&& 255) ^^^ (crc >>> 8)) (List.replicate n 0) := by
      simp [crc32NoComp, List.replicate_succ]
    rw [step, ih, crcTable_zero, ← iterate_add_apply]
    rfl

/-- The steps from the state of all ones, for a number of steps given by its digits. -/
def fromOnes (digits : List Bool) : BitVec 32 :=
  combination crcTaps (BitVec.allOnes 32) (power crcTaps digits) 32

theorem iterate_ones (digits : List Bool) :
    (shiftOut crcTaps)^[ofDigits digits] (BitVec.allOnes 32) = fromOnes digits := by
  rw [fromOnes, power_eq_iterate, ← iterate_eq_combination]

/-- The binary digits of a number, the lowest first. -/
def digitsOf (n : Nat) : List Bool := (List.range 32).map n.testBit

theorem minimalPeriod_ones :
    minimalPeriod (shiftOut crcTaps) (BitVec.allOnes 32) = 2 ^ 32 - 1 := by
  have steps : ∀ n, ofDigits (digitsOf n) = n →
      (shiftOut crcTaps)^[n] (BitVec.allOnes 32) = fromOnes (digitsOf n) := fun n same => by
    rw [← iterate_ones, same]
  refine minimalPeriod_eq_of_prime ?_ fun p isPrime divides => ?_
  · rw [steps _ (by decide +kernel)]
    decide +kernel
  · have factors : 2 ^ 32 - 1 = 3 * 5 * 17 * 257 * 65537 := by decide
    have factor : p = 3 ∨ p = 5 ∨ p = 17 ∨ p = 257 ∨ p = 65537 := by
      rw [factors] at divides
      simpa only [isPrime.dvd_mul, Nat.prime_dvd_prime_iff_eq isPrime, Nat.prime_three,
        Nat.prime_five, show Nat.Prime 17 by norm_num, show Nat.Prime 257 by norm_num,
        show Nat.Prime 65537 by norm_num, or_assoc] using divides
    rcases factor with rfl | rfl | rfl | rfl | rfl
    all_goals
      rw [steps _ (by decide +kernel)]
      decide +kernel

/-- A run of zero bytes has the checksum zero only at multiples of the period. -/
theorem dvd_of_crc32_zeros {n : Nat} (zero : crc32 0 (List.replicate n 0) = 0) :
    2 ^ 32 - 1 ∣ n := by
  have ones : crc32NoComp 0xffffffff (List.replicate n 0) = 0xffffffff := by
    have complemented : crc32NoComp 0xffffffff (List.replicate n 0) ^^^ 0xffffffff = 0 := zero
    exact UInt32.xor_eq_zero_iff.mp complemented
  have returns : IsPeriodicPt (shiftOut crcTaps) (8 * n) (BitVec.allOnes 32) := by
    have steps := crc32NoComp_zeros 0xffffffff n
    rw [ones] at steps
    exact steps.symm
  have divides := returns.minimalPeriod_dvd
  rw [minimalPeriod_ones] at divides
  exact Nat.Coprime.dvd_of_dvd_mul_left (by decide) divides

/-- A block of zeros that fits into 32 bits does not have the checksum zero. -/
theorem crc32_zeros_ne {n : Nat} (positive : 0 < n) (small : n < 2 ^ 32 - 1) :
    crc32 0 (List.replicate n 0) ≠ 0 :=
  fun zero => absurd (Nat.le_of_dvd positive (dvd_of_crc32_zeros zero)) (Nat.not_le.mpr small)

end TachyonBoot.Efi
