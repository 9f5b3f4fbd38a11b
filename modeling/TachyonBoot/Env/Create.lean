/-
This file settles the creation of the hash table: `hcreate_r()` terminates and
the size it chooses is a prime of at least five.

The primality test of the source is trial division by odd numbers. It is exact
on odd numbers from five on; three is rejected, so that the smallest table has
five slots. That a prime is found at all, within twice the wanted size, is
Bertrand's postulate.
-/

import Mathlib.NumberTheory.Bertrand
import TachyonBoot.Env.HashTable

namespace TachyonBoot.Env

/-! ### Trial division -/

/-- Where trial division stops: at a divisor, or beyond the square root. Everything before the
stop is neither. -/
theorem isprimeLoop_spec {number fuel div : Nat} (enough : number ≤ fuel + div)
    (three : 3 ≤ div) (odd : div % 2 = 1)
    (before : ∀ smaller, 3 ≤ smaller → smaller % 2 = 1 → smaller < div →
      smaller * smaller < number ∧ number % smaller ≠ 0) :
    (number ≤ isprimeLoop number fuel div * isprimeLoop number fuel div ∨
        number % isprimeLoop number fuel div = 0) ∧
      3 ≤ isprimeLoop number fuel div ∧ isprimeLoop number fuel div % 2 = 1 ∧
      ∀ smaller, 3 ≤ smaller → smaller % 2 = 1 → smaller < isprimeLoop number fuel div →
        smaller * smaller < number ∧ number % smaller ≠ 0 := by
  induction fuel generalizing div with
  | zero =>
    rw [isprimeLoop]
    refine ⟨.inl ?_, three, odd, before⟩
    calc number ≤ div := by omega
      _ ≤ div * div := Nat.le_mul_self div
  | succ fuel ih =>
    rw [isprimeLoop]
    split_ifs with continues
    · refine ih (by omega) (by omega) (by omega) ?_
      intro smaller low odd' high
      rcases lt_or_ge smaller div with earlier | later
      · exact before smaller low odd' earlier
      · have same : smaller = div := by omega
        rw [same]
        exact continues
    · refine ⟨?_, three, odd, before⟩
      rw [not_and_or, not_lt, not_not] at continues
      exact continues

/-- The primality test is exact on odd numbers from five on. -/
theorem isprime_iff {number : Nat} (odd : number % 2 = 1) (five : 5 ≤ number) :
    isprime number = true ↔ number.Prime := by
  obtain ⟨stop, three, stopOdd, before⟩ :=
    @isprimeLoop_spec number number 3 (by omega) le_rfl rfl
      (fun smaller low _ high => by omega)
  rw [isprime, bne_iff_ne]
  generalize isprimeLoop number number 3 = div at *
  constructor
  · intro remainder
    have square : number ≤ div * div := stop.resolve_right remainder
    by_contra composite
    have factor := Nat.minFac_dvd number
    have small : number.minFac * number.minFac ≤ number := by
      have bound := Nat.minFac_sq_le_self (by omega) composite
      rwa [Nat.pow_two] at bound
    have factorOdd : number.minFac % 2 = 1 := by
      rcases Nat.mod_two_eq_zero_or_one number.minFac with even | odd'
      · have two : 2 ∣ number := (Nat.dvd_of_mod_eq_zero even).trans factor
        omega
      · exact odd'
    have prime := Nat.minFac_prime (show number ≠ 1 by omega)
    have notOne := prime.two_le
    rcases lt_or_ge number.minFac div with early | late
    · exact (before number.minFac (by omega) factorOdd early).2 (Nat.mod_eq_zero_of_dvd factor)
    · -- then the factor is the square root, at which the division stopped
      have equal : number.minFac = div := by
        by_contra different
        have beyond : div * div < number.minFac * number.minFac :=
          Nat.mul_self_lt_mul_self (by omega)
        omega
      exact remainder (Nat.mod_eq_zero_of_dvd (equal ▸ factor))
  · intro prime remainder
    rcases (Nat.dvd_prime prime).mp (Nat.dvd_of_mod_eq_zero remainder) with one | all
    · omega
    · have previous := (before (number - 2) (by omega) (by omega) (by omega)).1
      obtain ⟨rest, rfl⟩ : ∃ rest, number = rest + 5 := ⟨number - 5, by omega⟩
      have expanded : (rest + 5 - 2) * (rest + 5 - 2) = rest * rest + 6 * rest + 9 := by
        rw [show rest + 5 - 2 = rest + 3 by omega]
        ring
      omega

theorem isprime_three : isprime 3 = false := rfl

/-! ### Choosing the size -/

theorem hcreateLoop_spec {fuel nel steps : Nat} (odd : nel % 2 = 1) (three : 3 ≤ nel)
    (prime : isprime (nel + 2 * steps) = true) (bound : steps < fuel) :
    ∃ size, hcreateLoop fuel nel = some size ∧ isprime size = true ∧ size % 2 = 1 ∧ 3 ≤ size ∧
      size ≤ nel + 2 * steps := by
  induction fuel generalizing nel steps with
  | zero => omega
  | succ fuel ih =>
    rw [hcreateLoop]
    by_cases here : isprime nel = true
    · exact ⟨nel, if_pos here, here, odd, three, by omega⟩
    · rw [if_neg here]
      have later : steps ≠ 0 := by
        rintro rfl
        exact here prime
      have shifted : nel + 2 + 2 * (steps - 1) = nel + 2 * steps := by omega
      obtain ⟨size, result, facts⟩ := @ih (nel + 2) (steps - 1) (by omega)
        (by omega) (by rwa [shifted]) (by omega)
      rw [shifted] at facts
      exact ⟨size, result, facts⟩

/-- Creating a table for at least two entries succeeds, with a prime size of at least five and
at most twice the wanted size plus two, and an empty table. -/
theorem hcreateR_spec {nel : Nat} (two : 2 ≤ nel) :
    ∃ htab, hcreateR nel = some htab ∧ htab.size.Prime ∧ 5 ≤ htab.size ∧
      htab.size ≤ 2 * nel + 2 ∧ htab.filled = 0 ∧ ∀ idx, htab.table idx = .free := by
  have start : nel ||| 1 = 2 * (nel / 2) + 1 := by
    have high : (nel ||| 1) / 2 = nel / 2 := by simp [Nat.or_div_two]
    have low : (nel ||| 1) % 2 = 1 := by simp [Nat.or_mod_two_eq_one]
    omega
  rw [hcreateR, start]
  obtain ⟨prime, isPrime, above, below⟩ :=
    Nat.exists_prime_lt_and_le_two_mul (2 * (nel / 2) + 1) (by omega)
  have primeOdd : prime % 2 = 1 := by
    rcases isPrime.eq_two_or_odd with two | odd
    · omega
    · exact odd
  obtain ⟨steps, rfl⟩ : ∃ steps, prime = 2 * (nel / 2) + 1 + 2 * steps :=
    ⟨(prime - (2 * (nel / 2) + 1)) / 2, by omega⟩
  obtain ⟨size, result, sizePrime, odd, three, bound⟩ :=
    hcreateLoop_spec (show (2 * (nel / 2) + 1) % 2 = 1 by omega) (by omega)
      ((isprime_iff primeOdd (by omega)).mpr isPrime) (show steps < nel + 1 by omega)
  have five : 5 ≤ size := by
    by_contra small
    obtain rfl : size = 3 := by omega
    rw [isprime_three] at sizePrime
    cases sizePrime
  have twice : size ≤ 2 * nel + 2 := by omega
  rw [result]
  exact ⟨_, rfl, (isprime_iff odd five).mp sizePrime, five, twice, rfl, fun _ => rfl⟩

end TachyonBoot.Env
