/-
This file is the project's library on signed machine numbers. A number fits in some
bits if it is kept by the conversion to that many bits, and a sum that does not fit
wraps around. Division of machine numbers rounds towards zero, which is the floor for
a number that is not negative or is a multiple of the divisor, and for no other.

A number splits into a quotient and a rest that is not negative. Truncated division
does so exactly where it agrees with the floor, and dividing in two steps, first by a
fine unit and then by a coarse one, is no different.
-/

import Mathlib.Tactic

namespace NativeLibs.Library

/-! ### Room -/

/-- A number is in the range of a signed type. -/
def Fits (bits : ℕ) (number : ℤ) : Prop := -2 ^ (bits - 1) ≤ number ∧ number < 2 ^ (bits - 1)

instance (bits : ℕ) (number : ℤ) : Decidable (Fits bits number) :=
  inferInstanceAs (Decidable (_ ∧ _))

theorem bmod_eq_self_iff {bits : ℕ} (positive : 0 < bits) (number : ℤ) :
    number.bmod (2 ^ bits) = number ↔ Fits bits number := by
  obtain ⟨less, rfl⟩ := Nat.exists_eq_add_one_of_ne_zero positive.ne'
  have half : ((2 ^ (less + 1) : ℕ) : ℤ) = 2 * 2 ^ less := by
    rw [pow_succ, Nat.cast_mul, Nat.cast_pow, mul_comm]
    rfl
  have room : (0 : ℤ) < 2 ^ less := pow_pos (by decide) less
  rw [Int.bmod_eq_iff (Nat.two_pow_pos _), half, sub_self, Fits, Nat.add_sub_cancel]
  constructor
  · rintro ⟨lower, upper, -⟩
    omega
  · rintro ⟨lower, upper⟩
    exact ⟨by omega, by omega, dvd_zero _⟩

/-- The sum of two numbers in a signed type. -/
def wrappedSum (bits : ℕ) (first second : ℤ) : ℤ := (first + second).bmod (2 ^ bits)

theorem wrappedSum_of_fits {bits : ℕ} (positive : 0 < bits) {first second : ℤ}
    (fits : Fits bits (first + second)) : wrappedSum bits first second = first + second :=
  (bmod_eq_self_iff positive _).mpr fits

theorem fits_toInt (number : Int64) : Fits 64 number.toInt := ⟨number.le_toInt, number.toInt_lt⟩

/-- What lies between zero and a number that fits does so too. -/
theorem Fits.of_mem_uIcc {bits : ℕ} {number other : ℤ} (fits : Fits bits number)
    (between : other ∈ Set.uIcc 0 number) : Fits bits other := by
  have room : (0 : ℤ) < 2 ^ (bits - 1) := pow_pos (by decide) _
  obtain ⟨lower, upper⟩ := fits
  rcases Set.mem_uIcc.mp between with ⟨low, high⟩ | ⟨low, high⟩
  · exact ⟨by omega, by omega⟩
  · exact ⟨by omega, by omega⟩

/-! ### Truncated division -/

theorem sign_cases {motive : ℤ → Prop} (positive : ∀ number : ℕ, motive number)
    (negative : ∀ number : ℕ, motive number → motive (-number)) (number : ℤ) : motive number := by
  obtain ⟨size, rfl | rfl⟩ := number.eq_nat_or_neg
  · exact positive size
  · exact negative size (positive size)

theorem tdiv_tdiv (fine unit : ℕ) (number : ℤ) :
    (number.tdiv fine).tdiv unit = number.tdiv (fine * unit : ℕ) := by
  induction number using sign_cases with
  | positive number =>
    rw [← Int.ofNat_tdiv, ← Int.ofNat_tdiv, ← Int.ofNat_tdiv, Nat.div_div_eq_div_mul]
  | negative number same => rw [Int.neg_tdiv, Int.neg_tdiv, Int.neg_tdiv, same]

theorem tmod_tdiv (fine unit : ℕ) (number : ℤ) :
    (number.tmod (fine * unit : ℕ)).tdiv fine = (number.tdiv fine).tmod unit := by
  induction number using sign_cases with
  | positive number =>
    rw [← Int.ofNat_tmod, ← Int.ofNat_tdiv, ← Int.ofNat_tdiv, ← Int.ofNat_tmod,
      Nat.mod_mul_right_div_self]
  | negative number same => rw [Int.neg_tmod, Int.neg_tdiv, Int.neg_tdiv, Int.neg_tmod, same]

theorem tmod_mem_uIcc (unit : ℕ) (number : ℤ) : number.tmod unit ∈ Set.uIcc 0 number := by
  induction number using sign_cases with
  | positive number =>
    rw [← Int.ofNat_tmod, Set.mem_uIcc]
    exact .inl ⟨Int.natCast_nonneg _, Int.ofNat_le.mpr (Nat.mod_le number unit)⟩
  | negative number between =>
    rw [Int.neg_tmod]
    rw [Set.mem_uIcc] at between ⊢
    omega

theorem tdiv_mul_mem_uIcc (unit : ℕ) (number : ℤ) :
    number.tdiv unit * unit ∈ Set.uIcc 0 number := by
  have rest := tmod_mem_uIcc unit number
  have whole := Int.mul_tdiv_add_tmod number unit
  rw [mul_comm] at whole
  rw [Set.mem_uIcc] at rest ⊢
  omega

theorem tdiv_eq_ediv_iff {unit : ℤ} (positive : 0 < unit) (number : ℤ) :
    number.tdiv unit = number / unit ↔ 0 ≤ number ∨ unit ∣ number := by
  rw [Int.tdiv_eq_ediv]
  by_cases exactly : 0 ≤ number ∨ unit ∣ number
  · rw [if_pos exactly, add_zero]
    exact iff_of_true rfl exactly
  · rw [if_neg exactly, Int.sign_eq_one_of_pos positive]
    exact iff_of_false (by omega) exactly

theorem tmod_nonneg_iff {unit : ℤ} (positive : 0 < unit) (number : ℤ) :
    0 ≤ number.tmod unit ↔ 0 ≤ number ∨ unit ∣ number := by
  have small := Int.emod_lt_of_pos number positive
  have floor := Int.emod_nonneg number positive.ne'
  rw [Int.tmod_eq_emod]
  by_cases exactly : 0 ≤ number ∨ unit ∣ number
  · rw [if_pos exactly]
    exact iff_of_true (by omega) exactly
  · rw [if_neg exactly]
    exact iff_of_false (by omega) exactly

/-! ### Quotient and rest -/

/-- A number as so many units and a rest that is less than one. -/
def Splits (unit quotient rest number : ℤ) : Prop :=
  0 ≤ rest ∧ rest < unit ∧ quotient * unit + rest = number

/-- Truncated division splits the numbers for which it is the floor. -/
theorem splits_tdiv_iff {unit : ℤ} (positive : 0 < unit) (number : ℤ) :
    Splits unit (number.tdiv unit) (number.tmod unit) number ↔ 0 ≤ number ∨ unit ∣ number := by
  rw [← tmod_nonneg_iff positive]
  have whole := Int.mul_tdiv_add_tmod number unit
  rw [mul_comm] at whole
  exact ⟨And.left, fun nonneg => ⟨nonneg, Int.tmod_lt_of_pos number positive, whole⟩⟩

theorem nonneg_or_dvd_iff {fine : ℕ} (positive : 0 < fine) (unit : ℕ) (number : ℤ) :
    (0 ≤ number ∨ ((fine * unit : ℕ) : ℤ) ∣ number) ↔
      (0 ≤ number ∨ (fine : ℤ) ∣ number) ∧
        (0 ≤ number.tdiv fine ∨ (unit : ℤ) ∣ number.tdiv fine) := by
  have finePositive : (0 : ℤ) < fine := Int.natCast_pos.mpr positive
  rw [Nat.cast_mul]
  by_cases nonneg : 0 ≤ number
  · exact iff_of_true (.inl nonneg) ⟨.inl nonneg, .inl (Int.tdiv_nonneg nonneg finePositive.le)⟩
  rw [or_iff_right nonneg, or_iff_right nonneg]
  constructor
  · rintro ⟨count, rfl⟩
    rw [mul_assoc, Int.mul_tdiv_cancel_left _ finePositive.ne']
    exact ⟨dvd_mul_right _ _, .inr (dvd_mul_right _ _)⟩
  · rintro ⟨⟨count, rfl⟩, evenly⟩
    rw [Int.mul_tdiv_cancel_left _ finePositive.ne'] at evenly
    refine mul_dvd_mul_left _ (evenly.resolve_left fun countNonneg => nonneg ?_)
    exact mul_nonneg finePositive.le countNonneg

/-- A truncated number of fine units has the quotient and the rest of the number rounded down only
if it is that number. -/
theorem eq_of_splits_fine {fine unit : ℕ} (positive : 0 < fine) (several : 1 < unit)
    {number quotient : ℤ}
    (splits : Splits unit quotient ((number.tdiv fine).tmod unit) (number / fine)) :
    number.tdiv fine = number / fine ∧ quotient = (number.tdiv fine).tdiv unit := by
  have whole := Int.mul_tdiv_add_tmod (number.tdiv fine) unit
  have joined := splits.2.2
  have unitPositive : (0 : ℤ) < unit := by omega
  by_cases exactly : 0 ≤ number ∨ (fine : ℤ) ∣ number
  · have same := (tdiv_eq_ediv_iff (Int.natCast_pos.mpr positive) number).mpr exactly
    refine ⟨same, mul_right_cancel₀ unitPositive.ne' ?_⟩
    rw [mul_comm ((number.tdiv fine).tdiv unit)]
    omega
  · -- otherwise the two differ by one, which is no multiple of the unit
    have above := Int.tdiv_eq_ediv (a := number) (b := fine)
    rw [if_neg exactly, Int.sign_eq_one_of_pos (Int.natCast_pos.mpr positive)] at above
    have one : (unit : ℤ) ∣ 1 := by
      refine ⟨(number.tdiv fine).tdiv unit - quotient, ?_⟩
      rw [mul_sub, mul_comm _ quotient]
      omega
    have small := Int.le_of_dvd one_pos one
    omega

/-- The fine units of a number, rounded towards zero, are split as the number rounded down is
exactly if there was nothing to round. -/
theorem splits_fine_iff {fine unit : ℕ} (positive : 0 < fine) (several : 1 < unit)
    (number quotient : ℤ) :
    Splits unit quotient ((number.tdiv fine).tmod unit) (number / fine) ↔
      quotient = (number.tdiv fine).tdiv unit ∧
        (0 ≤ number ∨ ((fine * unit : ℕ) : ℤ) ∣ number) := by
  have finePositive : (0 : ℤ) < fine := Int.natCast_pos.mpr positive
  have unitPositive : (0 : ℤ) < unit := by omega
  rw [nonneg_or_dvd_iff positive]
  constructor
  · intro splits
    obtain ⟨same, rfl⟩ := eq_of_splits_fine positive several splits
    refine ⟨rfl, (tdiv_eq_ediv_iff finePositive number).mp same, ?_⟩
    exact (tmod_nonneg_iff unitPositive _).mp splits.1
  · rintro ⟨rfl, exactly, evenly⟩
    rw [← (tdiv_eq_ediv_iff finePositive number).mpr exactly]
    exact (splits_tdiv_iff unitPositive _).mpr evenly

end NativeLibs.Library
