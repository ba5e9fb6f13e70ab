/-
This file is the project's library on dyadic blocks. The block of a number at a
level is the set of numbers with the same binary digits from that level up, so
the blocks of one level partition the numbers, and each is the union of two
blocks one level below.

Blocks are laminar: a fine block that meets a coarse one lies in it. They are
intervals: what lies between two numbers of a block belongs to it. The file
ends with the arithmetic of a number that is cut into a high and a low part,
which is how a block is compared digit group by digit group.
-/

import Mathlib.Data.Nat.ModEq
import Mathlib.Order.Interval.Set.OrdConnected
import Mathlib.Tactic

namespace NativeLibs.Library

/-! ### Blocks -/

/-- The numbers that have the digits of `point` from `level` up. -/
def block (level point : ℕ) : Set ℕ := {number | number / 2 ^ level = point / 2 ^ level}

theorem mem_block (level point number : ℕ) :
    number ∈ block level point ↔ number / 2 ^ level = point / 2 ^ level := Iff.rfl

theorem self_mem_block (level point : ℕ) : point ∈ block level point := rfl

theorem div_coarse (fine coarse number : ℕ) (below : fine ≤ coarse) :
    number / 2 ^ coarse = number / 2 ^ fine / 2 ^ (coarse - fine) := by
  rw [Nat.div_div_eq_div_mul, ← pow_add, Nat.add_sub_cancel' below]

theorem block_subset_block (fine coarse point : ℕ) (below : fine ≤ coarse) :
    block fine point ⊆ block coarse point := by
  intro number member
  rw [mem_block] at member ⊢
  rw [div_coarse fine coarse number below, div_coarse fine coarse point below, member]

theorem block_eq_of_mem (level point number : ℕ) (member : number ∈ block level point) :
    block level number = block level point := by
  ext other
  rw [mem_block, mem_block, (mem_block level point number).mp member]

theorem mem_block_of_meets (fine coarse point other common : ℕ) (below : fine ≤ coarse)
    (inFine : common ∈ block fine point) (inCoarse : common ∈ block coarse other) :
    point ∈ block coarse other := by
  have same := block_subset_block fine coarse point below inFine
  rw [mem_block] at same inCoarse ⊢
  rw [← same, inCoarse]

theorem block_between (level point low middle high : ℕ) (lowMem : low ∈ block level point)
    (highMem : high ∈ block level point) (above : low ≤ middle) (under : middle ≤ high) :
    middle ∈ block level point := by
  rw [mem_block] at lowMem highMem ⊢
  refine le_antisymm ?_ ?_
  · rw [← highMem]
    exact Nat.div_le_div_right under
  · rw [← lowMem]
    exact Nat.div_le_div_right above

theorem mem_block_of_aligned (level point number : ℕ) (aligned : 2 ^ level ∣ point) :
    number ∈ block level point ↔ point ≤ number ∧ number < point + 2 ^ level := by
  obtain ⟨index, rfl⟩ := aligned
  have positive : 0 < 2 ^ level := Nat.two_pow_pos level
  rw [mem_block, Nat.mul_div_cancel_left _ positive, Nat.div_eq_iff positive, Nat.mul_comm index]
  omega

theorem mem_block_succ (level point number : ℕ) (aligned : 2 ^ (level + 1) ∣ point) :
    number ∈ block (level + 1) point ↔
      number ∈ block level point ∨ number ∈ block level (point + 2 ^ level) := by
  obtain ⟨index, rfl⟩ := aligned
  have positive : 0 < 2 ^ level := Nat.two_pow_pos level
  have half : 2 ^ (level + 1) * index / 2 ^ level = 2 * index := by
    rw [pow_succ, mul_assoc, Nat.mul_div_cancel_left _ positive]
  rw [mem_block, mem_block, mem_block, Nat.add_div_right _ positive, half,
    Nat.mul_div_cancel_left _ (Nat.two_pow_pos _), pow_succ, ← Nat.div_div_eq_div_mul]
  omega

theorem add_notMem_block (fine level point : ℕ) (below : fine ≤ level) :
    point + 2 ^ level ∉ block fine point := by
  intro member
  have whole : 2 ^ level = 2 ^ (level - fine) * 2 ^ fine := by
    rw [← pow_add, Nat.sub_add_cancel below]
  rw [mem_block, whole, Nat.add_mul_div_right _ _ (Nat.two_pow_pos fine)] at member
  exact absurd member (Nat.lt_add_of_pos_right (Nat.two_pow_pos _)).ne'

/-! ### A number in two parts -/

theorem add_div_low (seam level high low : ℕ) (below : level ≤ seam) :
    (high * 2 ^ seam + low) / 2 ^ level = high * 2 ^ (seam - level) + low / 2 ^ level := by
  have whole : high * 2 ^ seam = high * 2 ^ (seam - level) * 2 ^ level := by
    rw [mul_assoc, ← pow_add, Nat.sub_add_cancel below]
  rw [whole, add_comm, Nat.add_mul_div_right _ _ (Nat.two_pow_pos level), add_comm]

theorem add_div_high (seam excess high low : ℕ) (fits : low < 2 ^ seam) :
    (high * 2 ^ seam + low) / 2 ^ (seam + excess) = high / 2 ^ excess := by
  rw [pow_add, ← Nat.div_div_eq_div_mul, add_comm,
    Nat.add_mul_div_right _ _ (Nat.two_pow_pos seam), Nat.div_eq_of_lt fits, zero_add]

/-- Below the seam two numbers lie in one block exactly when their high parts are equal and
their low parts lie in one block. -/
theorem add_div_low_inj (seam level high low other otherLow : ℕ) (below : level ≤ seam)
    (fits : low < 2 ^ seam) (otherFits : otherLow < 2 ^ seam) :
    (high * 2 ^ seam + low) / 2 ^ level = (other * 2 ^ seam + otherLow) / 2 ^ level ↔
      high = other ∧ low / 2 ^ level = otherLow / 2 ^ level := by
  rw [add_div_low seam level high low below, add_div_low seam level other otherLow below]
  have bound : ∀ part, part < 2 ^ seam → part / 2 ^ level < 2 ^ (seam - level) := by
    intro part small
    rw [Nat.div_lt_iff_lt_mul (Nat.two_pow_pos level), ← pow_add, Nat.sub_add_cancel below]
    exact small
  have lowBound := bound low fits
  have otherBound := bound otherLow otherFits
  constructor
  · intro same
    have highs := congrArg (fun number => number / 2 ^ (seam - level)) same
    simp only [mul_comm _ (2 ^ (seam - level)), Nat.mul_add_div (Nat.two_pow_pos (seam - level)),
      Nat.div_eq_of_lt lowBound, Nat.div_eq_of_lt otherBound, add_zero] at highs
    rw [highs] at same
    exact ⟨highs, Nat.add_left_cancel same⟩
  · rintro ⟨rfl, lows⟩
    rw [lows]

end NativeLibs.Library
