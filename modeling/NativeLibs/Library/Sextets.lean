/-
This file is the project's library on bytes and six-bit values. Three bytes are
24 bits, and so are four values below 64: a sequence of bytes is regrouped into
values three bytes at a time, and a rest of one or two bytes is filled up with
zero bits. Going back gives the bytes. In the other direction a sequence of
values loses only the low bits of its last value, which no byte has room for.
-/

import Mathlib.Data.List.Basic
import Mathlib.Tactic

namespace NativeLibs.Library

/-! ### Bytes by their bits -/

/-- A bit of a byte, counted from the lowest. -/
def bit (byte : UInt8) (position : ℕ) : Bool := byte.toBitVec.getLsbD position

theorem byte_ext {first second : UInt8}
    (same : ∀ position < 8, bit first position = bit second position) : first = second :=
  UInt8.toBitVec_inj.mp (BitVec.eq_of_getLsbD_eq same)

@[grind =] theorem bit_of_le (byte : UInt8) {position : ℕ} (beyond : 8 ≤ position) :
    bit byte position = false :=
  BitVec.getLsbD_of_ge _ _ beyond

@[grind =] theorem bit_or (first second : UInt8) (position : ℕ) :
    bit (first ||| second) position = (bit first position || bit second position) :=
  BitVec.getLsbD_or

@[grind =] theorem bit_shiftLeft (byte amount : UInt8) (position : ℕ) :
    bit (byte <<< amount) position =
      (decide (position < 8) && !decide (position < amount.toNat % 8) &&
        bit byte (position - amount.toNat % 8)) := by
  rw [bit, UInt8.toBitVec_shiftLeft, bit]
  simp

@[grind =] theorem bit_shiftRight (byte amount : UInt8) (position : ℕ) :
    bit (byte >>> amount) position = bit byte (amount.toNat % 8 + position) := by
  rw [bit, UInt8.toBitVec_shiftRight, bit]
  simp

theorem bit_and_mask {mask : UInt8} {width : ℕ}
    (shape : ∀ position < 8, bit mask position = decide (position < width)) (byte : UInt8)
    (position : ℕ) :
    bit (byte &&& mask) position = (decide (position < width) && bit byte position) := by
  have both : bit (byte &&& mask) position = (bit byte position && bit mask position) :=
    BitVec.getLsbD_and
  by_cases below : position < 8
  · rw [both, shape position below, Bool.and_comm]
  · rw [both, bit_of_le byte (not_lt.mp below), Bool.false_and, Bool.and_false]

@[grind =] theorem bit_and_two (byte : UInt8) (position : ℕ) :
    bit (byte &&& 0x03) position = (decide (position < 2) && bit byte position) :=
  bit_and_mask (by decide) byte position

@[grind =] theorem bit_and_four (byte : UInt8) (position : ℕ) :
    bit (byte &&& 0x0f) position = (decide (position < 4) && bit byte position) :=
  bit_and_mask (by decide) byte position

@[grind =] theorem bit_and_six (byte : UInt8) (position : ℕ) :
    bit (byte &&& 0x3f) position = (decide (position < 6) && bit byte position) :=
  bit_and_mask (by decide) byte position

theorem bit_of_lt {value : UInt8} (small : value < 64) (position : ℕ) (high : 6 ≤ position) :
    bit value position = false := by
  have bound : value.toNat < 2 ^ position :=
    (UInt8.lt_iff_toNat_lt.mp small).trans_le (Nat.pow_le_pow_right two_pos high)
  exact Nat.testBit_lt_two_pow bound

theorem lt_of_bit {value : UInt8} (high : ∀ position, 6 ≤ position → bit value position = false) :
    value < 64 := by
  have masked : value = value &&& 0x3f := byte_ext fun position below => by grind
  rw [masked, UInt8.lt_iff_toNat_lt, UInt8.toNat_and]
  exact Nat.and_lt_two_pow _ (by decide : (63 : UInt8).toNat < 2 ^ 6)

/-! ### The values of a group -/

theorem highSix_lt (first : UInt8) : first >>> 2 < 64 :=
  lt_of_bit fun position high => by grind

theorem lowSix_lt (third : UInt8) : third &&& 0x3f < 64 :=
  lt_of_bit fun position high => by grind

theorem lowTwo_lt (first : UInt8) : (first &&& 0x03) <<< 4 < 64 :=
  lt_of_bit fun position high => by grind

theorem lowFour_lt (second : UInt8) : (second &&& 0x0f) <<< 2 < 64 :=
  lt_of_bit fun position high => by grind

theorem lowTwo_highFour_lt (first second : UInt8) :
    (first &&& 0x03) <<< 4 ||| second >>> 4 < 64 :=
  lt_of_bit fun position high => by grind

theorem lowFour_highTwo_lt (second third : UInt8) :
    (second &&& 0x0f) <<< 2 ||| third >>> 6 < 64 :=
  lt_of_bit fun position high => by grind

theorem firstByte (first second : UInt8) :
    first >>> 2 <<< 2 ||| ((first &&& 0x03) <<< 4 ||| second >>> 4) >>> 4 = first :=
  byte_ext fun position below => by grind

theorem firstByte_last (first : UInt8) :
    first >>> 2 <<< 2 ||| (first &&& 0x03) <<< 4 >>> 4 = first :=
  byte_ext fun position below => by grind

theorem secondByte (first second third : UInt8) :
    ((first &&& 0x03) <<< 4 ||| second >>> 4) <<< 4 |||
      ((second &&& 0x0f) <<< 2 ||| third >>> 6) >>> 2 = second :=
  byte_ext fun position below => by grind

theorem secondByte_last (first second : UInt8) :
    ((first &&& 0x03) <<< 4 ||| second >>> 4) <<< 4 ||| (second &&& 0x0f) <<< 2 >>> 2 =
      second :=
  byte_ext fun position below => by grind

theorem thirdByte (second third : UInt8) :
    ((second &&& 0x0f) <<< 2 ||| third >>> 6) <<< 6 ||| third &&& 0x3f = third :=
  byte_ext fun position below => by grind

section Values

variable {first second third fourth : UInt8}

theorem firstValue (small : first < 64) (smallSecond : second < 64) :
    (first <<< 2 ||| second >>> 4) >>> 2 = first :=
  byte_ext fun position below => by grind [bit_of_lt small, bit_of_lt smallSecond]

theorem secondValue (small : second < 64) (smallThird : third < 64) :
    ((first <<< 2 ||| second >>> 4) &&& 0x03) <<< 4 ||| (second <<< 4 ||| third >>> 2) >>> 4 =
      second :=
  byte_ext fun position below => by grind [bit_of_lt small, bit_of_lt smallThird]

theorem secondValue_last (small : second < 64) :
    ((first <<< 2 ||| second >>> 4) &&& 0x03) <<< 4 = second >>> 4 <<< 4 :=
  byte_ext fun position below => by grind [bit_of_lt small]

theorem thirdValue (small : third < 64) (smallFourth : fourth < 64) :
    ((second <<< 4 ||| third >>> 2) &&& 0x0f) <<< 2 ||| (third <<< 6 ||| fourth) >>> 6 =
      third :=
  byte_ext fun position below => by grind [bit_of_lt small, bit_of_lt smallFourth]

theorem thirdValue_last (small : third < 64) :
    ((second <<< 4 ||| third >>> 2) &&& 0x0f) <<< 2 = third >>> 2 <<< 2 :=
  byte_ext fun position below => by grind [bit_of_lt small]

theorem fourthValue (small : fourth < 64) : (third <<< 6 ||| fourth) &&& 0x3f = fourth :=
  byte_ext fun position below => by grind [bit_of_lt small]

end Values

/-! ### Regrouping -/

/-- The six-bit values of a sequence of bytes. -/
def toSextets : List UInt8 → List UInt8
  | first :: second :: third :: rest =>
    first >>> 2 :: ((first &&& 0x03) <<< 4 ||| second >>> 4) ::
      ((second &&& 0x0f) <<< 2 ||| third >>> 6) :: (third &&& 0x3f) :: toSextets rest
  | [first, second] =>
    [first >>> 2, (first &&& 0x03) <<< 4 ||| second >>> 4, (second &&& 0x0f) <<< 2]
  | [first] => [first >>> 2, (first &&& 0x03) <<< 4]
  | [] => []

/-- The bytes of a sequence of six-bit values. -/
def ofSextets : List UInt8 → List UInt8
  | first :: second :: third :: fourth :: rest =>
    (first <<< 2 ||| second >>> 4) :: (second <<< 4 ||| third >>> 2) ::
      (third <<< 6 ||| fourth) :: ofSextets rest
  | [first, second, third] => [first <<< 2 ||| second >>> 4, second <<< 4 ||| third >>> 2]
  | [first, second] => [first <<< 2 ||| second >>> 4]
  | _ => []

/-- How many bits of the last value no byte has room for. -/
def unusedBits (count : ℕ) : UInt8 :=
  if count % 4 = 2 then 4
  else if count % 4 = 3 then 2
  else 0

/-- A sequence of values with the unused bits of the last one cleared. -/
def clearUnused (values : List UInt8) : List UInt8 :=
  values.dropLast ++
    values.getLast?.toList.map fun last =>
      last >>> unusedBits values.length <<< unusedBits values.length

theorem length_toSextets (bytes : List UInt8) :
    (toSextets bytes).length = (bytes.length * 4 + 2) / 3 := by
  induction bytes using toSextets.induct with
  | case1 first second third rest inductionHypothesis =>
    simp only [toSextets, List.length_cons, inductionHypothesis]
    omega
  | case2 first second => simp only [toSextets, List.length_cons, List.length_nil]
  | case3 first => simp only [toSextets, List.length_cons, List.length_nil]
  | case4 => simp only [toSextets, List.length_nil]

theorem toSextets_lt (bytes : List UInt8) : ∀ value ∈ toSextets bytes, value < 64 := by
  induction bytes using toSextets.induct with
  | case1 first second third rest inductionHypothesis =>
    simp only [toSextets, List.forall_mem_cons]
    exact ⟨highSix_lt first, lowTwo_highFour_lt first second, lowFour_highTwo_lt second third,
      lowSix_lt third, inductionHypothesis⟩
  | case2 first second =>
    simp only [toSextets, List.forall_mem_cons]
    exact ⟨highSix_lt first, lowTwo_highFour_lt first second, lowFour_lt second,
      fun _ member => nomatch member⟩
  | case3 first =>
    simp only [toSextets, List.forall_mem_cons]
    exact ⟨highSix_lt first, lowTwo_lt first, fun _ member => nomatch member⟩
  | case4 => exact fun _ member => nomatch member

theorem ofSextets_toSextets (bytes : List UInt8) : ofSextets (toSextets bytes) = bytes := by
  induction bytes using toSextets.induct with
  | case1 first second third rest inductionHypothesis =>
    rw [toSextets, ofSextets, firstByte, secondByte, thirdByte, inductionHypothesis]
  | case2 first second => rw [toSextets, ofSextets, firstByte, secondByte_last]
  | case3 first => rw [toSextets, ofSextets, firstByte_last]
  | case4 => rfl

theorem clearUnused_group (first second third fourth : UInt8) (rest : List UInt8) :
    clearUnused (first :: second :: third :: fourth :: rest) =
      first :: second :: third :: fourth :: clearUnused rest := by
  have unused : unusedBits (rest.length + 4) = unusedBits rest.length := by
    rw [unusedBits, unusedBits, Nat.add_mod_right]
  cases rest with
  | nil => simp [clearUnused, unusedBits]
  | cons next rest =>
    simp only [clearUnused, List.length_cons, List.dropLast_cons_cons,
      List.getLast?_cons_cons] at unused ⊢
    rw [show rest.length + 1 + 1 + 1 + 1 + 1 = rest.length + 1 + 4 from rfl, unused]
    rfl

/-- Going to bytes and back gives the values with the unused bits of the last one cleared, unless
a single value is left over, which is no byte. -/
theorem toSextets_ofSextets (values : List UInt8) (small : ∀ value ∈ values, value < 64)
    (whole : values.length % 4 ≠ 1) : toSextets (ofSextets values) = clearUnused values := by
  induction values using ofSextets.induct with
  | case1 first second third fourth rest inductionHypothesis =>
    simp only [List.forall_mem_cons] at small
    obtain ⟨smallFirst, smallSecond, smallThird, smallFourth, smallRest⟩ := small
    have wholeRest : rest.length % 4 ≠ 1 := by
      simpa only [List.length_cons, Nat.add_assoc, Nat.reduceAdd, Nat.add_mod_right] using whole
    rw [ofSextets, toSextets, firstValue smallFirst smallSecond,
      secondValue smallSecond smallThird, thirdValue smallThird smallFourth,
      fourthValue smallFourth, inductionHypothesis smallRest wholeRest, clearUnused_group]
  | case2 first second third =>
    simp only [List.forall_mem_cons] at small
    obtain ⟨smallFirst, smallSecond, smallThird, -⟩ := small
    rw [ofSextets, toSextets, firstValue smallFirst smallSecond,
      secondValue smallSecond smallThird, thirdValue_last smallThird]
    rfl
  | case3 first second =>
    simp only [List.forall_mem_cons] at small
    obtain ⟨smallFirst, smallSecond, -⟩ := small
    rw [ofSextets, toSextets, firstValue smallFirst smallSecond, secondValue_last smallSecond]
    rfl
  | case4 values notGroup notThree notTwo =>
    match values with
    | [] => rfl
    | [value] => exact absurd rfl whole
    | [first, second] => exact absurd rfl (notTwo first second)
    | [first, second, third] => exact absurd rfl (notThree first second third)
    | first :: second :: third :: fourth :: rest =>
      exact absurd rfl (notGroup first second third fourth rest)

end NativeLibs.Library
