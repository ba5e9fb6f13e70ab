/-
This file is the project's library on the encodings of Unicode in bytes. UTF-8
writes a scalar value in one to four bytes. UTF-16 writes one beyond U+FFFF as
two surrogates, and CESU-8 writes each of the two as UTF-8 writes a number of its
size, in three bytes. Six bytes that hold a high and a low surrogate give the
scalar value back.
-/

import Mathlib.Tactic

namespace NativeLibs.Library

/-! ### Numbers in bytes -/

/-- A number below `0x800` in two bytes. -/
def twoBytes (number : ℕ) : List UInt8 :=
  [UInt8.ofNat (0xc0 + number / 0x40), UInt8.ofNat (0x80 + number % 0x40)]

/-- A number below `0x10000` in three bytes. -/
def threeBytes (number : ℕ) : List UInt8 :=
  [UInt8.ofNat (0xe0 + number / 0x1000), UInt8.ofNat (0x80 + number / 0x40 % 0x40),
    UInt8.ofNat (0x80 + number % 0x40)]

/-- A number below `0x200000` in four bytes. -/
def fourBytes (number : ℕ) : List UInt8 :=
  [UInt8.ofNat (0xf0 + number / 0x40000), UInt8.ofNat (0x80 + number / 0x1000 % 0x40),
    UInt8.ofNat (0x80 + number / 0x40 % 0x40), UInt8.ofNat (0x80 + number % 0x40)]

theorem char_lt (char : Char) : char.toNat < 0x110000 := by
  obtain below | ⟨-, below⟩ : char.toNat < 0xd800 ∨ 0xdfff < char.toNat ∧ char.toNat < 0x110000 :=
    char.valid
  · exact lt_trans below (by decide)
  · exact below

/-- UTF-8 by the size of the scalar value. -/
theorem utf8EncodeChar_eq (char : Char) :
    String.utf8EncodeChar char =
      if char.toNat ≤ 0x7f then [UInt8.ofNat char.toNat]
      else if char.toNat ≤ 0x7ff then twoBytes char.toNat
      else if char.toNat ≤ 0xffff then threeBytes char.toNat
      else fourBytes char.toNat := by
  have inRange := char_lt char
  have last : char.toNat % 0x40 + 0x80 = 0x80 + char.toNat % 0x40 := Nat.add_comm _ _
  have second : char.toNat / 0x40 % 0x40 + 0x80 = 0x80 + char.toNat / 0x40 % 0x40 :=
    Nat.add_comm _ _
  have third : char.toNat / 0x1000 % 0x40 + 0x80 = 0x80 + char.toNat / 0x1000 % 0x40 :=
    Nat.add_comm _ _
  show (if char.toNat ≤ 0x7f then _ else if char.toNat ≤ 0x7ff then _
    else if char.toNat ≤ 0xffff then _ else _) = _
  refine ite_congr rfl (fun _ => rfl) fun _ => ?_
  refine ite_congr rfl (fun two => ?_) fun _ => ite_congr rfl (fun three => ?_) fun _ => ?_
  · have lead : char.toNat / 0x40 % 0x20 + 0xc0 = 0xc0 + char.toNat / 0x40 := by omega
    rw [twoBytes, ← lead, ← last]
    rfl
  · have lead : char.toNat / 0x1000 % 0x10 + 0xe0 = 0xe0 + char.toNat / 0x1000 := by omega
    rw [threeBytes, ← lead, ← second, ← last]
    rfl
  · have lead : char.toNat / 0x40000 % 0x08 + 0xf0 = 0xf0 + char.toNat / 0x40000 := by omega
    rw [fourBytes, ← lead, ← third, ← second, ← last]
    rfl

/-! ### Surrogates -/

/-- The high surrogate of a scalar value beyond `0xffff`. -/
def highSurrogate (scalar : ℕ) : ℕ := 0xd800 + (scalar - 0x10000) / 0x400

/-- The low surrogate of a scalar value beyond `0xffff`. -/
def lowSurrogate (scalar : ℕ) : ℕ := 0xdc00 + (scalar - 0x10000) % 0x400

/-- CESU-8. -/
def cesu8EncodeChar (char : Char) : List UInt8 :=
  if char.toNat ≤ 0xffff then String.utf8EncodeChar char
  else threeBytes (highSurrogate char.toNat) ++ threeBytes (lowSurrogate char.toNat)

/-- The number in three bytes. -/
def ofThreeBytes (first second third : UInt8) : ℕ :=
  (first.toNat - 0xe0) * 0x1000 + (second.toNat - 0x80) * 0x40 + (third.toNat - 0x80)

/-- The scalar value in six bytes that hold a high and a low surrogate. -/
def decodePair : List UInt8 → Option ℕ
  | [high1, high2, high3, low1, low2, low3] =>
    let high := ofThreeBytes high1 high2 high3
    let low := ofThreeBytes low1 low2 low3
    if 0xd800 ≤ high ∧ high < 0xdc00 ∧ 0xdc00 ≤ low ∧ low < 0xe000 then
      some (0x10000 + (high - 0xd800) * 0x400 + (low - 0xdc00))
    else none
  | _ => none

theorem ofThreeBytes_threeBytes {number : ℕ} (inRange : number < 0x10000) :
    ofThreeBytes (UInt8.ofNat (0xe0 + number / 0x1000))
      (UInt8.ofNat (0x80 + number / 0x40 % 0x40)) (UInt8.ofNat (0x80 + number % 0x40)) =
      number := by
  have first : (UInt8.ofNat (0xe0 + number / 0x1000)).toNat = 0xe0 + number / 0x1000 :=
    UInt8.toNat_ofNat_of_lt' (show _ < 256 by omega)
  have second : (UInt8.ofNat (0x80 + number / 0x40 % 0x40)).toNat = 0x80 + number / 0x40 % 0x40 :=
    UInt8.toNat_ofNat_of_lt' (show _ < 256 by omega)
  have third : (UInt8.ofNat (0x80 + number % 0x40)).toNat = 0x80 + number % 0x40 :=
    UInt8.toNat_ofNat_of_lt' (show _ < 256 by omega)
  unfold ofThreeBytes
  omega

theorem decodePair_surrogates {scalar : ℕ} (beyond : 0xffff < scalar)
    (inRange : scalar ≤ 0x10ffff) :
    decodePair (threeBytes (highSurrogate scalar) ++ threeBytes (lowSurrogate scalar)) =
      some scalar := by
  have pair : 0xd800 ≤ highSurrogate scalar ∧ highSurrogate scalar < 0xdc00 ∧
      0xdc00 ≤ lowSurrogate scalar ∧ lowSurrogate scalar < 0xe000 := by
    rw [highSurrogate, lowSurrogate]
    omega
  have back : 0x10000 + (highSurrogate scalar - 0xd800) * 0x400 + (lowSurrogate scalar - 0xdc00) =
      scalar := by
    rw [highSurrogate, lowSurrogate]
    omega
  have high := ofThreeBytes_threeBytes (show highSurrogate scalar < 0x10000 by omega)
  have low := ofThreeBytes_threeBytes (show lowSurrogate scalar < 0x10000 by omega)
  simp only [threeBytes, List.cons_append, List.nil_append, decodePair, high, low, if_pos pair,
    back]

end NativeLibs.Library
