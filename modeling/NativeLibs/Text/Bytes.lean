/-
This file models the byte strings the library works on and the small text
helpers of `common/utils.h` that the protocol code relies on: the comparison
and the search that ignore ASCII case, the conversion of a numeral to an
unsigned integer, and the numerals `fmt` prints. A `std::string`, a
`std::string_view` and a `Uint8View` are all lists of bytes here.
-/

import Mathlib.Data.List.TakeWhile
import Mathlib.Data.Nat.Digits.Lemmas
import Mathlib.Tactic

namespace NativeLibs

/-! ### Byte strings -/

/-- The contents of a `std::string`, a `std::string_view` or a `Uint8View`. -/
abbrev Bytes := List UInt8

/-- A byte is one of 256 numbers, so what holds of each of them holds of every byte. -/
theorem forall_byte {P : UInt8 → Prop} (all : ∀ value < 256, P (UInt8.ofNat value))
    (byte : UInt8) : P byte := by
  have here := all byte.toNat byte.toNat_lt
  rwa [UInt8.ofNat_toNat] at here

/-- A string literal of the source. Literals are ASCII, so one character is one byte. -/
def ascii (literal : String) : Bytes := literal.toList.map fun char => UInt8.ofNat char.toNat

/-- `"\r\n"`. -/
def crlf : Bytes := [13, 10]

/-- `std::tolower` in the "C" locale: only the ASCII capitals change. -/
def toLower (byte : UInt8) : UInt8 := if 65 ≤ byte ∧ byte ≤ 90 then byte + 32 else byte

/-- `utils::iequals`. -/
def iequals (lhs rhs : Bytes) : Bool := lhs.map toLower == rhs.map toLower

/-- The two nested loops of `utils::ifind`, over the part of the haystack from `pos` on. -/
def ifindLoop (first : UInt8) (needle : Bytes) : Nat → Bytes → Option Nat
  | _, [] => none
  | pos, byte :: rest =>
    if (byte :: rest).length < needle.length then none
    else if toLower byte ≠ first then ifindLoop first needle (pos + 1) rest
    else if iequals (rest.take (needle.length - 1)) needle.tail then some pos
    else ifindLoop first needle (pos + 1) rest

/-- `utils::ifind`; `none` is `std::string_view::npos`. -/
def ifind (haystack needle : Bytes) : Option Nat :=
  match needle with
  | [] => some 0
  | front :: _ => ifindLoop (toLower front) needle 0 haystack

/-! ### Reading a numeral -/

/-- The value of one digit of `std::from_chars`, if the byte is a digit in this base. -/
def digitValue (base : Nat) (byte : UInt8) : Option Nat :=
  let value :=
    if 48 ≤ byte ∧ byte ≤ 57 then some (byte.toNat - 48)
    else if 97 ≤ byte ∧ byte ≤ 122 then some (byte.toNat - 87)
    else if 65 ≤ byte ∧ byte ≤ 90 then some (byte.toNat - 55)
    else none
  value.filter (· < base)

/-- The number a run of digits stands for, most significant digit first. -/
def digitsValue (base : Nat) (digits : Bytes) : Nat :=
  digits.foldl (fun value byte => value * base + (digitValue base byte).getD 0) 0

/-- The `ec` member of a `std::from_chars_result`. -/
inductive Errc where
  | ok
  | invalidArgument
  | resultOutOfRange
  deriving DecidableEq

/-- What `std::from_chars` reports: how many bytes it consumed, the error code, and the
number, which it writes only when there is no error. -/
structure FromCharsResult where
  consumed : Nat
  ec : Errc
  value : Nat

/-- `std::from_chars` for an unsigned type of `width` bits. It takes the longest run of
digits, and takes no sign and no blank. -/
def fromChars (width : Nat) (str : Bytes) (base : Nat) : FromCharsResult :=
  let digits := str.takeWhile fun byte => (digitValue base byte).isSome
  let value := digitsValue base digits
  if digits = [] then ⟨0, .invalidArgument, 0⟩
  else if value < 2 ^ width then ⟨digits.length, .ok, value⟩
  else ⟨digits.length, .resultOutOfRange, 0⟩

/-- `utils::to_integer` for an unsigned type of `width` bits. -/
def toInteger (width : Nat) (str : Bytes) (base : Nat) : Option Nat :=
  let result := fromChars width str base
  if result.consumed = str.length ∧ result.ec = .ok then some result.value else none

theorem toInteger_of_digits (width : Nat) (str : Bytes) (base : Nat) (nonempty : str ≠ [])
    (digits : ∀ byte ∈ str, (digitValue base byte).isSome) :
    toInteger width str base =
      if digitsValue base str < 2 ^ width then some (digitsValue base str) else none := by
  have whole : (str.takeWhile fun byte => (digitValue base byte).isSome) = str :=
    List.takeWhile_eq_self_iff.mpr digits
  simp only [toInteger, fromChars, whole, if_neg nonempty]
  by_cases fits : digitsValue base str < 2 ^ width
  · simp [fits]
  · simp [fits]

theorem digits_of_toInteger {width : Nat} {str : Bytes} {base value : Nat}
    (read : toInteger width str base = some value) :
    ∀ byte ∈ str, (digitValue base byte).isSome := by
  have whole : (fromChars width str base).consumed = str.length := by
    by_contra short
    simp only [toInteger, short, false_and, if_false, reduceCtorEq] at read
  have consumed : (fromChars width str base).consumed =
      (str.takeWhile fun byte => (digitValue base byte).isSome).length := by
    simp only [fromChars]
    split_ifs with empty
    · rw [empty, List.length_nil]
    · rfl
    · rfl
  have front := List.takeWhile_prefix (l := str) fun byte => (digitValue base byte).isSome
  exact List.takeWhile_eq_self_iff.mp (front.eq_of_length (consumed.symm.trans whole))

/-! ### Printing a numeral -/

/-- The digit `fmt` prints for a value below 16, upper case as in `{:X}`. -/
def digitChar (digit : Nat) : UInt8 :=
  if digit < 10 then UInt8.ofNat (48 + digit) else UInt8.ofNat (55 + digit)

/-- A natural number as `fmt` prints it in a base of at most 16. -/
def formatNat (base number : Nat) : Bytes :=
  if number = 0 then [48] else ((Nat.digits base number).map digitChar).reverse

/-- An `int` as `fmt` prints it with `{}`. -/
def formatInt : Int → Bytes
  | .ofNat number => formatNat 10 number
  | .negSucc number => 45 :: formatNat 10 (number + 1)

/-- The last so many digits of a number, printed with leading zeros. -/
def digitField (base : Nat) (print : Nat → UInt8) : Nat → Nat → Bytes
  | 0, _ => []
  | width + 1, number =>
    digitField base print width (number / base) ++ [print (number % base)]

theorem length_digitField (base : Nat) (print : Nat → UInt8) (width number : Nat) :
    (digitField base print width number).length = width := by
  induction width generalizing number with
  | zero => rfl
  | succ width inductionHypothesis =>
    rw [digitField, List.length_append, inductionHypothesis, List.length_singleton]

/-- Nothing but digits is printed. -/
theorem mem_digitField {base : Nat} (positive : 0 < base) {print : Nat → UInt8}
    {width number : Nat} {byte : UInt8} (member : byte ∈ digitField base print width number) :
    ∃ digit < base, byte = print digit := by
  induction width generalizing number with
  | zero => cases member
  | succ width inductionHypothesis =>
    rcases List.mem_append.mp member with front | last
    · exact inductionHypothesis front
    · exact ⟨_, Nat.mod_lt number positive, List.mem_singleton.mp last⟩

theorem digitValue_digitChar (base digit : Nat) (small : base ≤ 16) (below : digit < base) :
    digitValue base (digitChar digit) = some digit := by
  have cases16 : ∀ value < 16, digitValue 16 (digitChar value) = some value := by decide
  have value16 := cases16 digit (by omega)
  unfold digitValue at value16 ⊢
  simp only [Option.filter_eq_some_iff, decide_eq_true_eq] at value16 ⊢
  exact ⟨value16.1, below⟩

theorem digitsValue_append_singleton (base : Nat) (digits : Bytes) (last : UInt8) :
    digitsValue base (digits ++ [last]) =
      digitsValue base digits * base + (digitValue base last).getD 0 := by
  simp [digitsValue]

/-- Reading a printed run of digits gives back the number whose digits they are. -/
theorem digitsValue_map_digitChar (base : Nat) (small : base ≤ 16) (digits : List Nat)
    (below : ∀ digit ∈ digits, digit < base) :
    digitsValue base (digits.map digitChar).reverse = Nat.ofDigits base digits := by
  induction digits with
  | nil => rfl
  | cons digit rest inductionHypothesis =>
    rw [List.map_cons, List.reverse_cons, digitsValue_append_singleton,
      inductionHypothesis fun other member => below other (List.mem_cons_of_mem _ member),
      digitValue_digitChar base digit small (below digit List.mem_cons_self),
      Nat.ofDigits_cons, Option.getD_some]
    ring

theorem formatNat_ne_nil (base number : Nat) : formatNat base number ≠ [] := by
  unfold formatNat
  split
  · exact List.cons_ne_nil _ _
  · rename_i positive
    simpa [Nat.digits_eq_nil_iff_eq_zero] using positive

theorem formatNat_digits (base number : Nat) (two : 2 ≤ base) (small : base ≤ 16) (byte : UInt8)
    (member : byte ∈ formatNat base number) : (digitValue base byte).isSome := by
  unfold formatNat at member
  split at member
  · rw [List.mem_singleton.mp member, show (48 : UInt8) = digitChar 0 from rfl,
      digitValue_digitChar base 0 small (by omega)]
    rfl
  · rw [List.mem_reverse, List.mem_map] at member
    obtain ⟨digit, digitMember, rfl⟩ := member
    rw [digitValue_digitChar base digit small (Nat.digits_lt_base two digitMember)]
    rfl

theorem digitsValue_formatNat (base number : Nat) (two : 2 ≤ base) (small : base ≤ 16) :
    digitsValue base (formatNat base number) = number := by
  unfold formatNat
  split
  · rename_i zero
    rw [zero, show ([48] : Bytes) = (([0] : List Nat).map digitChar).reverse from rfl,
      digitsValue_map_digitChar base small [0] (by simp; omega)]
    simp
  · rw [digitsValue_map_digitChar base small _ fun digit member =>
      Nat.digits_lt_base two member, Nat.ofDigits_digits]

/-- `to_integer` reads back the decimal `fmt` prints, unless the number does not fit. -/
theorem toInteger_formatNat (width number : Nat) :
    toInteger width (formatNat 10 number) 10 =
      if number < 2 ^ width then some number else none := by
  rw [toInteger_of_digits width _ 10 (formatNat_ne_nil 10 number)
      (formatNat_digits 10 number (by decide) (by decide)),
    digitsValue_formatNat 10 number (by decide) (by decide)]

end NativeLibs
