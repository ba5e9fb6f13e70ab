/-
This file models `guid_to_string` and `string_to_guid`. The parser checks the
length of the text and the places of the four dashes once, and then reads through
a pointer without a look at the length. Here a pointer is what is left of the text
from there on, and a read beyond the end is a result of its own.

In the last field a dash is skipped after each byte, and for that the character
after the byte is read. After the last byte this is the closing brace, or it is
beyond the end of a text without braces. A further dash among the last digits leads
there as well. These are the only reads beyond the end.

The functions are for Windows, where an `unsigned long` has 32 bits.
-/

import Mathlib.Data.Vector.Basic
import NativeLibs.Text.Bytes

namespace NativeLibs.Guids

/-! ### Reading -/

/-- What a function that reads memory comes to. -/
inductive Reading (Value : Type*) where
  | outside
  | failed
  | value (value : Value)
  deriving DecidableEq

namespace Reading

variable {Value Result : Type*}

/-- The function goes on with a value that was read. -/
def andThen (reading : Reading Value) (next : Value → Reading Result) : Reading Result :=
  match reading with
  | .outside => .outside
  | .failed => .failed
  | .value given => next given

@[simp] theorem outside_andThen (next : Value → Reading Result) : outside.andThen next = outside :=
  rfl

@[simp] theorem failed_andThen (next : Value → Reading Result) : failed.andThen next = failed :=
  rfl

@[simp] theorem value_andThen (given : Value) (next : Value → Reading Result) :
    (value given).andThen next = next given :=
  rfl

end Reading

/-- `'-'`. -/
def dash : UInt8 := 45

/-- A hexadecimal digit. -/
def isHex (byte : UInt8) : Bool := (digitValue 16 byte).isSome

/-- `to_integer` of so many characters behind a pointer, for an unsigned type of `width` bits.
`from_chars` stops at the first character that is no digit. -/
def readField (pointer : Bytes) (count width : ℕ) : Reading ℕ :=
  let field := pointer.take count
  if field.length < count ∧ field.all isHex then .outside
  else
    match toInteger width field 16 with
    | none => .failed
    | some value => .value value

/-! ### GUIDs -/

/-- `GUID`. -/
structure Guid where
  data1 : UInt32
  data2 : UInt16
  data3 : UInt16
  data4 : List.Vector UInt8 8
  deriving DecidableEq

/-- The digit `fmt` prints for a value below 16 as in `{:x}`. -/
def lowerDigit (digit : ℕ) : UInt8 :=
  if digit < 10 then UInt8.ofNat (48 + digit) else UInt8.ofNat (87 + digit)

/-- A number of at most `width` digits as `fmt` prints it with leading zeros. -/
def hexField (width number : ℕ) : Bytes := digitField 16 lowerDigit width number

/-- Bytes of two digits each. -/
def hexBytes (bytes : Bytes) : Bytes := bytes.flatMap fun byte => hexField 2 byte.toNat

/-- A text in braces. -/
def braced (text : Bytes) : Bytes := 123 :: (text ++ [125])

/-- `guid_to_string`. -/
def guidToString (guid : Guid) : Bytes :=
  braced (hexField 8 guid.data1.toNat ++ dash :: (hexField 4 guid.data2.toNat ++
    dash :: (hexField 4 guid.data3.toNat ++ dash :: (hexBytes (guid.data4.toList.take 2) ++
      dash :: hexBytes (guid.data4.toList.drop 2)))))

/-- The loop over `Data4`. -/
def readData4 : (count : ℕ) → Bytes → Reading (List.Vector UInt8 count)
  | 0, _ => .value .nil
  | count + 1, pointer =>
    (readField pointer 2 8).andThen fun byte =>
      match pointer.drop 2 with
      | [] => .outside
      | next :: rest =>
        -- the dash is skipped wherever it is
        (readData4 count (if next = dash then rest else next :: rest)).andThen fun bytes =>
          .value (UInt8.ofNat byte ::ᵥ bytes)

/-- The fields behind a pointer, after the check of the dashes. -/
def readFields (pointer : Bytes) : Reading Guid :=
  (readField pointer 8 32).andThen fun data1 =>
    (readField (pointer.drop 9) 4 16).andThen fun data2 =>
      (readField (pointer.drop 14) 4 16).andThen fun data3 =>
        (readData4 8 (pointer.drop 19)).andThen fun data4 =>
          .value ⟨UInt32.ofNat data1, UInt16.ofNat data2, UInt16.ofNat data3, data4⟩

/-- The check of the dashes in a view, and the fields. -/
def readView (pointer : Bytes) (size : ℕ) : Reading Guid :=
  if size ≠ 36 ∨ pointer[8]? ≠ some dash ∨ pointer[13]? ≠ some dash ∨
      pointer[18]? ≠ some dash ∨ pointer[23]? ≠ some dash then .failed
  else readFields pointer

/-- `string_to_guid`. Without the braces the closing brace is still behind the pointer. -/
def stringToGuid (guidStr : Bytes) : Reading Guid :=
  if guidStr = [] then .failed
  else if guidStr.length = 38 ∧ guidStr[0]? = some 123 ∧ guidStr[37]? = some 125 then
    readView (guidStr.drop 1) 36
  else readView guidStr guidStr.length

/-! ### Digits -/

theorem digitValue_lt {byte : UInt8} {digit : ℕ} (value : digitValue 16 byte = some digit) :
    digit < 16 := by
  rw [digitValue, Option.filter_eq_some_iff] at value
  exact of_decide_eq_true value.2

theorem digitsValue_lt (digits : Bytes) : digitsValue 16 digits < 16 ^ digits.length := by
  induction digits using List.reverseRecOn with
  | nil => decide
  | append_singleton digits last inductionHypothesis =>
    have small : (digitValue 16 last).getD 0 < 16 := by
      cases value : digitValue 16 last with
      | none => decide
      | some digit => exact digitValue_lt value
    rw [digitsValue_append_singleton, List.length_append, List.length_singleton, pow_succ]
    omega

/-- `{:x}` prints a digit in lower case. -/
theorem lowerDigit_digitValue {byte : UInt8} {digit : ℕ} (value : digitValue 16 byte = some digit) :
    lowerDigit digit = toLower byte := by
  have all : ∀ byte, ∀ digit ∈ digitValue 16 byte, lowerDigit digit = toLower byte :=
    forall_byte (by decide +kernel)
  exact all byte digit value

theorem digitValue_lowerDigit {digit : ℕ} (small : digit < 16) :
    digitValue 16 (lowerDigit digit) = some digit := by
  have all : ∀ digit < 16, digitValue 16 (lowerDigit digit) = some digit := by decide
  exact all digit small

theorem length_hexField (width number : ℕ) : (hexField width number).length = width :=
  length_digitField 16 lowerDigit width number

theorem isHex_hexField (width number : ℕ) : (hexField width number).all isHex = true := by
  refine List.all_eq_true.mpr fun byte member => ?_
  obtain ⟨digit, small, rfl⟩ := mem_digitField (by decide) member
  rw [isHex, digitValue_lowerDigit small, Option.isSome_some]

theorem digitsValue_hexField {width number : ℕ} (fits : number < 16 ^ width) :
    digitsValue 16 (hexField width number) = number := by
  induction width generalizing number with
  | zero => exact (Nat.lt_one_iff.mp fits).symm
  | succ width inductionHypothesis =>
    have front : number / 16 < 16 ^ width := Nat.div_lt_of_lt_mul (by rwa [mul_comm, ← pow_succ])
    rw [hexField, digitField, digitsValue_append_singleton,
      digitValue_lowerDigit (Nat.mod_lt _ (by decide)), Option.getD_some, ← hexField,
      inductionHypothesis front, Nat.div_add_mod']

theorem hexField_digitsValue {digits : Bytes} (hex : digits.all isHex = true) :
    hexField digits.length (digitsValue 16 digits) = digits.map toLower := by
  induction digits using List.reverseRecOn with
  | nil => rfl
  | append_singleton digits last inductionHypothesis =>
    rw [List.all_append, Bool.and_eq_true, List.all_cons, List.all_nil, Bool.and_true] at hex
    obtain ⟨digit, value⟩ := Option.isSome_iff_exists.mp hex.2
    have small := digitValue_lt value
    have front : (digitsValue 16 digits * 16 + digit) / 16 = digitsValue 16 digits := by omega
    have back : (digitsValue 16 digits * 16 + digit) % 16 = digit := by omega
    rw [digitsValue_append_singleton, value, Option.getD_some, List.length_append,
      List.length_singleton, hexField, digitField, front, back, ← hexField,
      inductionHypothesis hex.1, lowerDigit_digitValue value, List.map_append, List.map_singleton]

/-! ### Reading fields -/

theorem toInteger_eq_none {width : ℕ} {field : Bytes} (other : ¬field.all isHex = true) :
    toInteger width field 16 = none := by
  cases read : toInteger width field 16 with
  | none => rfl
  | some value => exact absurd (List.all_eq_true.mpr (digits_of_toInteger read)) other

theorem readField_append {field : Bytes} (nonempty : field ≠ []) (rest : Bytes) {width : ℕ}
    (fits : 4 * field.length ≤ width) :
    readField (field ++ rest) field.length width =
      if field.all isHex then .value (digitsValue 16 field) else .failed := by
  rw [readField, List.take_left, if_neg fun short => lt_irrefl _ short.1]
  by_cases hex : field.all isHex = true
  · have small : digitsValue 16 field < 2 ^ width :=
      calc digitsValue 16 field < 16 ^ field.length := digitsValue_lt field
        _ = 2 ^ (4 * field.length) := by rw [pow_mul]; rfl
        _ ≤ 2 ^ width := Nat.pow_le_pow_right (by decide) fits
    rw [if_pos hex, toInteger_of_digits width field 16 nonempty (List.all_eq_true.mp hex),
      if_pos small]
  · rw [if_neg hex, toInteger_eq_none hex]

theorem readField_short {pointer : Bytes} {count : ℕ} (short : pointer.length < count)
    (width : ℕ) :
    readField pointer count width = if pointer.all isHex then .outside else .failed := by
  rw [readField, List.take_of_length_le short.le]
  by_cases hex : pointer.all isHex = true
  · rw [if_pos ⟨short, hex⟩, if_pos hex]
  · rw [if_neg fun both => hex both.2, if_neg hex, toInteger_eq_none hex]

theorem readField_pair (first second : UInt8) (rest : Bytes) :
    readField (first :: second :: rest) 2 8 =
      if isHex first && isHex second then .value (digitsValue 16 [first, second])
      else .failed := by
  have fits : 4 * [first, second].length ≤ 8 := le_rfl
  have whole := readField_append (List.cons_ne_nil first [second]) rest fits
  rw [List.all_cons, List.all_cons, List.all_nil, Bool.and_true] at whole
  exact whole

/-- The bytes that pairs of digits stand for. -/
def pairBytes : (count : ℕ) → Bytes → List.Vector UInt8 count
  | 0, _ => .nil
  | count + 1, digits =>
    UInt8.ofNat (digitsValue 16 (digits.take 2)) ::ᵥ pairBytes count (digits.drop 2)

theorem not_isHex_dash : isHex dash = false := by decide

theorem readData4_cons (count : ℕ) (first second next : UInt8) (rest : Bytes) :
    readData4 (count + 1) (first :: second :: next :: rest) =
      if isHex first && isHex second then
        (readData4 count (if next = dash then rest else next :: rest)).andThen fun bytes =>
          .value (UInt8.ofNat (digitsValue 16 [first, second]) ::ᵥ bytes)
      else .failed := by
  rw [readData4, readField_pair]
  split
  · rfl
  · rfl

/-- The digits of so many bytes and nothing else. -/
def AllPairs (count : ℕ) (digits : Bytes) : Prop := digits.length = 2 * count ∧ digits.all isHex

instance (count : ℕ) (digits : Bytes) : Decidable (AllPairs count digits) :=
  inferInstanceAs (Decidable (_ ∧ _))

theorem allPairs_cons_iff (count : ℕ) (first second : UInt8) (rest : Bytes) :
    AllPairs (count + 1) (first :: second :: rest) ↔
      (isHex first && isHex second) = true ∧ AllPairs count rest := by
  rw [AllPairs, AllPairs, List.length_cons, List.length_cons, List.all_cons, List.all_cons,
    ← Bool.and_assoc, Bool.and_eq_true]
  constructor
  · rintro ⟨length, pair, others⟩
    exact ⟨pair, by omega, others⟩
  · rintro ⟨pair, length, others⟩
    exact ⟨by omega, pair, others⟩

theorem not_allPairs_of_dash {count : ℕ} {rest : Bytes} (room : rest.length < 2 * count) :
    ¬AllPairs count rest ∧ ¬AllPairs count (dash :: rest) := by
  refine ⟨fun pairs => absurd pairs.1 room.ne, fun pairs => ?_⟩
  have digit := pairs.2
  rw [List.all_cons, not_isHex_dash] at digit
  exact absurd digit Bool.false_ne_true

/-- In front of a closing brace the loop reads as many pairs of digits as it should, and nothing
else. -/
theorem readData4_closed {count : ℕ} {tail : Bytes} (short : tail.length ≤ 2 * count) :
    readData4 count (tail ++ [125]) =
      if AllPairs count tail then .value (pairBytes count tail) else .failed := by
  induction count generalizing tail with
  | zero =>
    obtain rfl := List.eq_nil_of_length_eq_zero (Nat.le_zero.mp short)
    rfl
  | succ count inductionHypothesis =>
    rcases tail with _ | ⟨first, _ | ⟨second, rest⟩⟩
    · rfl
    · rw [if_neg fun pairs => absurd pairs.1 (by rw [List.length_singleton]; omega), readData4]
      show (readField [first, 125] 2 8).andThen _ = _
      rw [readField_pair, show isHex 125 = false from rfl, Bool.and_false]
      rfl
    · have room : rest.length ≤ 2 * count := by
        rw [List.length_cons, List.length_cons] at short
        omega
      obtain ⟨next, more, split⟩ := List.exists_cons_of_ne_nil
        (List.append_ne_nil_of_right_ne_nil rest (List.cons_ne_nil 125 []))
      have later : readData4 count (if next = dash then more else next :: more) =
          if AllPairs count rest then .value (pairBytes count rest) else .failed := by
        by_cases skipped : next = dash
        · subst skipped
          cases rest with
          | nil => exact absurd (List.cons.inj split).1 (by decide)
          | cons byte others =>
            rw [List.cons_append] at split
            obtain ⟨rfl, rfl⟩ := List.cons.inj split
            obtain ⟨tooFew, noDigit⟩ := not_allPairs_of_dash (Nat.lt_of_succ_le room)
            rw [if_pos rfl, inductionHypothesis (Nat.le_of_succ_le room), if_neg tooFew,
              if_neg noDigit]
        · rw [if_neg skipped, ← split, inductionHypothesis room]
      rw [List.cons_append, List.cons_append, split, readData4_cons, later]
      have pairs := allPairs_cons_iff count first second rest
      by_cases both : (isHex first && isHex second) = true
      · rw [if_pos both]
        by_cases others : AllPairs count rest
        · rw [if_pos others, if_pos (pairs.mpr ⟨both, others⟩)]
          rfl
        · rw [if_neg others, if_neg fun all => others (pairs.mp all).2]
          rfl
      · rw [if_neg both, if_neg fun all => both (pairs.mp all).1]

/-- Pairs of digits with at most one dash after each of them, and perhaps one more digit. -/
def runsOut : Bytes → Bool
  | [] => true
  | [last] => isHex last
  | [first, second] => isHex first && isHex second
  | first :: second :: next :: rest =>
    isHex first && isHex second && if next = dash then runsOut rest else runsOut (next :: rest)

theorem readData4_single (count : ℕ) (last : UInt8) :
    readData4 (count + 1) [last] = if runsOut [last] then .outside else .failed := by
  rw [readData4, readField_short (Nat.lt_succ_self 1), List.all_cons, List.all_nil, Bool.and_true,
    runsOut]
  cases isHex last with
  | true => rfl
  | false => rfl

theorem readData4_lastPair (count : ℕ) (first second : UInt8) :
    readData4 (count + 1) [first, second] =
      if runsOut [first, second] then .outside else .failed := by
  rw [readData4, readField_pair, runsOut]
  cases isHex first && isHex second with
  | true => rfl
  | false => rfl

/-- At the end of the text the loop reads beyond the end exactly if everything up to the end can be
read. -/
theorem readData4_open {count : ℕ} {tail : Bytes} (short : tail.length ≤ 2 * (count + 1)) :
    readData4 (count + 1) tail = if runsOut tail then .outside else .failed := by
  induction count generalizing tail with
  | zero =>
    rcases tail with _ | ⟨first, _ | ⟨second, _ | ⟨next, rest⟩⟩⟩
    · rfl
    · exact readData4_single 0 first
    · exact readData4_lastPair 0 first second
    · rw [List.length_cons, List.length_cons, List.length_cons] at short
      omega
  | succ count inductionHypothesis =>
    rcases tail with _ | ⟨first, _ | ⟨second, _ | ⟨next, rest⟩⟩⟩
    · rfl
    · exact readData4_single (count + 1) first
    · exact readData4_lastPair (count + 1) first second
    · rw [List.length_cons, List.length_cons, List.length_cons] at short
      have later : readData4 (count + 1) (if next = dash then rest else next :: rest) =
          if (if next = dash then runsOut rest else runsOut (next :: rest)) then .outside
          else .failed := by
        by_cases skipped : next = dash
        · rw [if_pos skipped, if_pos skipped, inductionHypothesis (by omega)]
        · rw [if_neg skipped, if_neg skipped,
            inductionHypothesis (by rw [List.length_cons]; omega)]
      rw [readData4_cons, later, runsOut]
      cases isHex first && isHex second with
      | false => rfl
      | true =>
        rw [Bool.true_and, if_pos rfl]
        generalize (if next = dash then runsOut rest else runsOut (next :: rest)) = out
        cases out with
        | true => rfl
        | false => rfl

theorem runsOut_of_isHex {digits : Bytes} (hex : digits.all isHex = true) :
    runsOut digits = true := by
  induction digits using runsOut.induct with
  | case1 => rfl
  | case2 last => rwa [List.all_cons, List.all_nil, Bool.and_true] at hex
  | case3 first second => rwa [List.all_cons, List.all_cons, List.all_nil, Bool.and_true] at hex
  | case4 first second next rest _ kept =>
    rw [List.all_cons, List.all_cons, ← Bool.and_assoc, Bool.and_eq_true] at hex
    have digit : next ≠ dash := by
      rintro rfl
      rw [List.all_cons, not_isHex_dash] at hex
      exact absurd hex.2 Bool.false_ne_true
    rw [runsOut, hex.1, if_neg digit, kept hex.2]
    rfl

end NativeLibs.Guids
