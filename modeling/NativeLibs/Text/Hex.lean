/-
This file models `utils::encode_to_hex` and `utils::decode_hex`. Encoding reads the
two halves of each byte from a table. Decoding takes two characters at a time; at
the first one that is no digit it returns nothing at all, also of what was decoded
before. Both directions of the round trip are shown pair by pair.
-/

import NativeLibs.Text.Bytes

namespace NativeLibs.Hex

/-! ### Encoding and decoding -/

/-- `TABLE` of `encode_to_hex`. -/
def table : Bytes := ascii "0123456789abcdef"

theorem nibbles_lt (x : UInt8) :
    (x >>> 4).toNat < table.length ∧ (x &&& 0x0f).toNat < table.length := by
  revert x
  exact forall_byte (by decide +kernel)

/-- The two characters of a byte. -/
def hexPair (x : UInt8) : Bytes :=
  [table.get ⟨(x >>> 4).toNat, (nibbles_lt x).1⟩, table.get ⟨(x &&& 0x0f).toNat, (nibbles_lt x).2⟩]

/-- `utils::encode_to_hex`. -/
def encodeToHex (data : Bytes) : Bytes := data.flatMap hexPair

/-- `parse_hex_char`. -/
def parseHexChar (c : UInt8) : ℤ :=
  if 48 ≤ c ∧ c ≤ 57 then c.toNat - 0x30
  else if 97 ≤ c ∧ c ≤ 102 then c.toNat - 0x57
  else if 65 ≤ c ∧ c ≤ 70 then c.toNat - 0x37
  else -1

/-- The loop of `decode_hex`. The length of the string is even, so it does not end with half a
pair. -/
def decodeLoop : Bytes → Bytes → Bytes
  | first :: second :: rest, result =>
    let hi := parseHexChar first
    let lo := parseHexChar second
    if hi < 0 ∨ lo < 0 then []
    else decodeLoop rest (result ++ [UInt8.ofNat (hi.toNat <<< 4 ||| lo.toNat)])
  | _, result => result

/-- `utils::decode_hex`. -/
def decodeHex (hex : Bytes) : Bytes :=
  if hex.length &&& 1 ≠ 0 then [] else decodeLoop hex []

/-! ### One pair -/

/-- A hexadecimal digit, of either case. -/
def isHexDigit (c : UInt8) : Bool :=
  48 ≤ c && c ≤ 57 || 97 ≤ c && c ≤ 102 || 65 ≤ c && c ≤ 70

theorem parseHexChar_neg_iff (c : UInt8) : parseHexChar c < 0 ↔ isHexDigit c = false := by
  revert c
  exact forall_byte (by decide +kernel)

theorem pair_neg_iff (first second : UInt8) :
    (parseHexChar first < 0 ∨ parseHexChar second < 0) ↔
      ¬(isHexDigit first = true ∧ isHexDigit second = true) := by
  rw [parseHexChar_neg_iff, parseHexChar_neg_iff, not_and_or, Bool.not_eq_true, Bool.not_eq_true]

theorem parseHexChar_get (nibble : Fin table.length) :
    isHexDigit (table.get nibble) = true ∧ (parseHexChar (table.get nibble)).toNat = nibble := by
  have all : ∀ nibble : Fin table.length, isHexDigit (table.get nibble) = true ∧
      (parseHexChar (table.get nibble)).toNat = nibble := by decide +kernel
  exact all nibble

/-- A digit stands for the place at which the table has it in lower case. -/
theorem get_parseHexChar {c : UInt8} (digit : isHexDigit c = true) :
    ∃ nibble : Fin table.length, (parseHexChar c).toNat = nibble ∧
      table.get nibble = toLower c := by
  have all : ∀ c, isHexDigit c = true → ∃ nibble : Fin table.length,
      (parseHexChar c).toNat = nibble ∧ table.get nibble = toLower c :=
    forall_byte (by decide +kernel)
  exact all c digit

theorem ofNat_nibbles (x : UInt8) :
    UInt8.ofNat ((x >>> 4).toNat <<< 4 ||| (x &&& 0x0f).toNat) = x := by
  revert x
  exact forall_byte (by decide +kernel)

theorem nibbles_ofNat (hi lo : Fin table.length) :
    (UInt8.ofNat (hi.val <<< 4 ||| lo.val) >>> 4).toNat = hi ∧
      (UInt8.ofNat (hi.val <<< 4 ||| lo.val) &&& 0x0f).toNat = lo := by
  have all : ∀ hi < 16, ∀ lo < 16, (UInt8.ofNat (hi <<< 4 ||| lo) >>> 4).toNat = hi ∧
      (UInt8.ofNat (hi <<< 4 ||| lo) &&& 0x0f).toNat = lo := by decide +kernel
  exact all hi hi.isLt lo lo.isLt

theorem decode_hexPair (x : UInt8) :
    ∃ first second, hexPair x = [first, second] ∧ isHexDigit first = true ∧
      isHexDigit second = true ∧
      UInt8.ofNat ((parseHexChar first).toNat <<< 4 ||| (parseHexChar second).toNat) = x := by
  obtain ⟨firstDigit, hi⟩ := parseHexChar_get ⟨(x >>> 4).toNat, (nibbles_lt x).1⟩
  obtain ⟨secondDigit, lo⟩ := parseHexChar_get ⟨(x &&& 0x0f).toNat, (nibbles_lt x).2⟩
  refine ⟨_, _, rfl, firstDigit, secondDigit, ?_⟩
  rw [hi, lo]
  exact ofNat_nibbles x

theorem hexPair_decode {first second : UInt8} (firstDigit : isHexDigit first = true)
    (secondDigit : isHexDigit second = true) :
    hexPair (UInt8.ofNat ((parseHexChar first).toNat <<< 4 ||| (parseHexChar second).toNat)) =
      [toLower first, toLower second] := by
  obtain ⟨hi, firstValue, firstLower⟩ := get_parseHexChar firstDigit
  obtain ⟨lo, secondValue, secondLower⟩ := get_parseHexChar secondDigit
  obtain ⟨high, low⟩ := nibbles_ofNat hi lo
  rw [firstValue, secondValue, ← firstLower, ← secondLower, hexPair]
  simp only [high, low]

/-! ### The round trips -/

theorem decodeLoop_encodeToHex (data result : Bytes) :
    decodeLoop (encodeToHex data) result = result ++ data := by
  induction data generalizing result with
  | nil => exact (List.append_nil result).symm
  | cons x data inductionHypothesis =>
    obtain ⟨first, second, pair, firstDigit, secondDigit, value⟩ := decode_hexPair x
    have digits : ¬(parseHexChar first < 0 ∨ parseHexChar second < 0) := by
      rw [pair_neg_iff, not_not]
      exact ⟨firstDigit, secondDigit⟩
    rw [encodeToHex, List.flatMap_cons, pair, ← encodeToHex, List.cons_append, List.cons_append,
      List.nil_append, decodeLoop, if_neg digits, value, inductionHypothesis, List.append_assoc,
      List.singleton_append]

theorem length_encodeToHex (data : Bytes) : (encodeToHex data).length = 2 * data.length := by
  induction data with
  | nil => rfl
  | cons x data inductionHypothesis =>
    rw [encodeToHex, List.flatMap_cons, List.length_append, ← encodeToHex, inductionHypothesis,
      List.length_cons]
    show 2 + 2 * data.length = 2 * (data.length + 1)
    omega

theorem decodeLoop_of_digits (hex result : Bytes) (even : hex.length % 2 = 0)
    (digits : hex.all isHexDigit = true) :
    ∃ data, decodeLoop hex result = result ++ data ∧ encodeToHex data = hex.map toLower := by
  fun_induction decodeLoop hex result with
  | case1 first second rest result hi lo given =>
    rw [List.all_cons, List.all_cons, Bool.and_eq_true, Bool.and_eq_true] at digits
    exact absurd ⟨digits.1, digits.2.1⟩ ((pair_neg_iff first second).mp given)
  | case2 first second rest result hi lo taken inductionHypothesis =>
    rw [List.all_cons, List.all_cons, Bool.and_eq_true, Bool.and_eq_true] at digits
    rw [List.length_cons, List.length_cons, Nat.add_assoc, Nat.add_mod_right] at even
    obtain ⟨data, decoded, encoded⟩ := inductionHypothesis even digits.2.2
    refine ⟨UInt8.ofNat (hi.toNat <<< 4 ||| lo.toNat) :: data, ?_, ?_⟩
    · rw [decoded, List.append_assoc, List.singleton_append]
    · rw [encodeToHex, List.flatMap_cons, ← encodeToHex, encoded,
        hexPair_decode digits.1 digits.2.1, List.map_cons, List.map_cons]
      rfl
  | case3 hex result single =>
    rcases hex with _ | ⟨first, _ | ⟨second, rest⟩⟩
    · exact ⟨[], (List.append_nil result).symm, rfl⟩
    · exact absurd even Nat.one_ne_zero
    · exact absurd rfl (single first second rest)

theorem decodeLoop_of_other (hex result : Bytes) (even : hex.length % 2 = 0)
    (other : ¬hex.all isHexDigit = true) : decodeLoop hex result = [] := by
  fun_induction decodeLoop hex result with
  | case1 first second rest result hi lo given => rfl
  | case2 first second rest result hi lo taken inductionHypothesis =>
    rw [pair_neg_iff, not_not] at taken
    rw [List.length_cons, List.length_cons, Nat.add_assoc, Nat.add_mod_right] at even
    rw [List.all_cons, List.all_cons, taken.1, taken.2, Bool.true_and, Bool.true_and] at other
    exact inductionHypothesis even other
  | case3 hex result single =>
    rcases hex with _ | ⟨first, _ | ⟨second, rest⟩⟩
    · exact absurd rfl other
    · exact absurd even Nat.one_ne_zero
    · exact absurd rfl (single first second rest)

theorem decodeHex_of_even {hex : Bytes} (even : hex.length % 2 = 0) :
    decodeHex hex = decodeLoop hex [] := by
  rw [decodeHex, Nat.and_one_is_mod, even, if_neg (not_not.mpr rfl)]

/-- Decoding undoes encoding; and a string of digits of even length is encoded again in lower case,
while any other string is decoded to nothing. -/
theorem hex_roundtrip :
    (∀ x : Bytes, decodeHex (encodeToHex x) = x) ∧
      ∀ s : Bytes, if s.length % 2 = 0 ∧ s.all isHexDigit = true then
        encodeToHex (decodeHex s) = s.map toLower else decodeHex s = [] := by
  refine ⟨fun x => ?_, fun s => ?_⟩
  · have even : (encodeToHex x).length % 2 = 0 := by
      rw [length_encodeToHex, Nat.mul_mod_right]
    rw [decodeHex_of_even even, decodeLoop_encodeToHex, List.nil_append]
  · by_cases even : s.length % 2 = 0
    · rw [decodeHex_of_even even]
      by_cases digits : s.all isHexDigit = true
      · obtain ⟨data, decoded, encoded⟩ := decodeLoop_of_digits s [] even digits
        rw [if_pos ⟨even, digits⟩, decoded, List.nil_append, encoded]
      · rw [if_neg fun both => digits both.2]
        exact decodeLoop_of_other s [] even digits
    · rw [if_neg fun both => even both.1, decodeHex, Nat.and_one_is_mod, if_pos even]

end NativeLibs.Hex
