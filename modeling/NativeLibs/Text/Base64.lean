/-
This file models `common/base64.cpp`: the encoder with its two alphabets, the
size it announces, and the decoder with its lookup table of 256 entries. The
URL-safe tables are computed from the default ones as in the source, one by a
pass over the alphabet and the other by two swaps.

Between the characters there are six-bit values. The encoder is the alphabet
applied to the values of the bytes, with padding after it, and the decoder
regroups the values of the characters before the first padding. So the round
trips follow from those of the values, once the two tables are known to be
inverse to each other for both alphabets.

A `char` is signed, so a character above the ASCII range reads before the table.
The behaviour of the decoder is then undefined, and the model has no result.
-/

import Mathlib.Data.List.GetD
import Mathlib.Data.List.TakeWhile
import Mathlib.Tactic
import NativeLibs.Library.Sextets
import NativeLibs.Text.Bytes

namespace NativeLibs.Base64

open Library

/-! ### The tables -/

/-- `PADDING`, which is `'='`. -/
def padding : UInt8 := 61

/-- `BASE64_TABLE_DEFAULT`. The literal brings its terminating zero. -/
def base64TableDefault : Bytes :=
  ascii "ABCDEFGHIJKLMNOPQRSTUVWXYZabcdefghijklmnopqrstuvwxyz0123456789+/" ++ [0]

/-- `url_safe_base64_table`: `'+'` becomes `'-'` and `'/'` becomes `'_'`. -/
def urlSafeBase64Table (table : Bytes) : Bytes :=
  table.map fun char => if char = 43 then 45 else if char = 47 then 95 else char

/-- `BASIS_DEFAULT`. -/
def basisDefault : Bytes :=
  [77, 77, 77, 77, 77, 77, 77, 77, 77, 77, 77, 77, 77, 77, 77, 77,
    77, 77, 77, 77, 77, 77, 77, 77, 77, 77, 77, 77, 77, 77, 77, 77,
    77, 77, 77, 77, 77, 77, 77, 77, 77, 77, 77, 62, 77, 77, 77, 63,
    52, 53, 54, 55, 56, 57, 58, 59, 60, 61, 77, 77, 77, 77, 77, 77,
    77, 0, 1, 2, 3, 4, 5, 6, 7, 8, 9, 10, 11, 12, 13, 14,
    15, 16, 17, 18, 19, 20, 21, 22, 23, 24, 25, 77, 77, 77, 77, 77,
    77, 26, 27, 28, 29, 30, 31, 32, 33, 34, 35, 36, 37, 38, 39, 40,
    41, 42, 43, 44, 45, 46, 47, 48, 49, 50, 51, 77, 77, 77, 77, 77] ++
  -- the upper eight rows of the source
  List.replicate 128 77

/-- Two entries of a table change places. -/
def swap (table : Bytes) (first second : ℕ) : Bytes :=
  (table.set first (table.getD second 0)).set second (table.getD first 0)

/-- `url_safe_basis`: `'-'` changes with `'+'`, and `'_'` with `'/'`. -/
def urlSafeBasis (basis : Bytes) : Bytes := swap (swap basis 45 43) 95 47

/-- The alphabet the encoder uses. -/
def base64Table (urlSafe : Bool) : Bytes :=
  if urlSafe then urlSafeBase64Table base64TableDefault else base64TableDefault

/-- The lookup table the decoder uses. -/
def basis (urlSafe : Bool) : Bytes := if urlSafe then urlSafeBasis basisDefault else basisDefault

/-- The character of a value. -/
def charOf (urlSafe : Bool) (value : UInt8) : UInt8 := (base64Table urlSafe).getD value.toNat 0

/-- The entry of a character. -/
def valueOf (urlSafe : Bool) (char : UInt8) : UInt8 := (basis urlSafe).getD char.toNat 0

/-! ### Encoding -/

/-- `encode_base64_size`. -/
def encodeBase64Size (dataSize : ℕ) (urlSafe : Bool) : ℕ :=
  if urlSafe then (dataSize * 4 + 2) / 3 else (dataSize + 2) / 3 * 4

/-- No size of data in memory makes this computation wrap in a `size_t` of 64 bits. -/
theorem encodeBase64Size_word (dataSize : ℕ) (inMemory : dataSize < 2 ^ 62) (urlSafe : Bool) :
    (if urlSafe then (dataSize * 4 % 2 ^ 64 + 2) % 2 ^ 64 / 3
      else (dataSize + 2) % 2 ^ 64 / 3 * 4 % 2 ^ 64) = encodeBase64Size dataSize urlSafe := by
  rw [encodeBase64Size]
  cases urlSafe with
  | true =>
    simp only [if_true]
    omega
  | false =>
    simp only [Bool.false_eq_true, if_false]
    omega

/-- The padding that is written once, unless the alphabet is the URL-safe one. -/
def pad (urlSafe : Bool) : Bytes := if urlSafe then [] else [padding]

/-- What the iterator version of `encode_to_base64` writes. -/
def encodeToBase64Iterator (urlSafe : Bool) : Bytes → Bytes
  | byte0 :: byte1 :: byte2 :: rest =>
    charOf urlSafe (byte0 >>> 2) ::
      charOf urlSafe ((byte0 &&& 0x03) <<< 4 ||| byte1 >>> 4) ::
      charOf urlSafe ((byte1 &&& 0x0f) <<< 2 ||| byte2 >>> 6) ::
      charOf urlSafe (byte2 &&& 0x3f) :: encodeToBase64Iterator urlSafe rest
  | [byte0, byte1] =>
    [charOf urlSafe (byte0 >>> 2), charOf urlSafe ((byte0 &&& 0x03) <<< 4 ||| byte1 >>> 4),
      charOf urlSafe ((byte1 &&& 0x0f) <<< 2)] ++ pad urlSafe
  | [byte0] =>
    [charOf urlSafe (byte0 >>> 2), charOf urlSafe ((byte0 &&& 0x03) <<< 4)] ++ pad urlSafe ++
      pad urlSafe
  | [] => []

/-- The string version of `encode_to_base64`. It makes a string of the announced size and lets the
iterator version write over it; writing past its end is undefined. -/
def encodeToBase64 (data : Bytes) (urlSafe : Bool) : Option Bytes :=
  let result := List.replicate (encodeBase64Size data.length urlSafe) 0
  let written := encodeToBase64Iterator urlSafe data
  if written.length ≤ result.length then some (written ++ result.drop written.length) else none

/-! ### Decoding -/

/-- `basis[src[len]]` for a `char`. A negative `char` is no index of the table. -/
def readBasis (urlSafe : Bool) (char : UInt8) : Option UInt8 :=
  if char < 128 then some (valueOf urlSafe char) else none

/-- The first loop of `decode_base64`: the number of characters before the padding, or the inner
`none` where a character has no value. -/
def decodeLength (urlSafe : Bool) : Bytes → Option (Option ℕ)
  | [] => some (some 0)
  | char :: rest =>
    if char = padding then some (some 0)
    else
      match readBasis urlSafe char with
      | none => none
      | some value =>
        if value = 77 then some none
        else (decodeLength urlSafe rest).map (Option.map (· + 1))

/-- The second loop of `decode_base64` and the lines after it, over the characters before the
padding. -/
def decodeLoop (urlSafe : Bool) : Bytes → Bytes
  | char0 :: char1 :: char2 :: char3 :: rest =>
    (valueOf urlSafe char0 <<< 2 ||| valueOf urlSafe char1 >>> 4) ::
      (valueOf urlSafe char1 <<< 4 ||| valueOf urlSafe char2 >>> 2) ::
      (valueOf urlSafe char2 <<< 6 ||| valueOf urlSafe char3) :: decodeLoop urlSafe rest
  | [char0, char1, char2] =>
    [valueOf urlSafe char0 <<< 2 ||| valueOf urlSafe char1 >>> 4,
      valueOf urlSafe char1 <<< 4 ||| valueOf urlSafe char2 >>> 2]
  | [char0, char1] => [valueOf urlSafe char0 <<< 2 ||| valueOf urlSafe char1 >>> 4]
  | _ => []

/-- `decode_base64`. The outer `none` is undefined behaviour, the inner one `std::nullopt`. -/
def decodeBase64 (data : Bytes) (urlSafe : Bool) : Option (Option Bytes) :=
  match decodeLength urlSafe data with
  | none => none
  | some none => some none
  | some (some length) =>
    if length % 4 = 1 then some none
    else some (some (decodeLoop urlSafe (data.take length)))

/-! ### The tables are inverse to each other -/

/-- The characters of an alphabet. -/
def alphabet (urlSafe : Bool) : Bytes := (base64Table urlSafe).take 64

/-- The default alphabet by its codes. -/
theorem base64TableDefault_eq : base64TableDefault =
    [65, 66, 67, 68, 69, 70, 71, 72, 73, 74, 75, 76, 77, 78, 79, 80, 81, 82, 83, 84, 85, 86, 87,
      88, 89, 90, 97, 98, 99, 100, 101, 102, 103, 104, 105, 106, 107, 108, 109, 110, 111, 112, 113,
      114, 115, 116, 117, 118, 119, 120, 121, 122, 48, 49, 50, 51, 52, 53, 54, 55, 56, 57, 43, 47,
      0] :=
  rfl

theorem length_base64Table (urlSafe : Bool) : (base64Table urlSafe).length = 65 := by
  have default : base64TableDefault.length = 65 := by
    rw [base64TableDefault_eq]
    rfl
  cases urlSafe with
  | true => rw [base64Table, if_pos rfl, urlSafeBase64Table, List.length_map, default]
  | false => rw [base64Table, if_neg Bool.false_ne_true, default]

theorem length_basis (urlSafe : Bool) : (basis urlSafe).length = 256 := by
  have default : basisDefault.length = 256 := by
    rw [basisDefault, List.length_append, List.length_replicate]
    rfl
  cases urlSafe with
  | true =>
    rw [basis, if_pos rfl, urlSafeBasis, swap, swap, List.length_set, List.length_set,
      List.length_set, List.length_set, default]
  | false => rw [basis, if_neg Bool.false_ne_true, default]

theorem charOf_mem (urlSafe : Bool) {value : UInt8} (small : value < 64) :
    charOf urlSafe value ∈ alphabet urlSafe := by
  have below : value.toNat < 64 := UInt8.lt_iff_toNat_lt.mp small
  have inside : value.toNat < (base64Table urlSafe).length := by
    rw [length_base64Table]
    exact below.trans (by decide)
  rw [charOf, List.getD_eq_getElem _ _ inside]
  exact List.mem_take_iff_getElem.mpr ⟨value.toNat, lt_min below inside, rfl⟩

/-- The two tables, entry by entry. The second part is one pass over the table, not one lookup for
every byte. -/
theorem tables_inverse (urlSafe : Bool) :
    (∀ number < 64, charOf urlSafe (UInt8.ofNat number) < 128 ∧
      charOf urlSafe (UInt8.ofNat number) ≠ padding ∧
      valueOf urlSafe (charOf urlSafe (UInt8.ofNat number)) = UInt8.ofNat number) ∧
    ∀ entry ∈ (basis urlSafe).zipIdx, entry.1 ≠ 77 →
      entry.1 < 64 ∧ charOf urlSafe entry.1 = UInt8.ofNat entry.2 := by
  simp only [charOf, base64Table, base64TableDefault_eq]
  cases urlSafe <;> decide +kernel

theorem valueOf_charOf (urlSafe : Bool) {value : UInt8} (small : value < 64) :
    charOf urlSafe value < 128 ∧ charOf urlSafe value ≠ padding ∧
      valueOf urlSafe (charOf urlSafe value) = value := by
  have found := (tables_inverse urlSafe).1 value.toNat (UInt8.lt_iff_toNat_lt.mp small)
  rwa [UInt8.ofNat_toNat] at found

theorem charOf_valueOf (urlSafe : Bool) {char : UInt8} (valid : valueOf urlSafe char ≠ 77) :
    valueOf urlSafe char < 64 ∧ charOf urlSafe (valueOf urlSafe char) = char := by
  have inside : char.toNat < (basis urlSafe).length := by
    rw [length_basis]
    exact char.toNat_lt
  have member : (valueOf urlSafe char, char.toNat) ∈ (basis urlSafe).zipIdx := by
    rw [List.mk_mem_zipIdx_iff_getElem?, valueOf, List.getD_eq_getElem _ _ inside]
    exact List.getElem?_eq_getElem inside
  have found := (tables_inverse urlSafe).2 _ member valid
  rwa [UInt8.ofNat_toNat] at found

/-! ### Through the values -/

/-- How many padding characters follow the encoding of so many bytes. -/
def paddingCount (urlSafe : Bool) (dataSize : ℕ) : ℕ :=
  if urlSafe then 0 else (3 - dataSize % 3) % 3

theorem encodeToBase64Iterator_eq (urlSafe : Bool) (data : Bytes) :
    encodeToBase64Iterator urlSafe data =
      (toSextets data).map (charOf urlSafe) ++
        List.replicate (paddingCount urlSafe data.length) padding := by
  induction data using toSextets.induct with
  | case1 byte0 byte1 byte2 rest inductionHypothesis =>
    have count : paddingCount urlSafe (rest.length + 3) = paddingCount urlSafe rest.length := by
      rw [paddingCount, paddingCount, Nat.add_mod_right]
    rw [encodeToBase64Iterator, inductionHypothesis, toSextets, List.length_cons,
      List.length_cons, List.length_cons, count]
    rfl
  | case2 byte0 byte1 => cases urlSafe <;> rfl
  | case3 byte0 => cases urlSafe <;> rfl
  | case4 => cases urlSafe <;> rfl

theorem length_encodeToBase64Iterator (urlSafe : Bool) (data : Bytes) :
    (encodeToBase64Iterator urlSafe data).length = encodeBase64Size data.length urlSafe := by
  rw [encodeToBase64Iterator_eq, List.length_append, List.length_map, length_toSextets,
    List.length_replicate, paddingCount, encodeBase64Size]
  cases urlSafe with
  | true => rfl
  | false =>
    simp only [Bool.false_eq_true, if_false]
    omega

theorem encodeToBase64_eq (data : Bytes) (urlSafe : Bool) :
    encodeToBase64 data urlSafe = some (encodeToBase64Iterator urlSafe data) := by
  have exact : (encodeToBase64Iterator urlSafe data).length =
      (List.replicate (encodeBase64Size data.length urlSafe) (0 : UInt8)).length := by
    rw [List.length_replicate, length_encodeToBase64Iterator]
  rw [encodeToBase64, if_pos exact.le, exact, List.drop_length, List.append_nil]

theorem decodeLoop_eq (urlSafe : Bool) (chars : Bytes) :
    decodeLoop urlSafe chars = ofSextets (chars.map (valueOf urlSafe)) := by
  induction chars using decodeLoop.induct with
  | case1 char0 char1 char2 char3 rest inductionHypothesis =>
    rw [decodeLoop, inductionHypothesis]
    rfl
  | case2 char0 char1 char2 => rfl
  | case3 char0 char1 => rfl
  | case4 chars notGroup notThree notTwo =>
    match chars with
    | [] => rfl
    | [char0] => rfl
    | [char0, char1] => exact absurd rfl (notTwo char0 char1)
    | [char0, char1, char2] => exact absurd rfl (notThree char0 char1 char2)
    | char0 :: char1 :: char2 :: char3 :: rest =>
      exact absurd rfl (notGroup char0 char1 char2 char3 rest)

/-- The characters before the first padding. -/
def beforePadding (text : Bytes) : Bytes := text.takeWhile fun char => char ≠ padding

theorem take_beforePadding (text : Bytes) :
    text.take (beforePadding text).length = beforePadding text :=
  List.prefix_iff_eq_take.mp (List.takeWhile_prefix _) |>.symm

theorem decodeLength_of_valid (urlSafe : Bool) (text : Bytes)
    (valid : ∀ char ∈ beforePadding text, char < 128 ∧ valueOf urlSafe char ≠ 77) :
    decodeLength urlSafe text = some (some (beforePadding text).length) := by
  induction text with
  | nil => rfl
  | cons char rest inductionHypothesis =>
    rw [decodeLength]
    by_cases ends : char = padding
    · rw [if_pos ends, beforePadding, List.takeWhile_cons_of_neg (by simp [ends])]
      rfl
    · have more : beforePadding (char :: rest) = char :: beforePadding rest :=
        List.takeWhile_cons_of_pos (by simp [ends])
      rw [more, List.forall_mem_cons] at valid
      rw [if_neg ends, readBasis, if_pos valid.1.1, more, inductionHypothesis valid.2]
      simp only [if_neg valid.1.2]
      rfl

theorem valid_of_decodeLength {urlSafe : Bool} {text : Bytes} {length : ℕ}
    (counted : decodeLength urlSafe text = some (some length)) :
    ∀ char ∈ beforePadding text, char < 128 ∧ valueOf urlSafe char ≠ 77 := by
  induction text generalizing length with
  | nil => exact fun _ member => nomatch member
  | cons char rest inductionHypothesis =>
    rw [decodeLength] at counted
    by_cases ends : char = padding
    · rw [beforePadding, List.takeWhile_cons_of_neg (by simp [ends])]
      exact fun _ member => nomatch member
    · have more : beforePadding (char :: rest) = char :: beforePadding rest :=
        List.takeWhile_cons_of_pos (by simp [ends])
      rw [if_neg ends, readBasis] at counted
      by_cases inRange : char < 128
      · rw [if_pos inRange] at counted
        by_cases invalid : valueOf urlSafe char = 77
        · simp only [if_pos invalid] at counted
          exact nomatch counted
        · simp only [if_neg invalid] at counted
          obtain ⟨inner, innerCounted, same⟩ := Option.map_eq_some_iff.mp counted
          obtain ⟨shorter, rfl, -⟩ := Option.map_eq_some_iff.mp same
          rw [more, List.forall_mem_cons]
          exact ⟨⟨inRange, invalid⟩, inductionHypothesis innerCounted⟩
      · rw [if_neg inRange] at counted
        exact nomatch counted

theorem decodeLength_isSome (urlSafe : Bool) (text : Bytes) (inRange : ∀ char ∈ text, char < 128) :
    (decodeLength urlSafe text).isSome := by
  induction text with
  | nil => rfl
  | cons char rest inductionHypothesis =>
    rw [List.forall_mem_cons] at inRange
    rw [decodeLength, readBasis, if_pos inRange.1]
    by_cases ends : char = padding
    · rw [if_pos ends]
      rfl
    · rw [if_neg ends]
      by_cases invalid : valueOf urlSafe char = 77
      · simp only [if_pos invalid]
        rfl
      · simp only [if_neg invalid, Option.isSome_map]
        exact inductionHypothesis inRange.2

theorem decodeBase64_isSome (urlSafe : Bool) (text : Bytes) (inRange : ∀ char ∈ text, char < 128) :
    (decodeBase64 text urlSafe).isSome := by
  obtain ⟨length, counted⟩ :=
    Option.isSome_iff_exists.mp (decodeLength_isSome urlSafe text inRange)
  rw [decodeBase64, counted]
  cases length with
  | none => rfl
  | some length =>
    simp only
    split <;> rfl

/-- What the decoder accepts: values before the padding, and no single one left over. -/
theorem decodeBase64_eq_some_iff (text : Bytes) (urlSafe : Bool) (result : Bytes) :
    decodeBase64 text urlSafe = some (some result) ↔
      (∀ char ∈ beforePadding text, char < 128 ∧ valueOf urlSafe char ≠ 77) ∧
      (beforePadding text).length % 4 ≠ 1 ∧
      result = ofSextets ((beforePadding text).map (valueOf urlSafe)) := by
  constructor
  · intro accepted
    rw [decodeBase64] at accepted
    cases counted : decodeLength urlSafe text with
    | none =>
      rw [counted] at accepted
      exact nomatch accepted
    | some inner =>
      cases inner with
      | none =>
        rw [counted] at accepted
        exact nomatch accepted
      | some length =>
        have valid := valid_of_decodeLength counted
        rw [decodeLength_of_valid urlSafe text valid] at accepted
        by_cases single : (beforePadding text).length % 4 = 1
        · simp only [if_pos single] at accepted
          exact nomatch accepted
        · simp only [if_neg single, take_beforePadding, decodeLoop_eq, Option.some.injEq]
            at accepted
          exact ⟨valid, single, accepted.symm⟩
  · rintro ⟨valid, notSingle, rfl⟩
    rw [decodeBase64, decodeLength_of_valid urlSafe text valid]
    simp only [if_neg notSingle, take_beforePadding, decodeLoop_eq]

/-! ### The round trips -/

theorem beforePadding_encode (urlSafe : Bool) (data : Bytes) :
    beforePadding (encodeToBase64Iterator urlSafe data) =
      (toSextets data).map (charOf urlSafe) := by
  have body : ∀ char ∈ (toSextets data).map (charOf urlSafe), decide (char ≠ padding) = true := by
    intro char member
    obtain ⟨value, found, rfl⟩ := List.mem_map.mp member
    exact decide_eq_true (valueOf_charOf urlSafe (toSextets_lt data value found)).2.1
  rw [encodeToBase64Iterator_eq, beforePadding, List.takeWhile_append_of_pos body,
    List.takeWhile_replicate]
  simp

theorem map_valueOf_charOf (urlSafe : Bool) {values : Bytes}
    (small : ∀ value ∈ values, value < 64) :
    (values.map (charOf urlSafe)).map (valueOf urlSafe) = values := by
  rw [List.map_map]
  exact (List.map_congr_left fun value member =>
    (valueOf_charOf urlSafe (small value member)).2.2).trans (List.map_id values)

theorem length_toSextets_mod_four (data : Bytes) : (toSextets data).length % 4 ≠ 1 := by
  rw [length_toSextets]
  omega

theorem decodeBase64_encode (urlSafe : Bool) (data : Bytes) :
    decodeBase64 (encodeToBase64Iterator urlSafe data) urlSafe = some (some data) := by
  rw [decodeBase64_eq_some_iff, beforePadding_encode, List.length_map,
    map_valueOf_charOf urlSafe (toSextets_lt data), ofSextets_toSextets]
  refine ⟨fun char member => ?_, length_toSextets_mod_four data, rfl⟩
  obtain ⟨value, found, rfl⟩ := List.mem_map.mp member
  have small := toSextets_lt data value found
  obtain ⟨inRange, -, back⟩ := valueOf_charOf urlSafe small
  refine ⟨inRange, fun invalid => ?_⟩
  rw [back] at invalid
  rw [invalid] at small
  exact absurd small (by decide)

/-- A character with so many of the low bits of its value cleared. -/
def clearLowBits (urlSafe : Bool) (count char : UInt8) : UInt8 :=
  charOf urlSafe (valueOf urlSafe char >>> count <<< count)

/-- Clearing the unused bits of the values changes only the last character. -/
theorem map_charOf_clearUnused (urlSafe : Bool) (chars : Bytes)
    (valid : ∀ char ∈ chars, valueOf urlSafe char ≠ 77) :
    (clearUnused (chars.map (valueOf urlSafe))).map (charOf urlSafe) =
      chars.dropLast ++
        chars.getLast?.toList.map (clearLowBits urlSafe (unusedBits chars.length)) := by
  have same : chars.dropLast.map (charOf urlSafe ∘ valueOf urlSafe) = chars.dropLast :=
    (List.map_congr_left fun char member =>
      (charOf_valueOf urlSafe (valid char (List.mem_of_mem_dropLast member))).2).trans
        (List.map_id _)
  rw [clearUnused, List.map_append, ← List.map_dropLast, List.map_map, same, List.length_map,
    List.getLast?_map]
  cases chars.getLast? with
  | none => rfl
  | some last => rfl

/-- Both round trips, for both alphabets. The encoder writes exactly the announced number of
characters, which are of the alphabet and then padding, and the decoder gives the bytes back. The
decoder has a result on every ASCII string, and where it accepts the string, encoding the bytes
again gives the characters before the padding with the unused low bits of the last one cleared. -/
theorem base64_roundTrip (urlSafe : Bool) :
    (∀ data, ∃ body count,
      encodeToBase64 data urlSafe = some (body ++ List.replicate count padding) ∧
      encodeToBase64Iterator urlSafe data = body ++ List.replicate count padding ∧
      (encodeToBase64Iterator urlSafe data).length = encodeBase64Size data.length urlSafe ∧
      (∀ char ∈ body, char ∈ alphabet urlSafe) ∧
      decodeBase64 (encodeToBase64Iterator urlSafe data) urlSafe = some (some data)) ∧
    (∀ text, (∀ char ∈ text, char < 128) →
      ∃ answer, decodeBase64 text urlSafe = some answer ∧
        ∀ result, answer = some result →
          ∃ again, encodeToBase64 result urlSafe = some again ∧
            beforePadding again = (beforePadding text).dropLast ++
              (beforePadding text).getLast?.toList.map
                (clearLowBits urlSafe (unusedBits (beforePadding text).length))) := by
  constructor
  · intro data
    refine ⟨(toSextets data).map (charOf urlSafe), paddingCount urlSafe data.length, ?_,
      encodeToBase64Iterator_eq urlSafe data, length_encodeToBase64Iterator urlSafe data,
      fun char member => ?_, decodeBase64_encode urlSafe data⟩
    · rw [encodeToBase64_eq, encodeToBase64Iterator_eq]
    · obtain ⟨value, found, rfl⟩ := List.mem_map.mp member
      exact charOf_mem urlSafe (toSextets_lt data value found)
  · intro text inRange
    obtain ⟨answer, decoded⟩ :=
      Option.isSome_iff_exists.mp (decodeBase64_isSome urlSafe text inRange)
    refine ⟨answer, decoded, ?_⟩
    rintro result rfl
    obtain ⟨valid, whole, rfl⟩ := (decodeBase64_eq_some_iff text urlSafe result).mp decoded
    refine ⟨_, encodeToBase64_eq _ urlSafe, ?_⟩
    have small : ∀ value ∈ (beforePadding text).map (valueOf urlSafe), value < 64 := by
      intro value member
      obtain ⟨char, found, rfl⟩ := List.mem_map.mp member
      exact (charOf_valueOf urlSafe (valid char found).2).1
    rw [beforePadding_encode, toSextets_ofSextets _ small (by rwa [List.length_map]),
      map_charOf_clearUnused urlSafe _ fun char member => (valid char member).2]

/-- The last character of `Zm9=` has an unused bit, so encoding again gives `Zm8=`. -/
theorem base64_roundTrip_unusedBit :
    decodeBase64 (ascii "Zm9=") false = some (some (ascii "fo")) ∧
      encodeToBase64 (ascii "fo") false = some (ascii "Zm8=") ∧
      ∃ answer, decodeBase64 (ascii "Zm9=") false = some answer ∧
        ∀ result, answer = some result →
          ∃ again, encodeToBase64 result false = some again ∧
            beforePadding again = (beforePadding (ascii "Zm9=")).dropLast ++
              (beforePadding (ascii "Zm9=")).getLast?.toList.map
                (clearLowBits false (unusedBits (beforePadding (ascii "Zm9=")).length)) :=
  ⟨rfl, rfl, (base64_roundTrip false).2 (ascii "Zm9=") (by decide +kernel)⟩

end NativeLibs.Base64
