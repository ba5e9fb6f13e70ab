/-
This file embeds the construction of a `CidrRange` from a string: the address
part in one of its two notations, the optional prefix length behind the slash,
and the errors that are kept as a text in the range.

The conversion of an address text to bytes is the C library's `inet_pton`, which
is a parameter. The constructor keeps its promise for every text whose prefix
length, if the address can be read and one is given, is a decimal number that
fits the machine word; for any other it throws `std::bad_optional_access`.
-/

import NativeLibs.Cidr.Range
import NativeLibs.Text.Split

namespace NativeLibs.Cidr

/-! ### Errors -/

/-- `CidrError`. -/
inductive CidrError where
  | ipAddrTooLong
  | parseNetStringError
  deriving DecidableEq

/-- `ErrorCodeToString<CidrError>`. -/
def CidrError.toText : CidrError → String
  | .ipAddrTooLong => "Address string too long"
  | .parseNetStringError => "Failed to parse string to network address"

/-- What `make_error` records: the function and the line, the code and the message. No error of
this class has a cause. -/
structure Error where
  funcName : String
  line : Nat
  value : CidrError
  message : String := ""
  deriving DecidableEq

/-- A part of an error text, left out if there is nothing to say. -/
def textPart (text : String) : String := if text = "" then "" else ": " ++ text

/-- `ErrorImpl::str`. -/
def Error.str (error : Error) : String :=
  "Error at " ++ (error.funcName ++ ":" ++ toString error.line ++ textPart error.value.toText ++
    textPart error.message)

theorem Error.str_ne_empty (error : Error) : error.str ≠ "" := by
  intro empty
  have lengths := congrArg String.length empty
  rw [Error.str, String.length_append] at lengths
  exact absurd (Nat.add_eq_zero_iff.mp lengths).1 (by decide)

/-! ### Addresses -/

/-- The functions of the C library: `inet_pton` for both families, which fails or gives the bytes
of an address, and the text of `strerror(errno)` after a failure. -/
structure Inet where
  pton4 : Bytes → Option { address : Bytes // address.length = 4 }
  pton6 : Bytes → Option { address : Bytes // address.length = 16 }
  strerror : String

/-- What a C function reads of a string passed by `c_str()`. -/
def cString (str : Bytes) : Bytes := str.takeWhile (· != 0)

/-- The common body of `get_ipv4_address_from_string` and `get_ipv6_address_from_string`. -/
def getFamilyAddress {size : Nat} (pton : Bytes → Option { address : Bytes // address.length = size })
    (strerror : String) (addrStrLen : Nat) (funcName : String) (tooLongLine failedLine : Nat)
    (addressString : Bytes) : Except Error Bytes :=
  if addressString.length ≥ addrStrLen then
    .error { funcName := funcName, line := tooLongLine, value := .ipAddrTooLong }
  else
    match pton (cString addressString) with
    | some address => .ok address.1
    | none =>
      .error { funcName := funcName, line := failedLine, value := .parseNetStringError,
               message := strerror }

section
variable (inet : Inet)

/-- `CidrRange::get_ipv4_address_from_string`; `INET_ADDRSTRLEN` is 16. -/
def getIpv4AddressFromString : Bytes → Except Error Bytes :=
  getFamilyAddress inet.pton4 inet.strerror 16 "ag::CidrRange::get_ipv4_address_from_string" 376 381

/-- `CidrRange::get_ipv6_address_from_string`; `INET6_ADDRSTRLEN` is 46. -/
def getIpv6AddressFromString : Bytes → Except Error Bytes :=
  getFamilyAddress inet.pton6 inet.strerror 46 "ag::CidrRange::get_ipv6_address_from_string" 358 363

/-- A number as `fmt` prints it with `{:x}`. -/
def formatHex (number : Nat) : Bytes := (formatNat 16 number).map toLower

/-- Two bytes of an address as one number. -/
def addressWord (address : Bytes) (index : Nat) : Nat :=
  (address.getD index 0).toNat <<< 8 + (address.getD (index + 1) 0).toNat

/-- `CidrRange::get_address_from_string`. An IPv6 address that ends in an IPv4 address is written
again with two hexadecimal groups in its place. -/
def getAddressFromString (addressString : Bytes) : Except Error Bytes :=
  if addressString.contains 46 then
    if !addressString.contains 58 then getIpv4AddressFromString inet addressString
    else
      match getIpv4AddressFromString inet (addressString.rtakeWhile (· != 58)) with
      | .error error => .error error
      | .ok address =>
        getIpv6AddressFromString inet (addressString.rdropWhile (· != 58) ++
          formatHex (addressWord address 0) ++ [58] ++ formatHex (addressWord address 2))
  else getIpv6AddressFromString inet addressString

/-! ### The constructor -/

/-- The exception `std::optional::value` throws. -/
inductive Exception where
  | badOptionalAccess
  deriving DecidableEq

/-- The address and the prefix length of a string, as the constructor cuts it at the slash. -/
def cidrParts (cidrString : Bytes) : Bytes × Bytes := split2By (trim cidrString) 47 true

/-- `CidrRange::CidrRange(std::string_view)`. A `size_t` has 64 bits. -/
def CidrRange.ofString (cidrString : Bytes) : Except Exception CidrRange :=
  if cidrString = [] then .ok (failed "Empty CIDR range string")
  else
    let parts := cidrParts cidrString
    let hasPrefixLen := !parts.2.isEmpty
    match getAddressFromString inet parts.1 with
    | .error error => .ok (failed error.str)
    | .ok address =>
      if hasPrefixLen then
        match toInteger 64 parts.2 10 with
        | none => .error .badOptionalAccess
        | some prefixLen => .ok (init address prefixLen)
      else .ok (init address (address.length * 8))

/-! ### What the constructor promises -/

/-- The part of a string before the first slash. -/
def addressPart (cidrString : Bytes) : Bytes := trim ((trim cidrString).takeWhile (· != 47))

/-- The part of a string behind the first slash. -/
def lengthPart (cidrString : Bytes) : Bytes := trim ((trim cidrString).dropWhile (· != 47)).tail

theorem cidrParts_eq (cidrString : Bytes) :
    cidrParts cidrString = (addressPart cidrString, lengthPart cidrString) :=
  split2By_trimmed _ _

/-- A decimal number that fits a `size_t`. -/
def DecimalWord (text : Bytes) : Prop :=
  (∀ byte ∈ text, (digitValue 10 byte).isSome) ∧ digitsValue 10 text < 2 ^ 64

/-- A range is the block of an address with the prefix length a text asks for: all bits of the
address if it is empty. -/
def IsBlockOf (range : CidrRange) (address text : Bytes) : Prop :=
  range.address = maskAddress address (prefixMask address.length range.prefixLen) ∧
    range.prefixLen ≤ address.length * 8 ∧
    if text = [] then range.prefixLen = address.length * 8
    else (∀ byte ∈ text, (digitValue 10 byte).isSome) ∧ range.prefixLen = digitsValue 10 text

/-- The constructor completes, and makes a range with an error or the block the string names. -/
def StringContract (cidrString : Bytes) : Prop :=
  ∃ range, CidrRange.ofString inet cidrString = .ok range ∧
    (range.valid = false ∨ range.valid = true ∧
      ∃ address, getAddressFromString inet (addressPart cidrString) = .ok address ∧
        IsBlockOf range address (lengthPart cidrString))

end

namespace CidrRange

theorem valid_failed (error : String) : (failed error).valid = decide (error = "") := rfl

/-- A range made of address bytes has an error, or keeps the masked address and the length. -/
theorem init_cases (address : Bytes) (prefixLen : Nat) :
    (init address prefixLen).valid = false ∨ (init address prefixLen).valid = true ∧
      (init address prefixLen).address =
        maskAddress address (prefixMask address.length prefixLen) ∧
      (init address prefixLen).prefixLen = prefixLen ∧ prefixLen ≤ address.length * 8 := by
  unfold init
  split
  · exact Or.inl rfl
  · rename_i inside
    exact Or.inr ⟨rfl, rfl, rfl, not_lt.mp inside⟩

variable (inet : Inet)

/-- What the constructor does, by what the two parts of the string are. -/
theorem ofString_cases (cidrString : Bytes) :
    (cidrString = [] ∨ ∃ error, getAddressFromString inet (addressPart cidrString) = .error error) ∧
      (∃ range, ofString inet cidrString = .ok range ∧ range.valid = false) ∨
    ∃ address, getAddressFromString inet (addressPart cidrString) = .ok address ∧
      ofString inet cidrString =
        if lengthPart cidrString = [] then .ok (init address (address.length * 8))
        else match toInteger 64 (lengthPart cidrString) 10 with
          | none => .error .badOptionalAccess
          | some prefixLen => .ok (init address prefixLen) := by
  unfold ofString
  rw [cidrParts_eq]
  by_cases empty : cidrString = []
  · rw [if_pos empty]
    exact Or.inl ⟨Or.inl empty, _, rfl, rfl⟩
  · simp only [if_neg empty]
    cases read : getAddressFromString inet (addressPart cidrString) with
    | error error =>
      refine Or.inl ⟨Or.inr ⟨error, rfl⟩, failed error.str, rfl, ?_⟩
      rw [valid_failed, decide_eq_false error.str_ne_empty]
    | ok address =>
      refine Or.inr ⟨address, rfl, ?_⟩
      by_cases none : lengthPart cidrString = []
      · simp [none]
      · simp [none]

theorem decimalWord_of_toInteger {text : Bytes} (nonempty : text ≠ []) {value : Nat}
    (read : toInteger 64 text 10 = some value) : DecimalWord text := by
  have digits := digits_of_toInteger read
  rw [toInteger_of_digits 64 _ 10 nonempty digits] at read
  refine ⟨digits, ?_⟩
  by_contra large
  rw [if_neg large] at read
  cases read

/-- A range made of a readable address with the length the text asks for keeps the promise. -/
theorem stringContract_of_init {cidrString address : Bytes} {prefixLen : Nat}
    (read : getAddressFromString inet (addressPart cidrString) = .ok address)
    (made : ofString inet cidrString = .ok (init address prefixLen))
    (asked : if lengthPart cidrString = [] then prefixLen = address.length * 8
      else (∀ byte ∈ lengthPart cidrString, (digitValue 10 byte).isSome) ∧
        prefixLen = digitsValue 10 (lengthPart cidrString)) :
    StringContract inet cidrString := by
  refine ⟨_, made, (init_cases address prefixLen).imp_right ?_⟩
  intro ⟨valid, masked, kept, inside⟩
  refine ⟨valid, address, read, ?_⟩
  rw [IsBlockOf, masked, kept]
  exact ⟨rfl, inside, asked⟩

/-- For every string and every `inet_pton`: the constructor completes with an error or with the
block the string names if and only if the address cannot be read, or nothing stands behind the
slash, or a decimal number that fits a `size_t` does. -/
theorem stringContract_iff (cidrString : Bytes) :
    StringContract inet cidrString ↔
      ∀ address, getAddressFromString inet (addressPart cidrString) = .ok address →
        lengthPart cidrString = [] ∨ DecimalWord (lengthPart cidrString) := by
  rcases ofString_cases inet cidrString with ⟨unread, range, made, invalid⟩ | ⟨address, read, made⟩
  · refine iff_of_true ⟨range, made, Or.inl invalid⟩ fun address read => ?_
    obtain empty | ⟨error, failure⟩ := unread
    · rw [empty]
      exact Or.inl rfl
    · cases failure.symm.trans read
  · by_cases nothing : lengthPart cidrString = []
    · rw [if_pos nothing] at made
      refine iff_of_true (stringContract_of_init inet read made ?_) fun _ _ => Or.inl nothing
      rw [if_pos nothing]
    · rw [if_neg nothing] at made
      constructor
      · -- a completed construction has read the number
        intro ⟨range, completed, _⟩ _ _
        cases number : toInteger 64 (lengthPart cidrString) 10 with
        | none =>
          rw [number] at made
          cases made.symm.trans completed
        | some prefixLen =>
          exact Or.inr (decimalWord_of_toInteger nothing number)
      · intro decimal
        obtain ⟨digits, small⟩ := (decimal address read).resolve_left nothing
        rw [toInteger_of_digits 64 _ 10 nothing digits, if_pos small] at made
        refine stringContract_of_init inet read made ?_
        rw [if_neg nothing]
        exact ⟨digits, rfl⟩

/-- An `inet_pton` that knows one address. -/
def oneAddressInet : Inet where
  pton4 text := if text = ascii "192.168.0.3" then some ⟨[192, 168, 0, 3], rfl⟩ else none
  pton6 _ := none
  strerror := "Success"

/-- A prefix length with blanks around it. -/
theorem stringContract_iff_blanks :
    StringContract oneAddressInet (ascii " 192.168.0.3 / 24 ") ∧
      ofString oneAddressInet (ascii " 192.168.0.3 / 24 ") =
        .ok (init [192, 168, 0, 3] 24) := by
  refine ⟨(stringContract_iff oneAddressInet _).mpr fun _ _ => Or.inr ?_, rfl⟩
  have length : lengthPart (ascii " 192.168.0.3 / 24 ") = ascii "24" := rfl
  have read : toInteger 64 (ascii "24") 10 = some 24 := rfl
  rw [length]
  exact decimalWord_of_toInteger (List.cons_ne_nil _ _) read

/-- A prefix length that is not a number makes the constructor throw. -/
theorem lettersForLength_throw :
    ofString oneAddressInet (ascii "192.168.0.3/abc") = .error .badOptionalAccess ∧
      ¬StringContract oneAddressInet (ascii "192.168.0.3/abc") := by
  have thrown : ofString oneAddressInet (ascii "192.168.0.3/abc") = .error .badOptionalAccess :=
    rfl
  refine ⟨thrown, ?_⟩
  intro ⟨_, completed, _⟩
  cases thrown.symm.trans completed

end CidrRange

end NativeLibs.Cidr
