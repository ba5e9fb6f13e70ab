/-
This file compares the two ways to read the text of a socket address: the
constructor of `SocketAddress` in `common/socket_address.cpp`, and
`utils::str_to_socket_address` in `common/net_utils.cpp`. Both cut the text in the
same way and give the host to the same constructor, but one reads the port with
`std::from_chars` and the other with `strtoll`, which skips white space and takes a
sign. They agree on all texts but those with such a port.
-/

import NativeLibs.Net.HostPort
import NativeLibs.Net.SocketAddress

namespace NativeLibs.Net

/-! ### The functions -/

/-- What `strtoll` returns, and how many characters it has read. -/
structure StrtollResult where
  value : ℤ
  consumed : ℕ

/-- The sign that `strtoll` takes at the beginning of a text. -/
def signOf (str : Bytes) : Bytes :=
  if str.head? = some 43 then [43] else if str.head? = some 45 then [45] else []

/-- A number with its sign, in the range of `long long`. -/
def signedValue (sign : Bytes) (value : ℕ) : ℤ :=
  if sign = [45] then max (-(value : ℤ)) (-2 ^ 63) else min (value : ℤ) (2 ^ 63 - 1)

/-- `strtoll` in base ten. Without a digit nothing is read. It reads a C string, but stops at the
first other character anyway. -/
def strtoll (str : Bytes) : StrtollResult :=
  let blanks := str.takeWhile isSpace
  let sign := signOf (str.dropWhile isSpace)
  let digits := ((str.dropWhile isSpace).drop sign.length).takeWhile fun byte =>
    (digitValue 10 byte).isSome
  if digits = [] then ⟨0, 0⟩
  else ⟨signedValue sign (digitsValue 10 digits), blanks.length + sign.length + digits.length⟩

/-- The constructor of `SocketAddress` from the text of a host and a port. -/
def SocketAddress.ofText (resolver : SocketAddress.Resolver) (numericHostPort : Bytes) :
    SocketAddress :=
  match splitHostPort numericHostPort false false with
  | .error _ => .empty
  | .ok split =>
    let port := toInteger 16 split.2 10
    if port = none ∧ split.2 ≠ [] then .empty
    else .ofHost resolver split.1 (UInt16.ofNat (port.getD 0))

/-- `utils::str_to_socket_address`. -/
def strToSocketAddress (resolver : SocketAddress.Resolver) (address : Bytes) : SocketAddress :=
  match splitHostPort address false false with
  | .error _ => .empty
  | .ok (hostView, portView) =>
    if portView = [] then .ofHost resolver hostView 0
    else
      let port := strtoll portView
      if port.consumed ≠ portView.length ∨ port.value < 0 ∨ port.value > 65535 then .empty
      else .ofHost resolver hostView (UInt16.ofNat port.value.toNat)

/-! ### How a port is spelled -/

/-- A port that `strtoll` reads: white space, a sign and digits, which stand for a number in the
range of a port. -/
structure Spelling (port blanks sign digits : Bytes) : Prop where
  whole : port = blanks ++ (sign ++ digits)
  blank : ∀ byte ∈ blanks, isSpace byte = true
  signed : sign = [] ∨ sign = [43] ∨ sign = [45]
  digit : ∀ byte ∈ digits, (digitValue 10 byte).isSome
  filled : digits ≠ []
  nonnegative : sign = [45] → digitsValue 10 digits = 0
  fits : digitsValue 10 digits ≤ 65535

/-- A decimal digit is one of the ten characters: a letter stands for ten or more. -/
theorem digit_range {byte : UInt8} (digit : (digitValue 10 byte).isSome) :
    48 ≤ byte ∧ byte ≤ 57 := by
  have tooLarge : ∀ value : ℕ, 10 ≤ value →
      ¬((some value).filter fun value => decide (value < 10)).isSome := by
    intro value large
    rw [Option.filter_some, if_neg]
    · exact Bool.false_ne_true
    · rw [decide_eq_true_iff, not_lt]
      exact large
  simp only [digitValue] at digit
  split_ifs at digit with decimal lower upper
  · exact decimal
  · have large := UInt8.le_iff_toNat_le.mp lower.1
    exact absurd digit (tooLarge _ (Nat.le_sub_of_add_le large))
  · have large := UInt8.le_iff_toNat_le.mp upper.1
    exact absurd digit (tooLarge _ (Nat.le_sub_of_add_le large))
  · cases digit

theorem digit_ne {byte : UInt8} (digit : (digitValue 10 byte).isSome) :
    isSpace byte = false ∧ byte ≠ 43 ∧ byte ≠ 45 := by
  have large : 48 ≤ byte.toNat := UInt8.le_iff_toNat_le.mp (digit_range digit).1
  refine ⟨?_, ?_, ?_⟩
  · rw [isSpace, Bool.or_eq_false_iff, Bool.and_eq_false_iff]
    refine ⟨decide_eq_false ?_, .inr (decide_eq_false ?_)⟩
    · rintro rfl
      exact absurd large (by decide)
    · intro small
      exact absurd (large.trans (UInt8.le_iff_toNat_le.mp small)) (by decide)
  · rintro rfl
    exact absurd large (by decide)
  · rintro rfl
    exact absurd large (by decide)

namespace Spelling

variable {port blanks sign digits : Bytes}

theorem head_not_space (spelling : Spelling port blanks sign digits) :
    ∃ first rest, sign ++ digits = first :: rest ∧ isSpace first = false := by
  obtain ⟨first, rest, found⟩ := List.exists_cons_of_ne_nil spelling.filled
  rcases spelling.signed with rfl | rfl | rfl
  · refine ⟨first, rest, found, (digit_ne (spelling.digit first ?_)).1⟩
    rw [found]
    exact List.mem_cons_self
  · exact ⟨43, digits, rfl, by decide⟩
  · exact ⟨45, digits, rfl, by decide⟩

theorem takeWhile_isSpace (spelling : Spelling port blanks sign digits) :
    port.takeWhile isSpace = blanks := by
  obtain ⟨first, rest, found, notSpace⟩ := spelling.head_not_space
  rw [spelling.whole, found, List.takeWhile_append_of_pos spelling.blank, List.takeWhile_cons,
    notSpace]
  exact List.append_nil blanks

theorem dropWhile_isSpace (spelling : Spelling port blanks sign digits) :
    port.dropWhile isSpace = sign ++ digits := by
  obtain ⟨first, rest, found, notSpace⟩ := spelling.head_not_space
  rw [spelling.whole, found, List.dropWhile_append_of_pos spelling.blank, List.dropWhile_cons,
    notSpace]
  rfl

theorem signOf_append (spelling : Spelling port blanks sign digits) :
    signOf (sign ++ digits) = sign := by
  obtain ⟨first, rest, found⟩ := List.exists_cons_of_ne_nil spelling.filled
  rcases spelling.signed with rfl | rfl | rfl
  · have digit := digit_ne (spelling.digit first (by rw [found]; exact List.mem_cons_self))
    rw [signOf, List.nil_append, found, List.head?_cons, if_neg, if_neg]
    · exact fun same => digit.2.2 (Option.some.inj same)
    · exact fun same => digit.2.1 (Option.some.inj same)
  · rfl
  · rfl

theorem strtoll_eq (spelling : Spelling port blanks sign digits) :
    strtoll port = ⟨signedValue sign (digitsValue 10 digits), port.length⟩ := by
  have whole : (digits.takeWhile fun byte => (digitValue 10 byte).isSome) = digits :=
    List.takeWhile_eq_self_iff.mpr spelling.digit
  have length : port.length = blanks.length + sign.length + digits.length := by
    rw [spelling.whole, List.length_append, List.length_append, Nat.add_assoc]
  unfold strtoll
  simp only [spelling.takeWhile_isSpace, spelling.dropWhile_isSpace, spelling.signOf_append,
    List.drop_left, whole, if_neg spelling.filled, length]

theorem signedValue_eq (spelling : Spelling port blanks sign digits) :
    signedValue sign (digitsValue 10 digits) = digitsValue 10 digits := by
  have fits := spelling.fits
  unfold signedValue
  split
  · rename_i negative
    rw [spelling.nonnegative negative]
    decide
  · omega

theorem plain (spelling : Spelling port blanks sign digits)
    (allDigits : ∀ byte ∈ port, (digitValue 10 byte).isSome) : blanks ++ sign = [] := by
  have front : ∀ byte ∈ blanks ++ sign, (digitValue 10 byte).isSome := by
    intro byte member
    refine allDigits byte ?_
    rw [spelling.whole, ← List.append_assoc]
    exact List.mem_append_left digits member
  refine List.eq_nil_iff_forall_not_mem.mpr fun byte member => ?_
  have digit := digit_ne (front byte member)
  rcases List.mem_append.mp member with blank | signMember
  · exact Bool.false_ne_true (digit.1.symm.trans (spelling.blank byte blank))
  · rcases spelling.signed with rfl | rfl | rfl
    · cases signMember
    · exact digit.2.1 (List.mem_singleton.mp signMember)
    · exact digit.2.2 (List.mem_singleton.mp signMember)

end Spelling

/-- A port that `from_chars` reads is spelled by its digits. -/
theorem spelling_of_toInteger {port : Bytes} {value : ℕ} (filled : port ≠ [])
    (read : toInteger 16 port 10 = some value) : Spelling port [] [] port := by
  have digits := digits_of_toInteger read
  rw [toInteger_of_digits 16 port 10 filled digits] at read
  split at read
  · rename_i fits
    refine ⟨rfl, List.forall_mem_nil _, .inl rfl, digits, filled, fun negative => ?_,
      Nat.le_of_lt_succ fits⟩
    exact absurd negative.symm (List.cons_ne_nil 45 [])
  · cases read

theorem signOf_cases (str : Bytes) : signOf str = [] ∨ signOf str = [43] ∨ signOf str = [45] := by
  unfold signOf
  split
  · exact .inr (.inl rfl)
  · split
    · exact .inr (.inr rfl)
    · exact .inl rfl

theorem signOf_append_drop (str : Bytes) : signOf str ++ str.drop (signOf str).length = str := by
  cases str with
  | nil => rfl
  | cons first rest =>
    rw [signOf, List.head?_cons]
    split
    · rename_i same
      rw [Option.some.inj same]
      rfl
    · split
      · rename_i same
        rw [Option.some.inj same]
        rfl
      · rfl

/-- A text is the white space and the sign that `strtoll` takes from it and what is left. -/
theorem eq_blanks_append (str : Bytes) :
    str = str.takeWhile isSpace ++ (signOf (str.dropWhile isSpace) ++
      (str.dropWhile isSpace).drop (signOf (str.dropWhile isSpace)).length) := by
  rw [signOf_append_drop, List.takeWhile_append_dropWhile]

theorem of_signedValue {sign : Bytes} {value : ℕ} (nonnegative : 0 ≤ signedValue sign value)
    (fits : signedValue sign value ≤ 65535) : (sign = [45] → value = 0) ∧ value ≤ 65535 := by
  unfold signedValue at nonnegative fits
  split at nonnegative
  · exact ⟨fun _ => by omega, by omega⟩
  · rename_i positive
    rw [if_neg positive] at fits
    exact ⟨fun negative => absurd negative positive, by omega⟩

/-- A text that `strtoll` reads to its end as a port is spelled so. -/
theorem spelling_of_strtoll {port : Bytes} (filled : port ≠ [])
    (whole : (strtoll port).consumed = port.length) (nonnegative : 0 ≤ (strtoll port).value)
    (fits : (strtoll port).value ≤ 65535) :
    ∃ blanks sign digits, Spelling port blanks sign digits := by
  have joined := eq_blanks_append port
  have signed := signOf_cases (port.dropWhile isSpace)
  simp only [strtoll] at whole nonnegative fits
  generalize signOf (port.dropWhile isSpace) = sign at *
  generalize (port.dropWhile isSpace).drop sign.length = behind at *
  have length := congrArg List.length joined
  rw [List.length_append, List.length_append] at length
  have front := List.takeWhile_prefix (l := behind) fun byte => (digitValue 10 byte).isSome
  have allDigits : ∀ byte ∈ behind.takeWhile fun byte => (digitValue 10 byte).isSome,
      (digitValue 10 byte).isSome :=
    fun _ => List.mem_takeWhile_imp (p := fun byte => (digitValue 10 byte).isSome)
  generalize (behind.takeWhile fun byte => (digitValue 10 byte).isSome) = digits at *
  by_cases none : digits = []
  · rw [if_pos none] at whole
    exact absurd (List.length_eq_zero_iff.mp whole.symm) filled
  · rw [if_neg none] at whole nonnegative fits
    obtain ⟨zero, small⟩ := of_signedValue nonnegative fits
    have allRead : digits = behind := front.eq_of_length (by simp only at whole; omega)
    refine ⟨port.takeWhile isSpace, sign, digits, ?_, ?_, signed, allDigits, none, zero, small⟩
    · rw [allRead]
      exact joined
    · exact fun byte member => List.mem_takeWhile_imp member

/-! ### What the two functions return -/

section

variable {resolver : SocketAddress.Resolver} {address host port blanks sign digits : Bytes}

theorem strToSocketAddress_of_spelling
    (split : splitHostPort address false false = .ok (host, port))
    (spelling : Spelling port blanks sign digits) :
    strToSocketAddress resolver address =
      .ofHost resolver host (UInt16.ofNat (digitsValue 10 digits)) := by
  have filled : port ≠ [] := by
    rw [spelling.whole]
    refine List.append_ne_nil_of_right_ne_nil _ ?_
    exact List.append_ne_nil_of_right_ne_nil _ spelling.filled
  have fits := spelling.fits
  have accepted : ¬(port.length ≠ port.length ∨ (digitsValue 10 digits : ℤ) < 0 ∨
      (digitsValue 10 digits : ℤ) > 65535) := by
    omega
  simp only [strToSocketAddress, split, if_neg filled, spelling.strtoll_eq, spelling.signedValue_eq,
    if_neg accepted, Int.toNat_natCast]

theorem strToSocketAddress_of_not_spelling
    (split : splitHostPort address false false = .ok (host, port)) (filled : port ≠ [])
    (misspelled : ¬∃ blanks sign digits, Spelling port blanks sign digits) :
    strToSocketAddress resolver address = .empty := by
  have rejected : (strtoll port).consumed ≠ port.length ∨ (strtoll port).value < 0 ∨
      (strtoll port).value > 65535 := by
    by_contra accepted
    rw [not_or, not_or, not_not, not_lt, not_lt] at accepted
    exact misspelled (spelling_of_strtoll filled accepted.1 accepted.2.1 accepted.2.2)
  simp only [strToSocketAddress, split, if_neg filled, if_pos rejected]

theorem ofText_of_spelling (split : splitHostPort address false false = .ok (host, port))
    (spelling : Spelling port blanks sign digits) (plain : blanks ++ sign = []) :
    SocketAddress.ofText resolver address =
      .ofHost resolver host (UInt16.ofNat (digitsValue 10 digits)) := by
  have same : port = digits := by
    rw [spelling.whole, ← List.append_assoc, plain, List.nil_append]
  subst same
  have fits : digitsValue 10 port < 2 ^ 16 := Nat.lt_succ_of_le spelling.fits
  have read := toInteger_of_digits 16 port 10 spelling.filled spelling.digit
  rw [if_pos fits] at read
  simp only [SocketAddress.ofText, split, read, reduceCtorEq, false_and, if_false,
    Option.getD_some]

theorem ofText_of_not_plain (split : splitHostPort address false false = .ok (host, port))
    (filled : port ≠ []) (notPlain : ¬Spelling port [] [] port) :
    SocketAddress.ofText resolver address = .empty := by
  have unread : toInteger 16 port 10 = none := by
    by_contra read
    obtain ⟨value, found⟩ := Option.ne_none_iff_exists'.mp read
    exact notPlain (spelling_of_toInteger filled found)
  simp only [SocketAddress.ofText, split, unread, ne_eq, filled, not_false_eq_true, and_self,
    if_true]

end

/-! ### Agreement -/

/-- Both addresses are invalid, or both are valid with the same family, address and port. -/
def SocketAddress.Agrees (left right : SocketAddress) : Prop :=
  (left.valid = false ∧ right.valid = false) ∨
    (left.valid = true ∧ right.valid = true ∧ left.family = right.family ∧
      left.addr = right.addr ∧ left.port = right.port)

theorem SocketAddress.Agrees.refl (address : SocketAddress) : address.Agrees address := by
  cases validity : address.valid with
  | false => exact .inl ⟨validity, validity⟩
  | true => exact .inr ⟨validity, validity, rfl, rfl, rfl⟩

/-- A text of a host that is known and a port in range with white space or a sign before it. -/
def DecoratedPort (resolver : SocketAddress.Resolver) (address : Bytes) : Prop :=
  ∃ host port blanks sign digits, splitHostPort address false false = .ok (host, port) ∧
    Spelling port blanks sign digits ∧ blanks ++ sign ≠ [] ∧
    (SocketAddress.ofHost resolver host (UInt16.ofNat (digitsValue 10 digits))).valid = true

theorem not_agrees_of_decoratedPort {resolver : SocketAddress.Resolver} {address : Bytes}
    (decorated : DecoratedPort resolver address) :
    ¬(SocketAddress.ofText resolver address).Agrees (strToSocketAddress resolver address) := by
  obtain ⟨host, port, blanks, sign, digits, split, spelling, front, valid⟩ := decorated
  have filled : port ≠ [] := by
    rw [spelling.whole, ← List.append_assoc]
    exact List.append_ne_nil_of_left_ne_nil front _
  rw [ofText_of_not_plain split filled fun plain => front (spelling.plain plain.digit),
    strToSocketAddress_of_spelling split spelling]
  rintro (⟨-, invalid⟩ | ⟨emptyValid, -⟩)
  · exact Bool.false_ne_true (invalid.symm.trans valid)
  · exact absurd emptyValid (by decide)

theorem agrees_of_not_decoratedPort {resolver : SocketAddress.Resolver} {address : Bytes}
    (undecorated : ¬DecoratedPort resolver address) :
    (SocketAddress.ofText resolver address).Agrees (strToSocketAddress resolver address) := by
  cases split : splitHostPort address false false with
  | error error =>
    simp only [SocketAddress.ofText, strToSocketAddress, split]
    exact .refl _
  | ok parts =>
    obtain ⟨host, port⟩ := parts
    by_cases filled : port = []
    · -- without a port both take 0
      subst filled
      simp only [SocketAddress.ofText, strToSocketAddress, split]
      exact .refl _
    · by_cases spelled : ∃ blanks sign digits, Spelling port blanks sign digits
      · obtain ⟨blanks, sign, digits, spelling⟩ := spelled
        rw [strToSocketAddress_of_spelling split spelling]
        by_cases plain : blanks ++ sign = []
        · rw [ofText_of_spelling split spelling plain]
          exact .refl _
        · rw [ofText_of_not_plain split filled fun other => plain (spelling.plain other.digit)]
          refine .inl ⟨by decide, Bool.eq_false_iff.mpr fun valid => undecorated ?_⟩
          exact ⟨host, port, blanks, sign, digits, split, spelling, plain, valid⟩
      · rw [strToSocketAddress_of_not_spelling split filled spelled,
          ofText_of_not_plain split filled fun plain => spelled ⟨[], [], port, plain⟩]
        exact .refl _

/-- The two functions agree on a text, whatever the C library makes of hosts, exactly when it is not
that of a known host and a port in range with white space or a sign before it. -/
theorem ofText_agrees_iff (resolver : SocketAddress.Resolver) (address : Bytes) :
    (SocketAddress.ofText resolver address).Agrees (strToSocketAddress resolver address) ↔
      ¬DecoratedPort resolver address :=
  ⟨fun agrees decorated => not_agrees_of_decoratedPort decorated agrees,
    agrees_of_not_decoratedPort⟩

/-- A C library that knows the one host `127.0.0.1`. -/
def loopbackResolver : SocketAddress.Resolver where
  inetPton4 host := if host = ascii "127.0.0.1" then some ⟨[127, 0, 0, 1], rfl⟩ else none
  inetPton6 _ := none
  getaddrinfo _ := none

/-- Both functions read `"127.0.0.1:80"`. -/
theorem ofText_agrees_iff_plain :
    (SocketAddress.ofText loopbackResolver (ascii "127.0.0.1:80")).Agrees
      (strToSocketAddress loopbackResolver (ascii "127.0.0.1:80")) := by
  refine (ofText_agrees_iff _ _).mpr ?_
  rintro ⟨host, port, blanks, sign, digits, split, spelling, front, -⟩
  have parts : splitHostPort (ascii "127.0.0.1:80") false false =
      .ok (ascii "127.0.0.1", ascii "80") := rfl
  have read : toInteger 16 (ascii "80") 10 = some 80 := rfl
  obtain ⟨-, rfl⟩ := Prod.mk.inj (Except.ok.inj (parts.symm.trans split))
  exact front (spelling.plain (digits_of_toInteger read))

/-- `"127.0.0.1:+80"` is an address for `str_to_socket_address` only. -/
theorem plusSign_read :
    (SocketAddress.ofText loopbackResolver (ascii "127.0.0.1:+80")).valid = false ∧
      (strToSocketAddress loopbackResolver (ascii "127.0.0.1:+80")).valid = true ∧
      (strToSocketAddress loopbackResolver (ascii "127.0.0.1:+80")).port = 80 :=
  ⟨rfl, rfl, rfl⟩

end NativeLibs.Net
