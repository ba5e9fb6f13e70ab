/-
This file proves what the comparisons of socket addresses are good for as the order
and the hash of a container. `memcmp` runs over as many bytes as the family of the
left address has, which is none for every family but the two of IP. Two addresses
with a length are compared through the bytes that their own families have: when
the lengths differ the families do, and those come first. An address without a
length, on the other hand, finds itself equal to every address, which only another
one of its kind returns.

So the laws hold within the addresses that have a length and within those that have
none, and within no set of addresses that has both.
-/

import NativeLibs.Library.KeyOrder
import NativeLibs.Net.AddressText

namespace NativeLibs.Net

open Library

/-! ### Families and lengths -/

theorem socklenOf_congr {left right : Bytes} (same : left.take 2 = right.take 2) :
    socklenOf left = socklenOf right := by
  have families : ∀ memory : Bytes, familyOf memory = familyOf (memory.take 2) := by
    intro memory
    simp only [familyOf, List.getD_eq_getElem?_getD, List.getElem?_take]
    rfl
  unfold socklenOf
  rw [families left, families right, same]

theorem socklenOf_cases (memory : Bytes) :
    socklenOf memory = 28 ∨ socklenOf memory = 16 ∨ socklenOf memory = 0 := by
  unfold socklenOf
  split
  · exact .inl rfl
  · split
    · exact .inr (.inl rfl)
    · exact .inr (.inr rfl)

namespace SocketAddress

/-- The bytes that the family of an address has. -/
def key (address : SocketAddress) : Bytes := address.storage.take address.cSocklen

theorem cSocklen_le (address other : SocketAddress) : address.cSocklen ≤ other.storage.length := by
  rw [other.size]
  unfold cSocklen
  rcases socklenOf_cases address.storage with length | length | length <;> rw [length] <;> decide

theorem two_le_cSocklen {address : SocketAddress} (length : address.cSocklen ≠ 0) :
    2 ≤ address.cSocklen := by
  unfold cSocklen at length ⊢
  rcases socklenOf_cases address.storage with found | found | found
  · rw [found]; decide
  · rw [found]; decide
  · exact absurd found length

/-- Addresses with different lengths differ in one of the first two bytes. -/
theorem firstDifference_of_cSocklen {left right : SocketAddress}
    (differ : left.cSocklen ≠ right.cSocklen) :
    ∃ common first second, ∀ leftCount rightCount, 2 ≤ leftCount → 2 ≤ rightCount →
      FirstDifference common first second (left.storage.take leftCount)
        (right.storage.take rightCount) := by
  have sizes : (left.storage.take 2).length = (right.storage.take 2).length := by
    rw [List.length_take, List.length_take, left.size, right.size]
  have beginnings : left.storage.take 2 ≠ right.storage.take 2 :=
    fun same => differ (socklenOf_congr same)
  rcases prefix_or_firstDifference (left.storage.take 2) (right.storage.take 2) with
    shorter | longer | ⟨common, first, second, difference⟩
  · exact absurd (shorter.eq_of_length sizes) beginnings
  · exact absurd (longer.eq_of_length sizes.symm).symm beginnings
  · refine ⟨common, first, second, fun leftCount rightCount leftMore rightMore => ?_⟩
    have split : ∀ (memory : Bytes) {count : ℕ}, 2 ≤ count →
        memory.take count = memory.take 2 ++ (memory.drop 2).take (count - 2) := by
      intro memory count more
      rw [← List.take_add, Nat.add_sub_cancel' more]
    rw [split left.storage leftMore, split right.storage rightMore]
    exact difference.append _ _

/-! ### Comparison through the key -/

theorem equals_iff (left right : SocketAddress) :
    left.equals right = true ↔
      left.storage.take left.cSocklen = right.storage.take left.cSocklen := by
  unfold equals
  rw [decide_eq_true_iff]
  exact memcmp_eq_iff (left.cSocklen_le left) (left.cSocklen_le right)

theorem less_iff (left right : SocketAddress) :
    left.less right = true ↔
      left.storage.take left.cSocklen < right.storage.take left.cSocklen := by
  unfold less
  rw [decide_eq_true_iff]
  exact memcmp_lt_iff (left.cSocklen_le left) (left.cSocklen_le right)

/-- Either both addresses have a length or none has. -/
def Alike (left right : SocketAddress) : Prop := left.cSocklen = 0 ↔ right.cSocklen = 0

instance (left right : SocketAddress) : Decidable (Alike left right) :=
  inferInstanceAs (Decidable (_ ↔ _))

theorem Alike.two_le {left right : SocketAddress} (alike : left.Alike right)
    (differ : left.cSocklen ≠ right.cSocklen) : 2 ≤ left.cSocklen ∧ 2 ≤ right.cSocklen := by
  have leftLength : left.cSocklen ≠ 0 := by
    intro none
    exact differ (none.trans (alike.mp none).symm)
  exact ⟨two_le_cSocklen leftLength, two_le_cSocklen (mt alike.mpr leftLength)⟩

theorem equals_iff_key {left right : SocketAddress} (alike : left.Alike right) :
    left.equals right = true ↔ left.key = right.key := by
  rw [equals_iff]
  unfold key
  by_cases same : left.cSocklen = right.cSocklen
  · rw [same]
  · obtain ⟨leftMore, rightMore⟩ := alike.two_le same
    obtain ⟨common, first, second, difference⟩ := firstDifference_of_cSocklen same
    exact iff_of_false (difference _ _ leftMore leftMore).ne (difference _ _ leftMore rightMore).ne

theorem less_iff_key {left right : SocketAddress} (alike : left.Alike right) :
    left.less right = true ↔ left.key < right.key := by
  rw [less_iff]
  unfold key
  by_cases same : left.cSocklen = right.cSocklen
  · rw [same]
  · obtain ⟨leftMore, rightMore⟩ := alike.two_le same
    obtain ⟨common, first, second, difference⟩ := firstDifference_of_cSocklen same
    rw [(difference _ _ leftMore leftMore).lt_iff, (difference _ _ leftMore rightMore).lt_iff]

theorem equals_of_cSocklen {address : SocketAddress} (none : address.cSocklen = 0)
    (other : SocketAddress) : address.equals other = true := by
  rw [equals_iff, none]
  rfl

theorem cSocklen_of_equals {address other : SocketAddress} (length : address.cSocklen ≠ 0)
    (equal : address.equals other = true) : address.cSocklen = other.cSocklen := by
  rw [equals_iff] at equal
  have beginnings := congrArg (List.take 2) equal
  rw [List.take_take, List.take_take, Nat.min_eq_left (two_le_cSocklen length)] at beginnings
  exact socklenOf_congr beginnings

/-! ### The laws -/

/-- The addresses that the public constructors make. -/
inductive Obtainable (resolver : Resolver) : SocketAddress → Prop where
  | default : Obtainable resolver empty
  | text (numericHostPort : Bytes) : Obtainable resolver (ofText resolver numericHostPort)
  | host (numericHost : Bytes) (port : UInt16) :
    Obtainable resolver (ofHost resolver numericHost port)
  | bytes (addr : Bytes) (port : UInt16) : Obtainable resolver (ofBytes addr port)
  | ipAddress (addr : IpAddress) (port : UInt16) : Obtainable resolver (ofIpAddress port addr)
  | sockaddr (addr : Option Bytes) : Obtainable resolver (ofSockaddr addr)
  | storage (storage : Bytes) (size : storage.length = 28) :
    Obtainable resolver (ofStorage storage size)

theorem obtainable (resolver : Resolver) (address : SocketAddress) : Obtainable resolver address :=
  .storage address.storage address.size

/-- What a container of the addresses of a set relies on. -/
def ComparisonLaws (hashBytes : Bytes → UInt64) (addresses : Set SocketAddress) : Prop :=
  ContainerLaws (fun left right : addresses => left.1.equals right.1 = true)
    (fun left right => left.1.less right.1 = true) fun address => address.1.hash hashBytes

theorem comparisonLaws_of_alike (hashBytes : Bytes → UInt64) {addresses : Set SocketAddress}
    (alike : ∀ left ∈ addresses, ∀ right ∈ addresses, left.Alike right) :
    ComparisonLaws hashBytes addresses := by
  have total : IsStrictTotalOrder Bytes (· < ·) := {}
  refine containerLaws_of_key (fun address : addresses => address.1.key) hashBytes ?_ ?_ ?_
  · exact fun left right => equals_iff_key (alike _ left.2 _ right.2)
  · exact fun left right => less_iff_key (alike _ left.2 _ right.2)
  · exact fun address => rfl

theorem cSocklen_of_symmetric {left right : SocketAddress} (none : left.cSocklen = 0)
    (symmetric : left.equals right = true → right.equals left = true) : right.cSocklen = 0 := by
  by_contra length
  exact length ((cSocklen_of_equals length (symmetric (equals_of_cSocklen none right))).trans none)

/-- The comparisons of the addresses of a set, any of which can be obtained, obey the laws exactly
when the set does not have both addresses with a length, which are those of the two families of IP,
and addresses without one, as the default constructor and the failed ones make them. -/
theorem comparisonLaws_iff (hashBytes : Bytes → UInt64) (addresses : Set SocketAddress) :
    ComparisonLaws hashBytes addresses ↔
      ∀ left ∈ addresses, ∀ right ∈ addresses, left.Alike right := by
  refine ⟨fun laws left leftMember right rightMember => ?_, comparisonLaws_of_alike hashBytes⟩
  have symmetric : ∀ one other : addresses,
      one.1.equals other.1 = true → other.1.equals one.1 = true :=
    fun _ _ => laws.equivalence.symm
  constructor
  · exact fun none => cSocklen_of_symmetric none (symmetric ⟨left, leftMember⟩ ⟨right, rightMember⟩)
  · exact fun none => cSocklen_of_symmetric none (symmetric ⟨right, rightMember⟩ ⟨left, leftMember⟩)

/-- The loopback addresses of both families. -/
theorem comparisonLaws_iff_loopbacks :
    ComparisonLaws (fun bytes => UInt64.ofNat bytes.length)
      {ofBytes [127, 0, 0, 1] 80, ofBytes [0, 0, 0, 0, 0, 0, 0, 0, 0, 0, 0, 0, 0, 0, 0, 1] 80} := by
  refine (comparisonLaws_iff _ _).mpr ?_
  rintro left (rfl | rfl) right (rfl | rfl)
  · decide
  · decide
  · decide
  · decide

/-- The default address finds itself equal to the loopback, but not the other way round, although
their hashes are of different bytes. -/
theorem default_equals_loopback :
    empty.equals (ofBytes [127, 0, 0, 1] 80) = true ∧
      (ofBytes [127, 0, 0, 1] 80).equals empty = false ∧
      empty.key ≠ (ofBytes [127, 0, 0, 1] 80).key := by
  decide

end SocketAddress

end NativeLibs.Net
