/-
This file proves what the casts between the families of a socket address keep.
An IPv4 address and the IPv6 address it is mapped to are cast to each other, and
to themselves, and nothing else is cast to the other family. The two differ in
their layout only: every accessor that looks through the mapping returns the same
for both.
-/

import NativeLibs.Net.Comparison

namespace NativeLibs.Net

theorem ntohs_htons (port : UInt16) : ntohs (htons port) = port := by
  have bound := port.toNat_lt
  have high : port.toNat / 256 % 256 = port.toNat / 256 := by omega
  simp only [ntohs, htons, List.getD_cons_zero, List.getD_cons_succ, UInt8.toNat_ofNat',
    Nat.reducePow, high]
  rw [Nat.div_add_mod', UInt16.ofNat_toNat]

namespace SocketAddress

/-! ### Addresses made of four bytes and of sixteen -/

theorem storage_ofMemory {memory : Bytes} (short : memory.length ≤ 28) :
    (ofMemory memory).storage = memory ++ List.replicate (28 - memory.length) 0 := by
  show (memory ++ List.replicate 28 0).take 28 = _
  rw [List.take_append, List.take_of_length_le short, List.take_replicate,
    Nat.min_eq_left (Nat.sub_le _ _)]

theorem isIpv4Mapped_of_family {address : SocketAddress} (ipv4 : address.family = afInet) :
    address.isIpv4Mapped = false := by
  rw [isIpv4Mapped, ipv4]
  rfl

theorem length_prefixed {addr : Bytes} (size : addr.length = 4) :
    (ipv4MappedPrefix ++ addr).length = 16 := by
  rw [List.length_append, size]
  rfl

section

variable {addr : Bytes} (port : UInt16)

theorem storage_four (size : addr.length = 4) :
    (ofBytes addr port).storage = [2, 0] ++ (htons port ++ (addr ++ List.replicate 20 0)) := by
  have length : ([2, 0] ++ htons port ++ addr).length = 8 := by
    rw [List.length_append, size]
    rfl
  rw [ofBytes, if_neg (by omega), if_pos size, storage_ofMemory (by omega), length]
  simp only [List.append_assoc, Nat.reduceSub]

theorem storage_sixteen (size : addr.length = 16) :
    (ofBytes addr port).storage =
      [10, 0] ++ (htons port ++ ([0, 0, 0, 0] ++ (addr ++ List.replicate 4 0))) := by
  have length : ([10, 0] ++ htons port ++ [0, 0, 0, 0] ++ addr).length = 24 := by
    rw [List.length_append, size]
    rfl
  rw [ofBytes, if_pos size, storage_ofMemory (by omega), length]
  simp only [List.append_assoc, Nat.reduceSub]

theorem family_four (size : addr.length = 4) : (ofBytes addr port).family = afInet := by
  rw [family, storage_four port size]
  rfl

theorem family_sixteen (size : addr.length = 16) : (ofBytes addr port).family = afInet6 := by
  rw [family, storage_sixteen port size]
  rfl

theorem addr_four (size : addr.length = 4) : (ofBytes addr port).addr = addr := by
  rw [SocketAddress.addr, if_pos (family_four port size), area, storage_four port size]
  exact List.take_left' size

theorem area_sixteen (size : addr.length = 16) : (ofBytes addr port).area 8 16 = addr := by
  rw [area, storage_sixteen port size]
  exact List.take_left' size

theorem addr_sixteen (size : addr.length = 16) : (ofBytes addr port).addr = addr := by
  rw [SocketAddress.addr, family_sixteen port size, if_neg (by decide), if_pos rfl,
    area_sixteen port size]

theorem port_ofBytes (size : addr.length = 4 ∨ addr.length = 16) :
    (ofBytes addr port).port = port := by
  rcases size with four | sixteen
  · rw [SocketAddress.port, family_four port four, if_neg (by decide), if_pos rfl, area,
      storage_four port four]
    exact ntohs_htons port
  · rw [SocketAddress.port, if_pos (family_sixteen port sixteen), area,
      storage_sixteen port sixteen]
    exact ntohs_htons port

theorem isIpv4Mapped_four (size : addr.length = 4) :
    (ofBytes addr port).isIpv4Mapped = false :=
  isIpv4Mapped_of_family (family_four port size)

theorem isIpv4Mapped_sixteen (size : addr.length = 16) :
    (ofBytes addr port).isIpv4Mapped = true ↔ addr.take 12 = ipv4MappedPrefix := by
  have behind : (ofBytes addr port).storage.drop 8 = addr ++ List.replicate 4 0 := by
    rw [storage_sixteen port size]
    rfl
  have long : ipv4MappedPrefix.length ≤ (addr ++ List.replicate 4 0).length := by
    rw [List.length_append, size]
    decide
  have front : (addr ++ List.replicate 4 0).take ipv4MappedPrefix.length = addr.take 12 :=
    List.take_append_of_le_length (by rw [size]; decide)
  rw [isIpv4Mapped, family_sixteen port size, behind, Bool.and_eq_true, decide_eq_true_iff,
    decide_eq_true_iff, and_iff_right rfl, memcmp_eq_iff long le_rfl, front, List.take_length]

theorem isIpv4Mapped_prefixed (size : addr.length = 4) :
    (ofBytes (ipv4MappedPrefix ++ addr) port).isIpv4Mapped = true := by
  exact (isIpv4Mapped_sixteen port (length_prefixed size)).mpr (List.take_left' rfl)

end

/-! ### The casts -/

theorem toIpv4Mapped_four {addr : Bytes} (port : UInt16) (size : addr.length = 4) :
    (ofBytes addr port).toIpv4Mapped = ofBytes (ipv4MappedPrefix ++ addr) port := by
  rw [toIpv4Mapped, family_four port size, if_neg (by decide), if_neg (not_not.mpr rfl),
    addr_four port size, port_ofBytes port (.inl size)]

theorem toIpv4Unmapped_prefixed {addr : Bytes} (port : UInt16) (size : addr.length = 4) :
    (ofBytes (ipv4MappedPrefix ++ addr) port).toIpv4Unmapped = ofBytes addr port := by
  have sixteen := length_prefixed size
  rw [toIpv4Unmapped, family_sixteen port sixteen, if_neg (by decide),
    isIpv4Mapped_prefixed port size, addr_sixteen port sixteen, port_ofBytes port (.inr sixteen),
    List.drop_left]
  rfl

theorem toIpv4Unmapped_four {addr : Bytes} (port : UInt16) (size : addr.length = 4) :
    (ofBytes addr port).toIpv4Unmapped = ofBytes addr port := by
  rw [toIpv4Unmapped, if_pos (family_four port size)]

theorem toIpv4Mapped_sixteen {addr : Bytes} (port : UInt16) (size : addr.length = 16) :
    (ofBytes addr port).toIpv4Mapped = ofBytes addr port := by
  rw [toIpv4Mapped, if_pos (family_sixteen port size)]

theorem toIpv4Unmapped_sixteen {addr : Bytes} (port : UInt16) (size : addr.length = 16)
    (notMapped : (ofBytes addr port).isIpv4Mapped = false) :
    (ofBytes addr port).toIpv4Unmapped = empty := by
  rw [toIpv4Unmapped, family_sixteen port size, if_neg (by decide), notMapped]
  rfl

/-! ### The predicates that look through the mapping -/

theorem family_toIpv4Unmapped {address : SocketAddress} (mapped : address.isIpv4Mapped = true) :
    address.toIpv4Unmapped.family = afInet := by
  have ipv6 : address.family = afInet6 := by
    rw [isIpv4Mapped, Bool.and_eq_true, decide_eq_true_iff] at mapped
    exact mapped.1
  have four : (address.addr.drop ipv4MappedPrefix.length).length = 4 := by
    rw [SocketAddress.addr, ipv6, if_neg (by decide), if_pos rfl, area]
    simp [address.size, ipv4MappedPrefix]
  rw [toIpv4Unmapped, ipv6, if_neg (by decide), mapped]
  exact family_four address.port four

theorem testAddress_congr (test : UInt32 → Bool) (wanted : Bytes) {address : SocketAddress}
    {first second : SocketAddress → Bool} (same : address.isIpv4Mapped = true →
      first address.toIpv4Unmapped = second address.toIpv4Unmapped) :
    testAddress test wanted first address = testAddress test wanted second address := by
  unfold testAddress
  cases mapped : address.isIpv4Mapped with
  | false => simp only [Bool.not_false, if_true]
  | true => rw [same mapped]

/-- `is_loopback` and `is_any` call themselves, as the source has it. -/
theorem testUnmapped_eq (test : UInt32 → Bool) (wanted : Bytes) (address : SocketAddress) :
    testUnmapped test wanted address =
      testAddress test wanted (testUnmapped test wanted) address := by
  refine testAddress_congr test wanted fun mapped => testAddress_congr test wanted fun again => ?_
  rw [isIpv4Mapped_of_family (family_toIpv4Unmapped mapped)] at again
  cases again

theorem testUnmapped_prefixed (test : UInt32 → Bool) (wanted : Bytes) {addr : Bytes}
    (port : UInt16) (size : addr.length = 4) :
    testUnmapped test wanted (ofBytes (ipv4MappedPrefix ++ addr) port) =
      testUnmapped test wanted (ofBytes addr port) := by
  have sixteen := length_prefixed size
  rw [testUnmapped_eq, testAddress, family_sixteen port sixteen, if_neg (by decide), if_pos rfl,
    isIpv4Mapped_prefixed port size, toIpv4Unmapped_prefixed port size]
  rfl

/-- What two addresses share that stand for the same one. -/
structure StandsForSame (left right : SocketAddress) : Prop where
  port : left.port = right.port
  isIpv4 : left.isIpv4 = right.isIpv4
  isLoopback : left.isLoopback = right.isLoopback
  isAny : left.isAny = right.isAny
  addrUnmapped : left.addrUnmapped = right.addrUnmapped

namespace StandsForSame

theorem refl (address : SocketAddress) : StandsForSame address address :=
  ⟨rfl, rfl, rfl, rfl, rfl⟩

theorem symm {left right : SocketAddress} (same : StandsForSame left right) :
    StandsForSame right left :=
  ⟨same.port.symm, same.isIpv4.symm, same.isLoopback.symm, same.isAny.symm, same.addrUnmapped.symm⟩

theorem prefixed {addr : Bytes} (port : UInt16) (size : addr.length = 4) :
    StandsForSame (ofBytes addr port) (ofBytes (ipv4MappedPrefix ++ addr) port) where
  port := by
    rw [port_ofBytes port (.inl size), port_ofBytes port (.inr (length_prefixed size))]
  isIpv4 := by
    rw [SocketAddress.isIpv4, SocketAddress.isIpv4, family_four port size,
      isIpv4Mapped_prefixed port size, Bool.or_true]
    rfl
  isLoopback := (testUnmapped_prefixed _ _ port size).symm
  isAny := (testUnmapped_prefixed _ _ port size).symm
  addrUnmapped := by
    have sixteen := length_prefixed size
    have last : (ofBytes (ipv4MappedPrefix ++ addr) port).area 20 4 = addr := by
      rw [area, storage_sixteen port sixteen]
      exact List.take_left' size
    rw [SocketAddress.addrUnmapped, SocketAddress.addrUnmapped, isIpv4Mapped_four port size,
      isIpv4Mapped_prefixed port size]
    exact (addr_four port size).trans last.symm

end StandsForSame

/-! ### The laws of the casts -/

/-- What is expected of the casts of an address. An address that comes back is the same in all
bytes, and so for the comparison. -/
structure LawfulCasts (address : SocketAddress) : Prop where
  valid_iff : (address.socketFamilyCast afInet).valid = true ↔ address.isIpv4 = true
  back_to_inet : address.family = afInet →
    (address.socketFamilyCast afInet6).socketFamilyCast afInet = address ∧
      address.equals ((address.socketFamilyCast afInet6).socketFamilyCast afInet) = true
  back_to_inet6 : address.isIpv4Mapped = true →
    (address.socketFamilyCast afInet).socketFamilyCast afInet6 = address ∧
      address.equals ((address.socketFamilyCast afInet).socketFamilyCast afInet6) = true
  preserves : ∀ family : ℤ, (address.socketFamilyCast family).valid = true →
    StandsForSame address (address.socketFamilyCast family)

theorem socketFamilyCast_inet (address : SocketAddress) :
    address.socketFamilyCast afInet = address.toIpv4Unmapped := if_pos rfl

theorem socketFamilyCast_inet6 (address : SocketAddress) :
    address.socketFamilyCast afInet6 = address.toIpv4Mapped := by
  rw [socketFamilyCast, if_neg (by decide), if_pos rfl]

/-- A valid cast is one of the two. -/
theorem socketFamilyCast_cases {address : SocketAddress} {family : ℤ}
    (valid : (address.socketFamilyCast family).valid = true) :
    address.socketFamilyCast family = address.toIpv4Unmapped ∨
      address.socketFamilyCast family = address.toIpv4Mapped := by
  unfold socketFamilyCast at valid ⊢
  split_ifs at valid ⊢
  · exact .inl rfl
  · exact .inr rfl
  · exact absurd valid (by decide)

theorem lawfulCasts_four {addr : Bytes} (port : UInt16) (size : addr.length = 4) :
    LawfulCasts (ofBytes addr port) where
  valid_iff := by
    rw [socketFamilyCast_inet, toIpv4Unmapped_four port size, valid, isIpv4, family_four port size,
      isIpv4Mapped_four port size]
    decide
  back_to_inet _ := by
    rw [socketFamilyCast_inet6, socketFamilyCast_inet, toIpv4Mapped_four port size,
      toIpv4Unmapped_prefixed port size]
    exact ⟨rfl, (equals_iff _ _).mpr rfl⟩
  back_to_inet6 mapped := by
    rw [isIpv4Mapped_four port size] at mapped
    cases mapped
  preserves family valid := by
    rcases socketFamilyCast_cases valid with cast | cast
    · rw [cast, toIpv4Unmapped_four port size]
      exact .refl _
    · rw [cast, toIpv4Mapped_four port size]
      exact .prefixed port size

theorem lawfulCasts_prefixed {addr : Bytes} (port : UInt16) (size : addr.length = 4) :
    LawfulCasts (ofBytes (ipv4MappedPrefix ++ addr) port) := by
  have sixteen := length_prefixed size
  have unmapped := toIpv4Unmapped_prefixed port size
  refine ⟨?_, fun ipv4 => ?_, fun _ => ?_, fun family valid => ?_⟩
  · rw [socketFamilyCast_inet, unmapped, valid, isIpv4, family_four port size,
      isIpv4Mapped_prefixed port size, Bool.or_true]
    decide
  · rw [family_sixteen port sixteen] at ipv4
    exact absurd ipv4 (by decide)
  · rw [socketFamilyCast_inet, socketFamilyCast_inet6, unmapped, toIpv4Mapped_four port size]
    exact ⟨rfl, (equals_iff _ _).mpr rfl⟩
  · rcases socketFamilyCast_cases valid with cast | cast
    · rw [cast, unmapped]
      exact (StandsForSame.prefixed port size).symm
    · rw [cast, toIpv4Mapped_sixteen port sixteen]
      exact .refl _

theorem lawfulCasts_sixteen {addr : Bytes} (port : UInt16) (size : addr.length = 16)
    (notMapped : (ofBytes addr port).isIpv4Mapped = false) : LawfulCasts (ofBytes addr port) where
  valid_iff := by
    rw [socketFamilyCast_inet, toIpv4Unmapped_sixteen port size notMapped, isIpv4, notMapped,
      family_sixteen port size]
    decide
  back_to_inet ipv4 := by
    rw [family_sixteen port size] at ipv4
    exact absurd ipv4 (by decide)
  back_to_inet6 mapped := by
    rw [notMapped] at mapped
    cases mapped
  preserves family valid := by
    rcases socketFamilyCast_cases valid with cast | cast
    · rw [cast, toIpv4Unmapped_sixteen port size notMapped] at valid
      exact absurd valid (by decide)
    · rw [cast, toIpv4Mapped_sixteen port size]
      exact .refl _

/-- The casts of every address made of four or sixteen bytes and a port are lawful. -/
theorem familyCasts_lawful (addr : Bytes) (port : UInt16)
    (size : addr.length = 4 ∨ addr.length = 16) : LawfulCasts (ofBytes addr port) := by
  rcases size with four | sixteen
  · exact lawfulCasts_four port four
  · cases mapped : (ofBytes addr port).isIpv4Mapped with
    | false => exact lawfulCasts_sixteen port sixteen mapped
    | true =>
      have front := (isIpv4Mapped_sixteen port sixteen).mp mapped
      have four : (addr.drop 12).length = 4 := by rw [List.length_drop, sixteen]
      rw [← List.take_append_drop 12 addr, front]
      exact lawfulCasts_prefixed port four

/-- The mapped loopback address is the loopback address in the other family. -/
theorem familyCasts_lawful_loopback :
    (ofBytes (ipv4MappedPrefix ++ [127, 0, 0, 1]) 80).isLoopback = true ∧
      LawfulCasts (ofBytes (ipv4MappedPrefix ++ [127, 0, 0, 1]) 80) :=
  ⟨rfl, familyCasts_lawful _ 80 (.inr rfl)⟩

end SocketAddress

end NativeLibs.Net
