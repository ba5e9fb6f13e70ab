/-
This file embeds `SocketAddress` of `common/socket_address.cpp`. An address is the
memory of a `sockaddr_in6`, into which the constructors copy a `sockaddr_in` or a
`sockaddr_in6` over zeros, and which the accessors read as one of the two by the
family at its beginning. The platform is Linux on a little-endian machine: there
is no length in front of the family, and the family of 16 bits has its low byte
first, while ports and addresses are in network order.

The functions of the C library that read the text of an address are parameters.
-/

import NativeLibs.Cidr.Parse
import NativeLibs.Text.Compare

namespace NativeLibs.Net

open Cidr (cString)

/-! ### The memory of an address -/

/-- `AF_UNSPEC`. -/
def afUnspec : ℕ := 0

/-- `AF_INET`. -/
def afInet : ℕ := 2

/-- `AF_INET6`. -/
def afInet6 : ℕ := 10

/-- `IPV4_MAPPED_PREFIX`. -/
def ipv4MappedPrefix : Bytes := [0, 0, 0, 0, 0, 0, 0, 0, 0, 0, 0xff, 0xff]

/-- The family at the beginning of a `sockaddr`. -/
def familyOf (memory : Bytes) : ℕ := (memory.getD 0 0).toNat + 256 * (memory.getD 1 0).toNat

/-- The function `c_socklen` of the source file. -/
def socklenOf (memory : Bytes) : ℕ :=
  if familyOf memory = afInet6 then 28 else if familyOf memory = afInet then 16 else 0

/-- `htons`, as bytes in memory. -/
def htons (port : UInt16) : Bytes := [UInt8.ofNat (port.toNat / 256), UInt8.ofNat port.toNat]

/-- `ntohs` of two bytes in memory. -/
def ntohs (memory : Bytes) : UInt16 :=
  UInt16.ofNat ((memory.getD 0 0).toNat * 256 + (memory.getD 1 0).toNat)

/-- `ntohl` of four bytes in memory. -/
def ntohl (memory : Bytes) : UInt32 :=
  UInt32.ofNat (memory.foldl (fun value byte => value * 256 + byte.toNat) 0)

/-- `SocketAddress`, which has a `SocketAddressStorage` as its only member. -/
structure SocketAddress where
  storage : Bytes
  size : storage.length = 28
  deriving DecidableEq

namespace SocketAddress

/-- Memory is copied to a storage that was zero. -/
def ofMemory (memory : Bytes) : SocketAddress :=
  ⟨(memory ++ List.replicate 28 0).take 28, by simp⟩

/-- The port is written. It is at the same place for both families. -/
def writePort (address : SocketAddress) (port : UInt16) : SocketAddress :=
  ⟨address.storage.take 2 ++ (htons port ++ address.storage.drop 4), by
    simp [address.size, htons]⟩

/-- A part of the memory. -/
def area (address : SocketAddress) (offset count : ℕ) : Bytes :=
  (address.storage.drop offset).take count

/-! ### Constructors -/

/-- The default constructor. -/
def empty : SocketAddress := ofMemory []

/-- The constructor from a `sockaddr`, which may be null. -/
def ofSockaddr : Option Bytes → SocketAddress
  | some memory => ofMemory (memory.take (socklenOf memory))
  | none => empty

/-- The constructor from a `SocketAddressStorage`. -/
def ofStorage (storage : Bytes) (size : storage.length = 28) : SocketAddress := ⟨storage, size⟩

/-- `make_sockaddr_storage` of the bytes of an address, and the constructor that calls it. -/
def ofBytes (addr : Bytes) (port : UInt16) : SocketAddress :=
  if addr.length = 16 then
    -- the flow information comes between the port and the address
    ofMemory ([10, 0] ++ htons port ++ [0, 0, 0, 0] ++ addr)
  else if addr.length = 4 then ofMemory ([2, 0] ++ htons port ++ addr)
  else empty

/-- `IpAddress`. -/
inductive IpAddress where
  | monostate
  | ipv4 (address : { bytes : Bytes // bytes.length = 4 })
  | ipv6 (address : { bytes : Bytes // bytes.length = 16 })

/-- The constructor from an `IpAddress`. -/
def ofIpAddress (port : UInt16) : IpAddress → SocketAddress
  | .monostate => empty
  | .ipv4 address => ofBytes address.1 port
  | .ipv6 address => ofBytes address.1 port

/-- What the C library makes of the text of an address: `evutil_inet_pton` for both families, and
`getaddrinfo`, which is only asked for a `sockaddr_in6`. -/
structure Resolver where
  inetPton4 : Bytes → Option { bytes : Bytes // bytes.length = 4 }
  inetPton6 : Bytes → Option { bytes : Bytes // bytes.length = 16 }
  getaddrinfo : Bytes → Option SocketAddress

/-- The part of `make_sockaddr_storage` behind `inet_pton`: an address with a scope. Brackets are
not let through. -/
def ofScopedHost (resolver : Resolver) (numericHost : Bytes) (port : UInt16) : SocketAddress :=
  if numericHost.all fun char => !(char = 91 || char = 93) then
    match resolver.getaddrinfo (cString numericHost) with
    | some address => address.writePort port
    | none => empty
  else empty

/-- `make_sockaddr_storage` of the text of an address, and the constructor that calls it.
`INET6_ADDRSTRLEN` is 46. -/
def ofHost (resolver : Resolver) (numericHost : Bytes) (port : UInt16) : SocketAddress :=
  if numericHost.length > 46 - 1 then empty
  else
    match resolver.inetPton4 (cString numericHost) with
    | some address => ofBytes address.1 port
    | none =>
      match resolver.inetPton6 (cString numericHost) with
      | some address => ofBytes address.1 port
      | none => ofScopedHost resolver numericHost port

/-! ### Accessors -/

/-- `m_ss.sa_family`. -/
def family (address : SocketAddress) : ℕ := familyOf address.storage

/-- `SocketAddress::c_socklen`. -/
def cSocklen (address : SocketAddress) : ℕ := socklenOf address.storage

/-- `SocketAddress::valid`. -/
def valid (address : SocketAddress) : Bool := address.family ≠ afUnspec

/-- `SocketAddress::addr`. -/
def addr (address : SocketAddress) : Bytes :=
  if address.family = afInet then address.area 4 4
  else if address.family = afInet6 then address.area 8 16
  else []

/-- `SocketAddress::port`. -/
def port (address : SocketAddress) : UInt16 :=
  if address.family = afInet6 then ntohs (address.area 2 2)
  else if address.family = afInet then ntohs (address.area 2 2)
  else 0

/-- `SocketAddress::is_ipv4_mapped`. -/
def isIpv4Mapped (address : SocketAddress) : Bool :=
  address.family = afInet6 &&
    memcmp (address.storage.drop 8) ipv4MappedPrefix ipv4MappedPrefix.length = .eq

/-- `SocketAddress::is_ipv4`. -/
def isIpv4 (address : SocketAddress) : Bool := address.family = afInet || address.isIpv4Mapped

/-- `SocketAddress::addr_unmapped`. -/
def addrUnmapped (address : SocketAddress) : Bytes :=
  if !address.isIpv4Mapped then address.addr
  else address.area (8 + ipv4MappedPrefix.length) 4

/-- `SocketAddress::to_ipv4_unmapped`. -/
def toIpv4Unmapped (address : SocketAddress) : SocketAddress :=
  if address.family = afInet then address
  else if !address.isIpv4Mapped then empty
  else ofBytes (address.addr.drop ipv4MappedPrefix.length) address.port

/-- `SocketAddress::to_ipv4_mapped`. -/
def toIpv4Mapped (address : SocketAddress) : SocketAddress :=
  if address.family = afInet6 then address
  else if address.family ≠ afInet then empty
  else ofBytes (ipv4MappedPrefix ++ address.addr) address.port

/-- `SocketAddress::socket_family_cast`. -/
def socketFamilyCast (address : SocketAddress) (family : ℤ) : SocketAddress :=
  if family = afInet then address.toIpv4Unmapped
  else if family = afInet6 then address.toIpv4Mapped
  else empty

/-- The common body of `is_loopback` and `is_any`: a test of an IPv4 address, the IPv6 address that
is compared with, and what a mapped address asks of the address it stands for. -/
def testAddress (test : UInt32 → Bool) (wanted : Bytes) (unmapped : SocketAddress → Bool)
    (address : SocketAddress) : Bool :=
  if address.family = afInet then test (ntohl (address.area 4 4))
  else if address.family = afInet6 then
    if !address.isIpv4Mapped then memcmp (address.storage.drop 8) wanted wanted.length = .eq
    else unmapped address.toIpv4Unmapped
  else false

/-- The two predicates call themselves for the address a mapped one stands for, which is not mapped
any more. -/
def testUnmapped (test : UInt32 → Bool) (wanted : Bytes) : SocketAddress → Bool :=
  testAddress test wanted (testAddress test wanted fun _ => false)

/-- `SocketAddress::is_loopback`. -/
def isLoopback : SocketAddress → Bool :=
  testUnmapped (fun host => 0x7f000001 &&& 0xff000000 = host &&& 0xff000000)
    [0, 0, 0, 0, 0, 0, 0, 0, 0, 0, 0, 0, 0, 0, 0, 1]

/-- `SocketAddress::is_any`. -/
def isAny : SocketAddress → Bool :=
  testUnmapped (fun host => 0 = host) [0, 0, 0, 0, 0, 0, 0, 0, 0, 0, 0, 0, 0, 0, 0, 0]

/-! ### Comparison -/

/-- `SocketAddress::operator<`. -/
def less (address other : SocketAddress) : Bool :=
  memcmp address.storage other.storage address.cSocklen = .lt

/-- `SocketAddress::operator==`. -/
def equals (address other : SocketAddress) : Bool :=
  memcmp address.storage other.storage address.cSocklen = .eq

/-- `std::hash<ag::SocketAddress>`, where the hash of a `std::string_view` is any function. -/
def hash (hashBytes : Bytes → UInt64) (address : SocketAddress) : UInt64 :=
  hashBytes (address.storage.take address.cSocklen)

end SocketAddress

end NativeLibs.Net
