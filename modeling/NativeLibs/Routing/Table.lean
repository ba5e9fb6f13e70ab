/-
This file embeds `LinuxRoutingTable` of `network_monitor.cpp`: how a route is read
from a Netlink message, how `reload` loads the whole table, and how the handlers
of single notifications change it. The sockets are not part of it: what the kernel
sends is an argument, as a list of messages. Whether an interface is ignored is a
function of its index.

A route entry in the table was parsed from a message, so that its destination is a
valid range of IPv4 or IPv6 addresses. That is part of the type here.

`std::sort` may leave equal entries in any order. It is an argument that sorts.
-/

import NativeLibs.Cidr.Range
import NativeLibs.Library.KeyOrder

namespace NativeLibs.Routing

open Cidr

/-! ### Route entries -/

/-- `IPV4_ADDRESS_SIZE`. -/
def ipv4AddressSize : ℕ := 4

/-- `IPV6_ADDRESS_SIZE`. -/
def ipv6AddressSize : ℕ := 16

/-- `RouteEntry`, with `prefix` as its destination. -/
structure RouteEntry where
  destination : CidrRange
  ifIndex : UInt32 := 0
  metric : UInt32 := 0
  valid : destination.valid = true
  size : destination.address.length = ipv4AddressSize ∨
    destination.address.length = ipv6AddressSize
  deriving DecidableEq

namespace RouteEntry

/-- `RouteEntry::operator<`. -/
def less (entry other : RouteEntry) : Bool :=
  if entry.destination.prefixLen ≠ other.destination.prefixLen then
    entry.destination.prefixLen > other.destination.prefixLen
  else entry.metric < other.metric

/-- `RouteEntry::is_default_route`. -/
def isDefaultRoute (entry : RouteEntry) : Bool := entry.destination.prefixLen = 0

/-- The entry belongs to `m_routes_v4`. -/
def isV4 (entry : RouteEntry) : Bool := entry.destination.address.length = ipv4AddressSize

end RouteEntry

/-- How the handlers find the entry for a route. -/
def sameRoute (entry other : RouteEntry) : Bool :=
  rangeEquals other.destination entry.destination && other.ifIndex = entry.ifIndex

/-! ### Messages -/

/-- The attributes of a route message. A payload that is too short for a number is none. -/
inductive Attribute where
  | dst (payload : Bytes)
  | oif (payload : Option UInt32)
  | priority (payload : Option UInt32)
  | other

/-- A route message: `rtmsg` with its attributes. -/
structure RouteMessage where
  unicast : Bool
  mainOrDefaultTable : Bool
  inet : Bool
  dstLen : ℕ
  attributes : List Attribute

/-- What the loop over the attributes collects. -/
structure Attributes (addrLen : ℕ) where
  dstAddr : Bytes := []
  ifIndex : UInt32 := 0
  metric : UInt32 := 0
  whole : dstAddr = [] ∨ dstAddr.length = addrLen

/-- One round of the loop over the attributes. -/
def Attributes.read {addrLen : ℕ} (attributes : Attributes addrLen) :
    Attribute → Attributes addrLen
  | .dst payload =>
    if enough : addrLen ≤ payload.length then
      { attributes with
        dstAddr := payload.take addrLen
        whole := .inr (List.length_take_of_le enough) }
    else attributes
  | .oif payload => { attributes with ifIndex := payload.getD attributes.ifIndex }
  | .priority payload => { attributes with metric := payload.getD attributes.metric }
  | .other => attributes

/-- A message without a destination is for the address of zeros. -/
def Attributes.address {addrLen : ℕ} (attributes : Attributes addrLen) : Bytes :=
  if attributes.dstAddr.isEmpty then List.replicate addrLen 0 else attributes.dstAddr

theorem Attributes.length_address {addrLen : ℕ} (attributes : Attributes addrLen) :
    attributes.address.length = addrLen := by
  unfold Attributes.address
  cases whole : attributes.dstAddr with
  | nil => exact List.length_replicate
  | cons byte rest =>
    have length := attributes.whole.resolve_left (by rw [whole]; exact List.cons_ne_nil _ _)
    rw [whole] at length
    exact length

theorem length_of_valid (address : Bytes) (prefixLen : ℕ)
    (valid : (CidrRange.init address prefixLen).valid = true) :
    (CidrRange.init address prefixLen).address.length = address.length := by
  unfold CidrRange.init at valid ⊢
  split
  · rename_i outside
    rw [dif_pos outside] at valid
    cases valid
  · exact length_maskAddress _ _

/-- `addr_len` of `parse_route_msg`. -/
def RouteMessage.addrLen (message : RouteMessage) : ℕ :=
  if message.inet then ipv4AddressSize else ipv6AddressSize

theorem RouteMessage.addrLen_eq (message : RouteMessage) :
    message.addrLen = ipv4AddressSize ∨ message.addrLen = ipv6AddressSize := by
  unfold RouteMessage.addrLen
  split
  · exact .inl rfl
  · exact .inr rfl

/-- `LinuxRoutingTable::parse_route_msg`. -/
def parseRouteMsg (message : RouteMessage) : Option RouteEntry :=
  if !message.unicast then none
  else if !message.mainOrDefaultTable then none
  else
    let attributes : Attributes message.addrLen :=
      message.attributes.foldl Attributes.read { whole := .inl rfl }
    if valid : (CidrRange.init attributes.address message.dstLen).valid = true then
      some
        { destination := CidrRange.init attributes.address message.dstLen
          ifIndex := attributes.ifIndex
          metric := attributes.metric
          valid
          size := by
            rw [length_of_valid _ _ valid, attributes.length_address]
            exact message.addrLen_eq }
    else none

/-! ### The table -/

/-- A sort of route entries. -/
abbrev Sorting := Library.SortingBy RouteEntry.less

/-- `LinuxRoutingTable`. -/
structure RoutingTable where
  routesV4 : List RouteEntry := []
  routesV6 : List RouteEntry := []
  prevDefaultV4 : Option UInt32 := none
  prevDefaultV6 : Option UInt32 := none
  defaultChanged : Bool := false

namespace RoutingTable

/-- The entries `find_default_route` looks for. -/
def eligible (ignored : UInt32 → Bool) (entry : RouteEntry) : Bool :=
  entry.isDefaultRoute && entry.ifIndex ≠ 0 && !ignored entry.ifIndex

/-- `LinuxRoutingTable::find_default_route`. -/
def findDefaultRoute (ignored : UInt32 → Bool) (routes : List RouteEntry) : Option UInt32 :=
  (routes.find? (eligible ignored)).map RouteEntry.ifIndex

/-- `LinuxRoutingTable::sort_and_update_cache`. -/
def sortAndUpdateCache (sorting : Sorting) (ignored : UInt32 → Bool) (table : RoutingTable) :
    RoutingTable :=
  let routesV4 := sorting.sort table.routesV4
  let routesV6 := sorting.sort table.routesV6
  let newDefaultV4 := findDefaultRoute ignored routesV4
  let newDefaultV6 := findDefaultRoute ignored routesV6
  if newDefaultV4 ≠ table.prevDefaultV4 ∨ newDefaultV6 ≠ table.prevDefaultV6 then
    ⟨routesV4, routesV6, newDefaultV4, newDefaultV6, true⟩
  else { table with routesV4, routesV6 }

/-- `get_routes_by_addr_size`, with a change of the routes. -/
def changeRoutes (table : RoutingTable) (isV4 : Bool)
    (change : List RouteEntry → List RouteEntry) : RoutingTable :=
  if isV4 then { table with routesV4 := change table.routesV4 }
  else { table with routesV6 := change table.routesV6 }

/-- `find_if` for the entry of a route, and then the assignment to it or `push_back`. -/
def assignFirst (entry : RouteEntry) : List RouteEntry → List RouteEntry
  | [] => [entry]
  | first :: rest =>
    if sameRoute entry first then entry :: rest else first :: assignFirst entry rest

/-- `LinuxRoutingTable::handle_new_route`. -/
def handleNewRoute (sorting : Sorting) (ignored : UInt32 → Bool) (table : RoutingTable)
    (message : RouteMessage) : RoutingTable :=
  match parseRouteMsg message with
  | none => table
  | some entry =>
    (table.changeRoutes entry.isV4 (assignFirst entry)).sortAndUpdateCache sorting ignored

/-- `LinuxRoutingTable::handle_del_route`. -/
def handleDelRoute (sorting : Sorting) (ignored : UInt32 → Bool) (table : RoutingTable)
    (message : RouteMessage) : RoutingTable :=
  match parseRouteMsg message with
  | none => table
  | some entry =>
    (table.changeRoutes entry.isV4
      (List.filter fun route => !sameRoute entry route)).sortAndUpdateCache sorting ignored

/-- The messages `reload` receives. -/
inductive Netlink where
  | done
  | error
  | newRoute (message : RouteMessage)
  | other

/-- The loop of `reload` over what it receives: the new routes, unless an error comes or nothing
more can be received. -/
def receiveRoutes : List Netlink → List RouteEntry → List RouteEntry →
    Option (List RouteEntry × List RouteEntry)
  | [], _, _ => none
  | .done :: _, newRoutesV4, newRoutesV6 => some (newRoutesV4, newRoutesV6)
  | .error :: _, _, _ => none
  | .newRoute message :: rest, newRoutesV4, newRoutesV6 =>
    match parseRouteMsg message with
    | none => receiveRoutes rest newRoutesV4 newRoutesV6
    | some entry =>
      if entry.isV4 then receiveRoutes rest (newRoutesV4 ++ [entry]) newRoutesV6
      else receiveRoutes rest newRoutesV4 (newRoutesV6 ++ [entry])
  | .other :: rest, newRoutesV4, newRoutesV6 => receiveRoutes rest newRoutesV4 newRoutesV6

/-- `LinuxRoutingTable::reload`, once the request was sent. -/
def reload (sorting : Sorting) (ignored : UInt32 → Bool) (table : RoutingTable)
    (received : List Netlink) : Bool × RoutingTable :=
  match receiveRoutes received [] [] with
  | none => (false, table)
  | some (newRoutesV4, newRoutesV6) =>
    (true, { table with routesV4 := newRoutesV4, routesV6 := newRoutesV6 }.sortAndUpdateCache
      sorting ignored)

/-- `LinuxRoutingTable::get_default_if_index`. -/
def getDefaultIfIndex (table : RoutingTable) : Option UInt32 :=
  if table.prevDefaultV4.isSome then table.prevDefaultV4 else table.prevDefaultV6

end RoutingTable

end NativeLibs.Routing
