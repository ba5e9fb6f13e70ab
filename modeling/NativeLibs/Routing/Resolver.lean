/-
This file models `AppleRouteResolver`: the order of its routes, the match of a
route with a destination, and `resolve` with its two caches. How a dump of the
system's routing table is parsed is not part of it. The routes that were parsed
are an argument, with what holds of every routing table: masks are contiguous,
addresses are masked, and IPv4 routes use only the first four bytes.

A contiguous mask is larger than another one, byte by byte, exactly if it is
longer. So the first route of a sorted table that matches is one with the longest
prefix, and this holds of a cached table as well.
-/

import NativeLibs.Cidr.Range
import NativeLibs.Library.KeyOrder
import NativeLibs.Net.SocketAddress

namespace NativeLibs.RouteResolver

open Cidr Net

/-! ### Routes -/

/-- `AppleRouteResolver::IpRoute`. -/
structure IpRoute where
  address : Bytes
  netmask : Bytes
  ifIndex : UInt32
  addressSize : address.length = 16
  netmaskSize : netmask.length = 16
  deriving DecidableEq

/-- The loop of `matches`, over the bytes of the destination, the mask and the address. -/
def matchesFrom : Bytes → Bytes → Bytes → Bool
  | dest :: dests, mask :: masks, byte :: bytes =>
    if mask = 0 then true
    else if dest &&& mask ≠ byte then false
    else matchesFrom dests masks bytes
  | _, _, _ => true

/-- The number of bits that are set in a byte. -/
def popcount (byte : UInt8) : ℕ := (List.range 8).countP byte.toNat.testBit

namespace IpRoute

/-- `IpRoute::matches`. -/
def matchesDest (route : IpRoute) (dest : Bytes) : Bool :=
  matchesFrom dest route.netmask route.address

/-- `IpRoute::operator<`, by the lexicographic order of the masks. -/
def less (route other : IpRoute) : Bool := other.netmask < route.netmask

/-- The length of the prefix, as `resolve` logs it. -/
def prefixLen (route : IpRoute) : ℕ := (route.netmask.map popcount).sum

/-- The mask is contiguous and no longer than an address of the family, and the address is
masked. -/
structure WellFormed (size : ℕ) (route : IpRoute) : Prop where
  contiguous : ∃ length ≤ 8 * size, route.netmask = prefixMask 16 length
  masked : maskAddress route.address route.netmask = route.address

/-- The destination is in the network of the route. -/
def Covers (route : IpRoute) (dest : Bytes) : Prop :=
  maskAddress dest route.netmask = route.address.take dest.length

end IpRoute

/-- A sort of routes. -/
abbrev RouteSorting := Library.SortingBy IpRoute.less

/-! ### The resolver -/

/-- `IPV4_ADDRESS_SIZE` or `IPV6_ADDRESS_SIZE`. -/
def familySize (ipv4 : Bool) : ℕ := if ipv4 then 4 else 16

/-- What `read_routing_table` parses for each family. A table that cannot be dumped is empty. -/
structure SystemTables where
  routes : Bool → List IpRoute
  wellFormed : ∀ ipv4, ∀ route ∈ routes ipv4, route.WellFormed (familySize ipv4)

/-- `AppleRouteResolver`, with `ipv4_cache` and `ipv6_cache`. -/
structure AppleRouteResolver where
  cache : Bool → List IpRoute := fun _ => []

variable (sorting : RouteSorting)

/-- `read_routing_table`, which sorts what it has parsed. -/
def readRoutingTable (tables : SystemTables) (ipv4 : Bool) : List IpRoute :=
  sorting.sort (tables.routes ipv4)

namespace AppleRouteResolver

/-- The table that `resolve` uses, and the caches afterwards. In the first seconds the caches are
neither read nor written. -/
def useTable (noCache : Bool) (tables : SystemTables) (ipv4 : Bool)
    (resolver : AppleRouteResolver) : List IpRoute × AppleRouteResolver :=
  let table := if noCache then [] else resolver.cache ipv4
  let table := if table = [] then readRoutingTable sorting tables ipv4 else table
  (table, if noCache then resolver else ⟨Function.update resolver.cache ipv4 table⟩)

/-- `resolve`. -/
def resolve (noCache : Bool) (tables : SystemTables) (address : SocketAddress)
    (resolver : AppleRouteResolver) : Option UInt32 × AppleRouteResolver :=
  let (table, resolver) := resolver.useTable sorting noCache tables address.isIpv4
  ((table.find? fun route => route.matchesDest address.addrUnmapped).map IpRoute.ifIndex,
    resolver)

/-- `flush_cache`. -/
def flushCache (_ : AppleRouteResolver) : AppleRouteResolver := {}

/-- The calls, with whether it is too early for the caches and what the system's tables are. -/
inductive Call where
  | resolve (noCache : Bool) (tables : SystemTables) (address : SocketAddress)
  | flushCache

def call (resolver : AppleRouteResolver) : Call → AppleRouteResolver
  | .resolve noCache tables address => (resolver.resolve sorting noCache tables address).2
  | .flushCache => resolver.flushCache

end AppleRouteResolver

open AppleRouteResolver

/-! ### Contiguous masks -/

theorem maskByte_lt_iff {ones others : ℕ} (few : ones ≤ 8) (fewOthers : others ≤ 8) :
    maskByte ones < maskByte others ↔ ones < others := by
  have all : ∀ ones < 9, ∀ others < 9, maskByte ones < maskByte others ↔ ones < others := by
    decide
  exact all ones (Nat.lt_succ_of_le few) others (Nat.lt_succ_of_le fewOthers)

theorem maskByte_inj {ones others : ℕ} (few : ones ≤ 8) (fewOthers : others ≤ 8) :
    maskByte ones = maskByte others ↔ ones = others := by
  have all : ∀ ones < 9, ∀ others < 9, maskByte ones = maskByte others ↔ ones = others := by
    decide
  exact all ones (Nat.lt_succ_of_le few) others (Nat.lt_succ_of_le fewOthers)

theorem popcount_maskByte {ones : ℕ} (few : ones ≤ 8) : popcount (maskByte ones) = ones := by
  have all : ∀ ones < 9, popcount (maskByte ones) = ones := by decide
  exact all ones (Nat.lt_succ_of_le few)

theorem prefixMask_lt_iff {size length other : ℕ} (fits : length ≤ 8 * size)
    (otherFits : other ≤ 8 * size) :
    prefixMask size length < prefixMask size other ↔ length < other := by
  induction size generalizing length other with
  | zero => exact iff_of_false (List.not_lt_nil _) (by omega)
  | succ size inductionHypothesis =>
    rw [prefixMask_succ, prefixMask_succ, List.cons_lt_cons_iff,
      maskByte_lt_iff (Nat.min_le_left _ _) (Nat.min_le_left _ _),
      maskByte_inj (Nat.min_le_left _ _) (Nat.min_le_left _ _),
      inductionHypothesis (by omega) (by omega)]
    omega

theorem sum_popcount_prefixMask {size length : ℕ} (fits : length ≤ 8 * size) :
    ((prefixMask size length).map popcount).sum = length := by
  induction size generalizing length with
  | zero => exact (Nat.le_zero.mp fits).symm
  | succ size inductionHypothesis =>
    rw [prefixMask_succ, List.map_cons, List.sum_cons, popcount_maskByte (Nat.min_le_left _ _),
      inductionHypothesis (by omega)]
    omega

/-! ### Matching -/

theorem matchesFrom_of_zero (size : ℕ) (dest address : Bytes) :
    matchesFrom dest (prefixMask size 0) address = true := by
  cases size with
  | zero => cases dest with
    | nil => rfl
    | cons byte rest => rfl
  | succ size =>
    rw [prefixMask_succ]
    cases dest with
    | nil => rfl
    | cons byte rest => cases address with
      | nil => rfl
      | cons first others => rfl

/-- The loop stops at the first byte of the mask that is zero. With a contiguous mask and a masked
address the other bytes match. -/
theorem matchesFrom_iff {size length : ℕ} {dest address : Bytes} (fits : dest.length ≤ size)
    (addressSize : address.length = size)
    (masked : maskAddress address (prefixMask size length) = address) :
    matchesFrom dest (prefixMask size length) address = true ↔
      maskAddress dest (prefixMask size length) = address.take dest.length := by
  induction dest generalizing size length address with
  | nil => exact iff_of_true (by rw [matchesFrom]; simp) rfl
  | cons byte rest inductionHypothesis =>
    obtain ⟨size, rfl⟩ := Nat.exists_eq_add_of_le' (Nat.one_le_of_lt fits)
    obtain ⟨first, others, rfl⟩ := List.exists_cons_of_length_eq_add_one addressSize
    rw [prefixMask_succ, maskAddress_cons] at masked
    obtain ⟨firstMasked, othersMasked⟩ := List.cons.inj masked
    have later := inductionHypothesis (Nat.le_of_succ_le_succ fits) (Nat.succ.inj addressSize)
      othersMasked
    rw [prefixMask_succ, maskAddress_cons, List.length_cons, List.take_succ_cons, matchesFrom,
      List.cons.injEq, ← later]
    by_cases zero : maskByte (min 8 length) = 0
    · have short : length = 0 := by
        have none := (maskByte_inj (Nat.min_le_left 8 length) (Nat.zero_le 8)).mp zero
        omega
      rw [zero, UInt8.and_zero] at firstMasked
      rw [if_pos zero, zero, UInt8.and_zero, short, Nat.zero_sub]
      exact iff_of_true rfl ⟨firstMasked, matchesFrom_of_zero size rest others⟩
    · rw [if_neg zero]
      by_cases same : byte &&& maskByte (min 8 length) = first
      · rw [if_neg (not_not.mpr same), and_iff_right same]
      · rw [if_pos same]
        exact iff_of_false Bool.false_ne_true fun both => same both.1

namespace IpRoute

variable {size : ℕ} {route other : IpRoute}

theorem WellFormed.netmask_eq (wellFormed : route.WellFormed size) (fits : size ≤ 16) :
    route.prefixLen ≤ 8 * size ∧ route.netmask = prefixMask 16 route.prefixLen := by
  obtain ⟨length, short, netmask⟩ := wellFormed.contiguous
  have same : route.prefixLen = length := by
    rw [prefixLen, netmask, sum_popcount_prefixMask (by omega)]
  rw [same]
  exact ⟨short, netmask⟩

theorem WellFormed.matchesDest_iff (wellFormed : route.WellFormed size) (fits : size ≤ 16)
    {dest : Bytes} (destSize : dest.length = size) :
    route.matchesDest dest = true ↔ route.Covers dest := by
  have netmask := (wellFormed.netmask_eq fits).2
  have masked := wellFormed.masked
  rw [netmask] at masked
  rw [matchesDest, Covers, netmask]
  exact matchesFrom_iff (destSize.trans_le fits) route.addressSize masked

theorem prefixLen_le_of_less (wellFormed : route.WellFormed size)
    (otherWellFormed : other.WellFormed size) (fits : size ≤ 16)
    (notAfter : other.less route = false) : other.prefixLen ≤ route.prefixLen := by
  obtain ⟨short, netmask⟩ := wellFormed.netmask_eq fits
  obtain ⟨otherShort, otherNetmask⟩ := otherWellFormed.netmask_eq fits
  rw [less, decide_eq_false_iff_not, netmask, otherNetmask,
    prefixMask_lt_iff (by omega) (by omega)] at notAfter
  exact Nat.le_of_not_lt notAfter

end IpRoute

/-! ### The longest prefix -/

/-- The interface of a route with the longest prefix of those that cover the destination, or none
if no route covers it. -/
def LongestMatch (routes : List IpRoute) (dest : Bytes) : Option UInt32 → Prop
  | none => ∀ route ∈ routes, ¬route.Covers dest
  | some ifIndex => ∃ route ∈ routes, route.Covers dest ∧ route.ifIndex = ifIndex ∧
      ∀ other ∈ routes, other.Covers dest → other.prefixLen ≤ route.prefixLen

/-- The first route of a sorted table that matches has the longest prefix. -/
theorem find_longest {size : ℕ} (fits : size ≤ 16) {routes : List IpRoute}
    (wellFormed : ∀ route ∈ routes, route.WellFormed size) {dest : Bytes}
    (destSize : dest.length = size) :
    LongestMatch routes dest
      (((sorting.sort routes).find? fun route => route.matchesDest dest).map IpRoute.ifIndex) := by
  have member := fun route => (sorting.perm routes).mem_iff (a := route)
  have covers := fun route inside => (wellFormed route inside).matchesDest_iff fits destSize
  cases found : (sorting.sort routes).find? fun route => route.matchesDest dest with
  | none =>
    intro route inside covered
    exact List.find?_eq_none.mp found route ((member route).mpr inside)
      ((covers route inside).mpr covered)
  | some first =>
    obtain ⟨matched, front, back, split, before⟩ := List.find?_eq_some_iff_append.mp found
    have inside : first ∈ routes := (member first).mp (List.mem_of_find?_eq_some found)
    refine ⟨first, inside, (covers first inside).mp matched, rfl, fun other also covered => ?_⟩
    have position : other ∈ front ++ first :: back := split ▸ (member other).mpr also
    rcases List.mem_append.mp position with earlier | later
    · have skipped := before other earlier
      rw [(covers other also).mpr covered] at skipped
      exact absurd skipped Bool.false_ne_true
    · rcases List.mem_cons.mp later with rfl | after
      · exact le_rfl
      · have sorted := sorting.sorted routes
        rw [split] at sorted
        have ordered := (List.pairwise_cons.mp (List.pairwise_append.mp sorted).2.1).1 other after
        exact IpRoute.prefixLen_le_of_less (wellFormed first inside) (wellFormed other also) fits
          ordered

/-! ### Destinations -/

theorem length_area (address : SocketAddress) {offset count : ℕ} (inside : offset + count ≤ 28) :
    (address.area offset count).length = count := by
  rw [SocketAddress.area, List.length_take, List.length_drop, address.size]
  omega

theorem length_addrUnmapped (address : SocketAddress)
    (family : address.family = afInet ∨ address.family = afInet6) :
    address.addrUnmapped.length = familySize address.isIpv4 := by
  rw [SocketAddress.addrUnmapped, SocketAddress.isIpv4]
  cases mapped : address.isIpv4Mapped with
  | true =>
    rw [Bool.or_true]
    exact length_area address (by decide)
  | false =>
    rw [Bool.or_false]
    show address.addr.length = _
    rw [SocketAddress.addr]
    rcases family with inet | inet6
    · rw [if_pos inet, decide_eq_true inet]
      exact length_area address (by decide)
    · have other : address.family ≠ afInet := inet6.trans_ne (by decide)
      rw [if_neg other, if_pos inet6, decide_eq_false other]
      exact length_area address (by decide)

theorem familySize_le (ipv4 : Bool) : familySize ipv4 ≤ 16 := by
  cases ipv4 with
  | true => decide
  | false => decide

/-! ### Sequences of calls -/

/-- The system's tables at the calls of `resolve` since the caches were flushed. -/
def remember (known : List SystemTables) : Call → List SystemTables
  | .resolve _ tables _ => tables :: known
  | .flushCache => []

/-- A cache is empty or holds a table that was read since the caches were flushed. -/
def Cached (resolver : AppleRouteResolver) (known : List SystemTables) : Prop :=
  ∀ ipv4, resolver.cache ipv4 = [] ∨
    ∃ tables ∈ known, resolver.cache ipv4 = readRoutingTable sorting tables ipv4

variable {sorting} {resolver : AppleRouteResolver} {known : List SystemTables}

theorem Cached.useTable (cached : Cached sorting resolver known) (noCache : Bool)
    (tables : SystemTables) (ipv4 : Bool) :
    ∃ used, (used = tables ∨ noCache = false ∧ used ∈ known) ∧
      (resolver.useTable sorting noCache tables ipv4).1 = readRoutingTable sorting used ipv4 := by
  rw [AppleRouteResolver.useTable]
  cases noCache with
  | true => exact ⟨tables, .inl rfl, rfl⟩
  | false =>
    by_cases empty : resolver.cache ipv4 = []
    · refine ⟨tables, .inl rfl, ?_⟩
      simp only [Bool.false_eq_true, if_false, if_pos empty]
    · obtain ⟨used, member, stored⟩ := (cached ipv4).resolve_left empty
      refine ⟨used, .inr ⟨rfl, member⟩, ?_⟩
      simp only [Bool.false_eq_true, if_false, if_neg empty]
      exact stored

theorem cache_useTable (noCache : Bool) (tables : SystemTables) (ipv4 other : Bool) :
    (resolver.useTable sorting noCache tables ipv4).2.cache other =
      if noCache = false ∧ other = ipv4 then (resolver.useTable sorting noCache tables ipv4).1
      else resolver.cache other := by
  cases noCache with
  | true => rfl
  | false =>
    by_cases same : other = ipv4
    · rw [if_pos ⟨rfl, same⟩, same]
      exact Function.update_self _ _ _
    · rw [if_neg fun both => same both.2]
      exact Function.update_of_ne same _ _

theorem Cached.call (cached : Cached sorting resolver known) (input : Call) :
    Cached sorting (resolver.call sorting input) (remember known input) := by
  cases input with
  | flushCache => exact fun ipv4 => .inl rfl
  | resolve noCache tables address =>
    intro ipv4
    show (resolver.useTable sorting noCache tables address.isIpv4).2.cache ipv4 = [] ∨
      ∃ used ∈ tables :: known,
        (resolver.useTable sorting noCache tables address.isIpv4).2.cache ipv4 =
          readRoutingTable sorting used ipv4
    rw [cache_useTable]
    split
    · rename_i stored
      obtain ⟨used, origin, table⟩ := cached.useTable noCache tables address.isIpv4
      rw [← stored.2] at table
      exact .inr ⟨used, List.mem_cons.mpr (origin.imp_right And.right), stored.2 ▸ table⟩
    · exact (cached ipv4).imp_right fun ⟨used, member, stored⟩ =>
        ⟨used, List.mem_cons_of_mem tables member, stored⟩

theorem Cached.calls (cached : Cached sorting resolver known) (calls : List Call) :
    Cached sorting (calls.foldl (AppleRouteResolver.call sorting) resolver)
      (calls.foldl remember known) := by
  induction calls generalizing resolver known with
  | nil => exact cached
  | cons input rest inductionHypothesis => exact inductionHypothesis (cached.call input)

/-- After any calls, `resolve` returns the interface of a route with the longest prefix of those
that cover the destination, and none if there is no such route. The routes are those that the
system has now for the family of the destination, or had at an earlier call since the caches were
flushed, if it is not too early for the caches. -/
theorem resolve_longest (sorting : RouteSorting) (calls : List Call) (noCache : Bool)
    (tables : SystemTables) (address : SocketAddress)
    (family : address.family = afInet ∨ address.family = afInet6) :
    ∃ used, (used = tables ∨ noCache = false ∧ used ∈ calls.foldl remember []) ∧
      LongestMatch (used.routes address.isIpv4) address.addrUnmapped
        ((calls.foldl (AppleRouteResolver.call sorting) {}).resolve sorting noCache tables
          address).1 := by
  have initial : Cached sorting {} [] := fun ipv4 => .inl rfl
  obtain ⟨used, origin, table⟩ :=
    (initial.calls calls).useTable noCache tables address.isIpv4
  refine ⟨used, origin, ?_⟩
  have longest := find_longest sorting (familySize_le address.isIpv4)
    (used.wellFormed address.isIpv4) (length_addrUnmapped address family)
  rw [← readRoutingTable, ← table] at longest
  exact longest

/-! ### Two networks, one in the other -/

theorem not_less_iff (route other : IpRoute) : other.less route = false ↔
    other.netmask ≤ route.netmask := by
  rw [IpRoute.less, decide_eq_false_iff_not, List.not_lt]

/-- A sort that can be executed. -/
def insertionSorting : RouteSorting :=
  .insertion IpRoute.less
    (fun route other => by
      rw [not_less_iff, not_less_iff]
      exact List.le_total _ _)
    fun first second third earlier later => by
      rw [not_less_iff] at earlier later ⊢
      exact List.le_trans later earlier

/-- `10.0.0.0/8` through the first interface and `10.1.0.0/16` through the second one. -/
def nestedTables : SystemTables where
  routes ipv4 :=
    if ipv4 then
      [⟨[10, 0, 0, 0] ++ List.replicate 12 0, prefixMask 16 8, 1, rfl, rfl⟩,
        ⟨[10, 1, 0, 0] ++ List.replicate 12 0, prefixMask 16 16, 2, rfl, rfl⟩]
    else []
  wellFormed ipv4 := by
    cases ipv4 with
    | true =>
      simp only [if_true, List.forall_mem_cons]
      exact ⟨⟨⟨8, by decide, rfl⟩, by decide⟩, ⟨⟨16, by decide, rfl⟩, by decide⟩,
        List.forall_mem_nil _⟩
    | false => exact List.forall_mem_nil _

/-- `10.1.2.3`, mapped. -/
def mappedDestination : SocketAddress :=
  SocketAddress.ofBytes (ipv4MappedPrefix ++ [10, 1, 2, 3]) 80

theorem resolve_longest_nested :
    (AppleRouteResolver.resolve insertionSorting true nestedTables mappedDestination {}).1 =
        some 2 ∧
      ∃ used, (used = nestedTables ∨ true = false ∧ used ∈ [].foldl remember []) ∧
        LongestMatch (used.routes mappedDestination.isIpv4) mappedDestination.addrUnmapped
          ((List.foldl (AppleRouteResolver.call insertionSorting) {} []).resolve insertionSorting
            true nestedTables mappedDestination).1 :=
  ⟨by decide, resolve_longest insertionSorting [] true nestedTables mappedDestination
    (.inr (by decide))⟩

end NativeLibs.RouteResolver
