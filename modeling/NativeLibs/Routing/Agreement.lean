/-
This file compares the routing table with that of the kernel. The kernel has a
finite set of routes, and a notification adds or removes the route it carries. The
handlers do not look for that route but for one with the same destination and
interface, whatever its metric. So the table keeps in step exactly as long as the
route they find is the one that is carried.

The stored lists are sorted, and among the routes with one destination and
interface the one that is found is therefore the one with the least metric.
-/

import NativeLibs.Library.Runs
import NativeLibs.Routing.Table

namespace NativeLibs.Routing

open Cidr Library RoutingTable

/-! ### Messages of the kernel -/

theorem rangeEquals_iff {range other : CidrRange} (valid : range.valid = true)
    (otherValid : other.valid = true) : rangeEquals range other = true ↔ range = other := by
  constructor
  · intro equals
    simp only [rangeEquals, Bool.and_eq_true, decide_eq_true_eq] at equals
    obtain ⟨⟨-, prefixLen⟩, address⟩ := equals
    simp only [CidrRange.valid, decide_eq_true_eq] at valid otherValid
    cases range with
    | mk first mask length error fits maskOfPrefix masked =>
    cases other with
    | mk second otherMask otherLength otherError otherFits otherMaskOfPrefix otherMasked =>
    simp only at prefixLen address valid otherValid
    subst prefixLen address valid otherValid maskOfPrefix otherMaskOfPrefix
    rfl
  · rintro rfl
    simp [rangeEquals]

theorem sameRoute_iff (entry other : RouteEntry) :
    sameRoute entry other = true ↔
      other.destination = entry.destination ∧ other.ifIndex = entry.ifIndex := by
  rw [sameRoute, Bool.and_eq_true, rangeEquals_iff other.valid entry.valid, decide_eq_true_eq]

theorem RouteEntry.ext_of_metric {entry other : RouteEntry} (same : sameRoute entry other = true)
    (metric : other.metric = entry.metric) : other = entry := by
  obtain ⟨destination, ifIndex⟩ := (sameRoute_iff entry other).mp same
  cases entry with
  | mk _ _ _ _ _ =>
  cases other with
  | mk _ _ _ _ _ =>
  simp only at destination ifIndex metric
  subst destination ifIndex metric
  rfl

/-- The kernel leaves out the destination of a default route. -/
def dstAttributes (route : RouteEntry) : List Attribute :=
  if route.destination.prefixLen = 0 then [] else [.dst route.destination.address]

/-- The kernel leaves out a metric that is zero. -/
def priorityAttributes (route : RouteEntry) : List Attribute :=
  if route.metric = 0 then [] else [.priority (some route.metric)]

/-- The message for a route. -/
def routeMessage (route : RouteEntry) : RouteMessage where
  unicast := true
  mainOrDefaultTable := true
  inet := route.isV4
  dstLen := route.destination.prefixLen
  attributes := dstAttributes route ++ .oif (some route.ifIndex) :: priorityAttributes route

theorem addrLen_routeMessage (route : RouteEntry) :
    (routeMessage route).addrLen = route.destination.address.length := by
  have sizes := route.size
  simp only [RouteMessage.addrLen, routeMessage, RouteEntry.isV4, decide_eq_true_eq]
  split
  · rename_i v4
    exact v4.symm
  · rename_i notV4
    exact (sizes.resolve_left notV4).symm

theorem init_self (range : CidrRange) (valid : range.valid = true) :
    CidrRange.init range.address range.prefixLen = range := by
  have inside : ¬range.prefixLen > range.address.length * 8 := not_lt.mpr range.fits
  have masked := range.masked
  rw [range.maskOfPrefix] at masked
  refine (rangeEquals_iff ?_ valid).mp ?_
  · simp [CidrRange.init, CidrRange.valid, inside]
  · simp [CidrRange.init, rangeEquals, inside, masked]

theorem address_of_prefixLen_zero (range : CidrRange) (empty : range.prefixLen = 0) :
    range.address = List.replicate range.address.length 0 := by
  have masked := range.masked
  rw [range.maskOfPrefix, empty] at masked
  have zeros : prefixMask range.address.length 0 = List.replicate range.address.length 0 := by
    simp [prefixMask]
  rw [zeros] at masked
  rw [← masked, maskAddress]
  apply List.ext_getElem
  · simp
  · intro index first second
    simp

/-- What the loop over the attributes collects from the message for a route. -/
def routeAttributes (route : RouteEntry) : Attributes (routeMessage route).addrLen :=
  (routeMessage route).attributes.foldl Attributes.read { whole := .inl rfl }

theorem read_dstAttributes (route : RouteEntry)
    (before : Attributes (routeMessage route).addrLen) (unset : before.dstAddr = []) :
    ((dstAttributes route).foldl Attributes.read before).address = route.destination.address ∧
      ((dstAttributes route).foldl Attributes.read before).metric = before.metric := by
  have addrLen := addrLen_routeMessage route
  unfold dstAttributes
  by_cases empty : route.destination.prefixLen = 0
  · rw [if_pos empty, List.foldl_nil, Attributes.address, unset]
    refine ⟨?_, rfl⟩
    rw [List.isEmpty_nil, if_pos rfl, addrLen]
    exact (address_of_prefixLen_zero route.destination empty).symm
  · have nonempty : route.destination.address ≠ [] := by
      intro nothing
      have sizes := route.size
      rw [nothing] at sizes
      rcases sizes with impossible | impossible
      · cases impossible
      · cases impossible
    rw [if_neg empty, List.foldl_cons, List.foldl_nil, Attributes.read, dif_pos addrLen.le]
    refine ⟨?_, rfl⟩
    simp only [Attributes.address, addrLen, List.take_length, List.isEmpty_iff, if_neg nonempty]

/-- The metric that is read is that of the route, also if the kernel leaves it out. -/
theorem read_priorityAttributes {addrLen : ℕ} (route : RouteEntry) (before : Attributes addrLen)
    (unset : before.metric = 0) :
    ((priorityAttributes route).foldl Attributes.read before).address = before.address ∧
      ((priorityAttributes route).foldl Attributes.read before).ifIndex = before.ifIndex ∧
      ((priorityAttributes route).foldl Attributes.read before).metric = route.metric := by
  unfold priorityAttributes
  by_cases zero : route.metric = 0
  · rw [if_pos zero]
    exact ⟨rfl, rfl, unset.trans zero.symm⟩
  · rw [if_neg zero]
    exact ⟨rfl, rfl, rfl⟩

theorem routeAttributes_spec (route : RouteEntry) :
    (routeAttributes route).address = route.destination.address ∧
      (routeAttributes route).ifIndex = route.ifIndex ∧
      (routeAttributes route).metric = route.metric := by
  let start : Attributes (routeMessage route).addrLen := { whole := .inl rfl }
  let addressed := (dstAttributes route).foldl Attributes.read start
  have folded : routeAttributes route = (priorityAttributes route).foldl Attributes.read
      (addressed.read (.oif (some route.ifIndex))) := List.foldl_append
  obtain ⟨address, unset⟩ := read_dstAttributes route start rfl
  obtain ⟨kept, ifIndex, metric⟩ := read_priorityAttributes route
    (addressed.read (.oif (some route.ifIndex))) unset
  rw [folded]
  exact ⟨kept.trans address, ifIndex, metric⟩

theorem parse_routeMessage (route : RouteEntry) :
    parseRouteMsg (routeMessage route) = some route := by
  obtain ⟨address, ifIndex, metric⟩ := routeAttributes_spec route
  have made : CidrRange.init (routeAttributes route).address (routeMessage route).dstLen =
      route.destination := by
    rw [address]
    exact init_self route.destination route.valid
  have valid : (CidrRange.init (routeAttributes route).address
      (routeMessage route).dstLen).valid = true := by
    rw [made]
    exact route.valid
  unfold parseRouteMsg
  rw [if_neg (by simp [routeMessage]), if_neg (by simp [routeMessage])]
  refine (dif_pos valid).trans (congrArg some ?_)
  refine RouteEntry.ext_of_metric ((sameRoute_iff _ _).mpr ⟨made, ifIndex⟩) metric

/-! ### What is stored -/

namespace RoutingTable

/-- The routes of one family. -/
def routes (table : RoutingTable) (isV4 : Bool) : List RouteEntry :=
  if isV4 then table.routesV4 else table.routesV6

/-- The default interface of one family. -/
def prevDefault (table : RoutingTable) (isV4 : Bool) : Option UInt32 :=
  if isV4 then table.prevDefaultV4 else table.prevDefaultV6

theorem sortAndUpdateCache_spec (sorting : Sorting) (ignored : UInt32 → Bool)
    (table : RoutingTable) (isV4 : Bool) :
    (table.sortAndUpdateCache sorting ignored).routes isV4 = sorting.sort (table.routes isV4) ∧
      (table.sortAndUpdateCache sorting ignored).prevDefault isV4 =
        findDefaultRoute ignored (sorting.sort (table.routes isV4)) := by
  unfold sortAndUpdateCache
  by_cases changed : findDefaultRoute ignored (sorting.sort table.routesV4) ≠ table.prevDefaultV4 ∨
      findDefaultRoute ignored (sorting.sort table.routesV6) ≠ table.prevDefaultV6
  · simp only [if_pos changed]
    cases isV4 with
    | false => exact ⟨rfl, rfl⟩
    | true => exact ⟨rfl, rfl⟩
  · have same := changed
    rw [not_or, not_not, not_not] at same
    simp only [if_neg changed]
    cases isV4 with
    | false => exact ⟨rfl, same.2.symm⟩
    | true => exact ⟨rfl, same.1.symm⟩

theorem routes_changeRoutes (table : RoutingTable) (family isV4 : Bool)
    (change : List RouteEntry → List RouteEntry) :
    (table.changeRoutes family change).routes isV4 =
      if isV4 = family then change (table.routes isV4) else table.routes isV4 := by
  cases family with
  | false => cases isV4 with
    | false => rfl
    | true => rfl
  | true => cases isV4 with
    | false => rfl
    | true => rfl

end RoutingTable

/-- The stored routes are those of the kernel. -/
structure Stores (kernel : Finset RouteEntry) (table : RoutingTable) : Prop where
  mem : ∀ isV4 route, route ∈ table.routes isV4 ↔ route ∈ kernel ∧ route.isV4 = isV4
  nodup : ∀ isV4, (table.routes isV4).Nodup

/-- They are also sorted, and the default interfaces are up to date. -/
structure Mirrors (ignored : UInt32 → Bool) (kernel : Finset RouteEntry) (table : RoutingTable) :
    Prop extends Stores kernel table where
  sorted : ∀ isV4, (table.routes isV4).Pairwise fun entry other => other.less entry = false
  default : ∀ isV4, table.prevDefault isV4 = findDefaultRoute ignored (table.routes isV4)

theorem Stores.mirrors {kernel : Finset RouteEntry} {table : RoutingTable}
    (stores : Stores kernel table) (sorting : Sorting) (ignored : UInt32 → Bool) :
    Mirrors ignored kernel (table.sortAndUpdateCache sorting ignored) := by
  have spec := sortAndUpdateCache_spec sorting ignored table
  refine ⟨⟨fun isV4 route => ?_, fun isV4 => ?_⟩, fun isV4 => ?_, fun isV4 => ?_⟩
  · rw [(spec isV4).1, (sorting.perm _).mem_iff]
    exact stores.mem isV4 route
  · rw [(spec isV4).1, (sorting.perm _).nodup_iff]
    exact stores.nodup isV4
  · rw [(spec isV4).1]
    exact sorting.sorted _
  · rw [(spec isV4).2, (spec isV4).1]

/-- A list of the routes of the kernel, each of them once. -/
structure Dumps (dump : List RouteEntry) (kernel : Finset RouteEntry) : Prop where
  nodup : dump.Nodup
  mem : ∀ route, route ∈ dump ↔ route ∈ kernel

/-- `reload` when the kernel sends these routes. -/
def reloadFrom (sorting : Sorting) (ignored : UInt32 → Bool) (table : RoutingTable)
    (dump : List RouteEntry) : Bool × RoutingTable :=
  table.reload sorting ignored ((dump.map fun route => .newRoute (routeMessage route)) ++ [.done])

theorem receiveRoutes_dump (dump newRoutesV4 newRoutesV6 : List RouteEntry) :
    receiveRoutes ((dump.map fun route => .newRoute (routeMessage route)) ++ [.done]) newRoutesV4
        newRoutesV6 =
      some (newRoutesV4 ++ dump.filter RouteEntry.isV4,
        newRoutesV6 ++ dump.filter fun route => !route.isV4) := by
  induction dump generalizing newRoutesV4 newRoutesV6 with
  | nil => simp [receiveRoutes]
  | cons route rest inductionHypothesis =>
    simp only [List.map_cons, List.cons_append, receiveRoutes, parse_routeMessage,
      inductionHypothesis]
    cases family : route.isV4 with
    | false => simp [family]
    | true => simp [family]

/-- After a reload the table mirrors that of the kernel. -/
theorem reloadFrom_mirrors {dump : List RouteEntry} {kernel : Finset RouteEntry}
    (dumps : Dumps dump kernel) (sorting : Sorting) (ignored : UInt32 → Bool)
    (table : RoutingTable) :
    (reloadFrom sorting ignored table dump).1 = true ∧
      Mirrors ignored kernel (reloadFrom sorting ignored table dump).2 := by
  unfold reloadFrom RoutingTable.reload
  rw [receiveRoutes_dump]
  refine ⟨rfl, Stores.mirrors ⟨fun isV4 route => ?_, fun isV4 => ?_⟩ sorting ignored⟩
  · cases isV4 with
    | false => simp [RoutingTable.routes, List.mem_filter, dumps.mem]
    | true => simp [RoutingTable.routes, List.mem_filter, dumps.mem]
  · cases isV4 with
    | false => simpa [RoutingTable.routes] using dumps.nodup.filter _
    | true => simpa [RoutingTable.routes] using dumps.nodup.filter _

/-! ### The default interface -/

/-- Two tables have a default interface or not, and if they have, the two are those of default
routes of one family with the same metric. -/
structure SameDefault (table other : RoutingTable) : Prop where
  none_iff : table.getDefaultIfIndex = none ↔ other.getDefaultIfIndex = none
  metric : ∀ ifIndex otherIndex, table.getDefaultIfIndex = some ifIndex →
    other.getDefaultIfIndex = some otherIndex → ∃ isV4, ∃ route ∈ table.routes isV4,
      ∃ otherRoute ∈ other.routes isV4, route.isDefaultRoute = true ∧
        otherRoute.isDefaultRoute = true ∧ route.ifIndex = ifIndex ∧
        otherRoute.ifIndex = otherIndex ∧ route.metric = otherRoute.metric

/-- The first entry of a sorted list with a property has the least metric of all that have it and
the same prefix length. -/
theorem metric_le_of_find {property : RouteEntry → Bool} {routes : List RouteEntry}
    {first route : RouteEntry}
    (sorted : routes.Pairwise fun entry other => other.less entry = false)
    (found : routes.find? property = some first) (member : route ∈ routes)
    (candidate : property route = true)
    (samePrefix : route.destination.prefixLen = first.destination.prefixLen) :
    first.metric ≤ route.metric := by
  obtain ⟨-, front, back, rfl, before⟩ := List.find?_eq_some_iff_append.mp found
  rcases List.mem_append.mp member with earlier | later
  · have skipped := before route earlier
    rw [candidate] at skipped
    cases skipped
  · rcases List.mem_cons.mp later with rfl | after
    · exact UInt32.le_refl _
    · have ordered := (List.pairwise_cons.mp (List.pairwise_append.mp sorted).2.1).1 route after
      rw [RouteEntry.less, if_neg (not_not.mpr samePrefix), decide_eq_false_iff_not] at ordered
      exact UInt32.not_lt.mp ordered

theorem prefixLen_of_eligible {ignored : UInt32 → Bool} {entry : RouteEntry}
    (candidate : eligible ignored entry = true) : entry.destination.prefixLen = 0 := by
  simp only [eligible, RouteEntry.isDefaultRoute, Bool.and_eq_true, decide_eq_true_eq] at candidate
  exact candidate.1.1

/-- Two mirrors of one kernel table agree on the default interface of a family. -/
theorem Mirrors.sameFamily {ignored : UInt32 → Bool} {kernel : Finset RouteEntry}
    {table other : RoutingTable} (mirrors : Mirrors ignored kernel table)
    (otherMirrors : Mirrors ignored kernel other) (isV4 : Bool) :
    (table.prevDefault isV4 = none ∧ other.prevDefault isV4 = none) ∨
      ∃ route ∈ table.routes isV4, ∃ otherRoute ∈ other.routes isV4,
        table.prevDefault isV4 = some route.ifIndex ∧
        other.prevDefault isV4 = some otherRoute.ifIndex ∧ route.isDefaultRoute = true ∧
        otherRoute.isDefaultRoute = true ∧ route.metric = otherRoute.metric := by
  have same : ∀ route, route ∈ table.routes isV4 ↔ route ∈ other.routes isV4 := fun route =>
    (mirrors.mem isV4 route).trans (otherMirrors.mem isV4 route).symm
  rw [mirrors.default, otherMirrors.default, findDefaultRoute, findDefaultRoute]
  cases found : (table.routes isV4).find? (eligible ignored) with
  | none =>
    have none_ : (other.routes isV4).find? (eligible ignored) = none :=
      List.find?_eq_none.mpr fun route member =>
        List.find?_eq_none.mp found route ((same route).mpr member)
    rw [none_]
    exact .inl ⟨rfl, rfl⟩
  | some route =>
    have member := List.mem_of_find?_eq_some found
    have candidate := List.find?_some found
    cases otherFound : (other.routes isV4).find? (eligible ignored) with
    | none => exact absurd candidate (List.find?_eq_none.mp otherFound route ((same route).mp member))
    | some otherRoute =>
      have otherMember := List.mem_of_find?_eq_some otherFound
      have otherCandidate := List.find?_some otherFound
      have samePrefix := (prefixLen_of_eligible candidate).trans
        (prefixLen_of_eligible otherCandidate).symm
      have least := metric_le_of_find (mirrors.sorted isV4) found
        ((same otherRoute).mpr otherMember) otherCandidate samePrefix.symm
      have otherLeast := metric_le_of_find (otherMirrors.sorted isV4) otherFound
        ((same route).mp member) candidate samePrefix
      simp only [eligible, Bool.and_eq_true] at candidate otherCandidate
      exact .inr ⟨route, member, otherRoute, otherMember, rfl, rfl, candidate.1.1,
        otherCandidate.1.1, UInt32.le_antisymm least otherLeast⟩

/-- Two tables with default interfaces from default routes of one family with the same metric. -/
theorem SameDefault.of_routes {table other : RoutingTable} {isV4 : Bool}
    (found : ∃ route ∈ table.routes isV4, ∃ otherRoute ∈ other.routes isV4,
      table.prevDefault isV4 = some route.ifIndex ∧
      other.prevDefault isV4 = some otherRoute.ifIndex ∧ route.isDefaultRoute = true ∧
      otherRoute.isDefaultRoute = true ∧ route.metric = otherRoute.metric)
    (first : table.getDefaultIfIndex = table.prevDefault isV4)
    (second : other.getDefaultIfIndex = other.prevDefault isV4) : SameDefault table other := by
  obtain ⟨route, member, otherRoute, otherMember, default, otherDefault, isDefault,
    otherIsDefault, metric⟩ := found
  rw [default] at first
  rw [otherDefault] at second
  refine ⟨iff_of_false (by rw [first]; exact Option.some_ne_none _)
    (by rw [second]; exact Option.some_ne_none _), fun ifIndex otherIndex has otherHas => ?_⟩
  exact ⟨isV4, route, member, otherRoute, otherMember, isDefault, otherIsDefault,
    Option.some.inj (first.symm.trans has), Option.some.inj (second.symm.trans otherHas), metric⟩

theorem Mirrors.sameDefault {ignored : UInt32 → Bool} {kernel : Finset RouteEntry}
    {table other : RoutingTable} (mirrors : Mirrors ignored kernel table)
    (otherMirrors : Mirrors ignored kernel other) : SameDefault table other := by
  have first : table.getDefaultIfIndex =
      if (table.prevDefault true).isSome then table.prevDefault true else table.prevDefault false :=
    rfl
  have second : other.getDefaultIfIndex =
      if (other.prevDefault true).isSome then other.prevDefault true else other.prevDefault false :=
    rfl
  rcases mirrors.sameFamily otherMirrors true with ⟨none_, otherNone⟩ | found
  · rw [none_, Option.isSome_none, if_neg Bool.false_ne_true] at first
    rw [otherNone, Option.isSome_none, if_neg Bool.false_ne_true] at second
    rcases mirrors.sameFamily otherMirrors false with ⟨none_, otherNone⟩ | found
    · rw [none_] at first
      rw [otherNone] at second
      exact ⟨iff_of_true first second, fun ifIndex _ impossible => by
        rw [first] at impossible
        cases impossible⟩
    · exact .of_routes found first second
  · have both : (table.prevDefault true).isSome = true ∧ (other.prevDefault true).isSome = true := by
      obtain ⟨route, -, otherRoute, -, default, otherDefault, -⟩ := found
      rw [default, otherDefault]
      exact ⟨rfl, rfl⟩
    rw [if_pos both.1] at first
    rw [if_pos both.2] at second
    exact .of_routes found first second

/-! ### Notifications -/

/-- `RTM_NEWROUTE` and `RTM_DELROUTE` with the route they carry. -/
inductive Notification where
  | newRoute (route : RouteEntry)
  | delRoute (route : RouteEntry)

/-- The main table of the kernel, and what is stored of it. -/
structure World where
  kernel : Finset RouteEntry
  table : RoutingTable

/-- The kernel changes its table and sends a notification, which is handled. -/
def worldStep (sorting : Sorting) (ignored : UInt32 → Bool) (world : World) :
    Notification → Option World
  | .newRoute route => some ⟨insert route world.kernel,
      world.table.handleNewRoute sorting ignored (routeMessage route)⟩
  | .delRoute route => some ⟨world.kernel.erase route,
      world.table.handleDelRoute sorting ignored (routeMessage route)⟩

/-- The route the handler finds, if it finds one, is the one that is carried: of the routes with its
destination and interface, a new one is the first, and one to delete is the only one. -/
def Identified (world : World) : Notification → Prop
  | .newRoute route => (∀ other ∈ world.kernel, sameRoute route other = false) ∨
      (route ∈ world.kernel ∧
        ∀ other ∈ world.kernel, sameRoute route other = true → route.metric ≤ other.metric)
  | .delRoute route => ∀ other ∈ world.kernel, sameRoute route other = true → other = route

/-- What is stored is what a fresh reload of the table of the kernel stores. -/
def InStep (ignored : UInt32 → Bool) (world : World) : Prop :=
  ∀ (sorting : Sorting) (table : RoutingTable) (dump : List RouteEntry), Dumps dump world.kernel →
    (∀ isV4 route, route ∈ world.table.routes isV4 ↔
      route ∈ (reloadFrom sorting ignored table dump).2.routes isV4) ∧
    SameDefault world.table (reloadFrom sorting ignored table dump).2

theorem sameRoute_self (route : RouteEntry) : sameRoute route route = true :=
  (sameRoute_iff route route).mpr ⟨rfl, rfl⟩

theorem isV4_of_sameRoute {route other : RouteEntry} (same : sameRoute route other = true) :
    other.isV4 = route.isV4 := by
  unfold RouteEntry.isV4
  rw [((sameRoute_iff route other).mp same).1]

theorem assignFirst_of_absent (route : RouteEntry) (routes : List RouteEntry)
    (absent : ∀ other ∈ routes, sameRoute route other = false) :
    assignFirst route routes = routes ++ [route] := by
  induction routes with
  | nil => rfl
  | cons first rest inductionHypothesis =>
    rw [assignFirst, absent first List.mem_cons_self, if_neg Bool.false_ne_true,
      inductionHypothesis fun other member => absent other (List.mem_cons_of_mem _ member)]
    rfl

theorem assignFirst_of_found (route first : RouteEntry) (front back : List RouteEntry)
    (before : ∀ other ∈ front, sameRoute route other = false)
    (found : sameRoute route first = true) :
    assignFirst route (front ++ first :: back) = front ++ route :: back := by
  induction front with
  | nil => rw [List.nil_append, assignFirst, if_pos found, List.nil_append]
  | cons entry rest inductionHypothesis =>
    rw [List.cons_append, assignFirst, before entry List.mem_cons_self, if_neg Bool.false_ne_true,
      inductionHypothesis fun other member => before other (List.mem_cons_of_mem _ member)]
    rfl

namespace Mirrors

variable {ignored : UInt32 → Bool} {kernel : Finset RouteEntry} {table : RoutingTable}

theorem inStep (mirrors : Mirrors ignored kernel table) : InStep ignored ⟨kernel, table⟩ := by
  intro sorting other dump dumps
  have fresh := (reloadFrom_mirrors dumps sorting ignored other).2
  exact ⟨fun isV4 route => (mirrors.mem isV4 route).trans (fresh.mem isV4 route).symm,
    mirrors.sameDefault fresh⟩

/-- The first route with the destination and interface of another has the least metric of those. -/
theorem firstFound (mirrors : Mirrors ignored kernel table) {route other : RouteEntry}
    (member : other ∈ kernel) (same : sameRoute route other = true) :
    ∃ first front back, table.routes route.isV4 = front ++ first :: back ∧
      (∀ entry ∈ front, sameRoute route entry = false) ∧ sameRoute route first = true ∧
      first ∈ kernel ∧
      ∀ entry ∈ kernel, sameRoute route entry = true → first.metric ≤ entry.metric := by
  have stored : ∀ entry ∈ kernel, sameRoute route entry = true →
      entry ∈ table.routes route.isV4 := fun entry known same =>
    (mirrors.mem _ _).mpr ⟨known, isV4_of_sameRoute same⟩
  obtain ⟨first, found⟩ := Option.isSome_iff_exists.mp
    (List.find?_isSome.mpr ⟨other, stored other member same, same⟩)
  obtain ⟨firstSame, front, back, split, before⟩ := List.find?_eq_some_iff_append.mp found
  have skipped : ∀ entry ∈ front, sameRoute route entry = false := fun entry earlier =>
    Bool.not_eq_true' _ |>.mp (before entry earlier)
  refine ⟨first, front, back, split, skipped, firstSame,
    ((mirrors.mem _ _).mp (List.mem_of_find?_eq_some found)).1, fun entry known entrySame => ?_⟩
  have destination := ((sameRoute_iff route entry).mp entrySame).1.trans
    ((sameRoute_iff route first).mp firstSame).1.symm
  exact metric_le_of_find (mirrors.sorted route.isV4) found (stored entry known entrySame)
    entrySame (congrArg CidrRange.prefixLen destination)

/-- A change to the list of one family leaves the routes of the other alone. -/
theorem changeRoutes (mirrors : Mirrors ignored kernel table) (family : Bool)
    (change : List RouteEntry → List RouteEntry) {next : Finset RouteEntry}
    (mem : ∀ route, route ∈ change (table.routes family) ↔ route ∈ next ∧ route.isV4 = family)
    (nodup : (change (table.routes family)).Nodup)
    (others : ∀ route, route.isV4 ≠ family → (route ∈ next ↔ route ∈ kernel)) :
    Stores next (table.changeRoutes family change) := by
  refine ⟨fun isV4 route => ?_, fun isV4 => ?_⟩
  · rw [routes_changeRoutes]
    by_cases same : isV4 = family
    · rw [if_pos same, same, mem]
    · rw [if_neg same, mirrors.mem]
      refine and_congr_left fun its => (others route ?_).symm
      rw [its]
      exact same
  · rw [routes_changeRoutes]
    split
    · rename_i same
      rw [same]
      exact nodup
    · exact mirrors.nodup isV4

theorem newRoute (mirrors : Mirrors ignored kernel table) (sorting : Sorting) (route : RouteEntry)
    (identified : Identified ⟨kernel, table⟩ (.newRoute route)) :
    Mirrors ignored (insert route kernel)
      (table.handleNewRoute sorting ignored (routeMessage route)) := by
  simp only [handleNewRoute, parse_routeMessage]
  refine Stores.mirrors ?_ sorting ignored
  rcases identified with absent | ⟨known, least⟩
  · have assigned := assignFirst_of_absent route (table.routes route.isV4)
      fun other member => absent other ((mirrors.mem _ _).mp member).1
    refine mirrors.changeRoutes route.isV4 (assignFirst route) (fun other => ?_) ?_
      fun other different => ?_
    · rw [assigned, List.mem_append, List.mem_singleton, mirrors.mem, Finset.mem_insert]
      constructor
      · rintro (⟨known, same⟩ | rfl)
        · exact ⟨.inr known, same⟩
        · exact ⟨.inl rfl, rfl⟩
      · rintro ⟨rfl | known, same⟩
        · exact .inr rfl
        · exact .inl ⟨known, same⟩
    · rw [assigned]
      refine List.nodup_append'.mpr ⟨mirrors.nodup _, List.nodup_singleton _, ?_⟩
      intro other member isRoute
      rw [List.mem_singleton.mp isRoute] at member
      have differs := absent route ((mirrors.mem _ _).mp member).1
      rw [sameRoute_self] at differs
      cases differs
    · rw [Finset.mem_insert, or_iff_right]
      rintro rfl
      exact different rfl
  · -- the route that is found is the one that is carried, and nothing changes
    obtain ⟨first, front, back, split, before, same, firstKnown, firstLeast⟩ :=
      mirrors.firstFound known (sameRoute_self route)
    have isFirst : first = route := RouteEntry.ext_of_metric same
      (UInt32.le_antisymm (firstLeast route known (sameRoute_self route))
        (least first firstKnown same))
    have assigned : assignFirst route (table.routes route.isV4) = table.routes route.isV4 := by
      rw [split, assignFirst_of_found route first front back before same, isFirst]
    rw [Finset.insert_eq_of_mem known]
    refine mirrors.changeRoutes route.isV4 (assignFirst route) (fun other => ?_) ?_
      fun other _ => Iff.rfl
    · rw [assigned]
      exact mirrors.mem route.isV4 other
    · rw [assigned]
      exact mirrors.nodup route.isV4

theorem delRoute (mirrors : Mirrors ignored kernel table) (sorting : Sorting) (route : RouteEntry)
    (identified : Identified ⟨kernel, table⟩ (.delRoute route)) :
    Mirrors ignored (kernel.erase route)
      (table.handleDelRoute sorting ignored (routeMessage route)) := by
  simp only [handleDelRoute, parse_routeMessage]
  have kept : ∀ other ∈ kernel, (sameRoute route other = false ↔ other ≠ route) := by
    intro other known
    constructor
    · rintro differs rfl
      rw [sameRoute_self] at differs
      cases differs
    · intro differs
      by_contra same
      exact differs (identified other known (Bool.not_eq_false _ ▸ same))
  refine Stores.mirrors (mirrors.changeRoutes route.isV4 _ (fun other => ?_)
    ((mirrors.nodup route.isV4).filter _) fun other different => ?_) sorting ignored
  · rw [List.mem_filter, mirrors.mem, Bool.not_eq_true', Finset.mem_erase]
    constructor
    · rintro ⟨⟨known, same⟩, differs⟩
      exact ⟨⟨(kept other known).mp differs, known⟩, same⟩
    · rintro ⟨⟨differs, known⟩, same⟩
      exact ⟨⟨known, same⟩, (kept other known).mpr differs⟩
  · rw [Finset.mem_erase, and_iff_right]
    rintro rfl
    exact different rfl

theorem newRoute_loses (mirrors : Mirrors ignored kernel table) (sorting : Sorting)
    (route : RouteEntry) (unidentified : ¬Identified ⟨kernel, table⟩ (.newRoute route)) :
    ∃ lost ∈ insert route kernel,
      lost ∉ (table.handleNewRoute sorting ignored (routeMessage route)).routes lost.isV4 := by
  simp only [Identified, not_or, not_forall, not_and, Bool.not_eq_false] at unidentified
  obtain ⟨⟨other, known, same⟩, notLeast⟩ := unidentified
  obtain ⟨first, front, back, split, before, firstSame, firstKnown, firstLeast⟩ :=
    mirrors.firstFound known same
  have differs : first ≠ route := by
    rintro rfl
    obtain ⟨entry, entryKnown, entrySame, smaller⟩ := notLeast firstKnown
    exact smaller (firstLeast entry entryKnown entrySame)
  refine ⟨first, Finset.mem_insert_of_mem firstKnown, ?_⟩
  have nodup := mirrors.nodup route.isV4
  rw [split] at nodup
  simp only [handleNewRoute, parse_routeMessage]
  rw [(sortAndUpdateCache_spec _ _ _ _).1, (sorting.perm _).mem_iff, routes_changeRoutes,
    isV4_of_sameRoute firstSame, if_pos rfl, split,
    assignFirst_of_found route first front back before firstSame]
  have elsewhere := (List.nodup_cons.mp (List.nodup_middle.mp nodup)).1
  intro member
  rcases List.mem_append.mp member with earlier | later
  · exact elsewhere (List.mem_append_left _ earlier)
  · rcases List.mem_cons.mp later with isRoute | after
    · exact differs isRoute
    · exact elsewhere (List.mem_append_right _ after)

theorem delRoute_loses (sorting : Sorting) (route : RouteEntry)
    (unidentified : ¬Identified ⟨kernel, table⟩ (.delRoute route)) :
    ∃ lost ∈ kernel.erase route,
      lost ∉ (table.handleDelRoute sorting ignored (routeMessage route)).routes lost.isV4 := by
  simp only [Identified, not_forall] at unidentified
  obtain ⟨lost, known, same, differs⟩ := unidentified
  refine ⟨lost, Finset.mem_erase.mpr ⟨differs, known⟩, ?_⟩
  simp only [handleDelRoute, parse_routeMessage]
  rw [(sortAndUpdateCache_spec _ _ _ _).1, (sorting.perm _).mem_iff, routes_changeRoutes,
    isV4_of_sameRoute same, if_pos rfl, List.mem_filter]
  rintro ⟨-, kept⟩
  rw [same] at kept
  cases kept

end Mirrors

theorem not_inStep_of_lost (sorting : Sorting) {ignored : UInt32 → Bool} {world : World}
    {lost : RouteEntry} (known : lost ∈ world.kernel)
    (missing : lost ∉ world.table.routes lost.isV4) : ¬InStep ignored world := by
  intro inStep
  have dumps : Dumps world.kernel.toList world.kernel :=
    ⟨Finset.nodup_toList _, fun route => Finset.mem_toList⟩
  have fresh := (reloadFrom_mirrors dumps sorting ignored {}).2
  exact missing (((inStep sorting {} _ dumps).1 lost.isV4 lost).mpr
    ((fresh.mem _ _).mpr ⟨known, rfl⟩))

/-- For every table of the kernel that is loaded, and every sequence of notifications: the stored
routes and the default interface are those of a fresh reload after every notification, up to the
choice among default routes of equal metric, exactly when every notification carries the route that
the handler finds for it. -/
theorem routing_inStep_iff (sorting : Sorting) (ignored : UInt32 → Bool)
    (kernel : Finset RouteEntry) (dump : List RouteEntry) (dumps : Dumps dump kernel)
    (table : RoutingTable) (notifications : List Notification) :
    (∀ count, ∃ reached,
        run (worldStep sorting ignored) ⟨kernel, (reloadFrom sorting ignored table dump).2⟩
          (notifications.take count) = some reached ∧ InStep ignored reached) ↔
      Along (worldStep sorting ignored) Identified
        ⟨kernel, (reloadFrom sorting ignored table dump).2⟩ notifications := by
  let invariant : World → Prop := fun world => Mirrors ignored world.kernel world.table
  have implies : ∀ world, invariant world → InStep ignored world := fun world mirrors =>
    mirrors.inStep
  have keeps : ∀ world notification, invariant world → True → Identified world notification →
      ∃ next, worldStep sorting ignored world notification = some next ∧ invariant next := by
    intro world notification mirrors _ identified
    cases notification with
    | newRoute route => exact ⟨_, rfl, mirrors.newRoute sorting route identified⟩
    | delRoute route => exact ⟨_, rfl, mirrors.delRoute sorting route identified⟩
  have breaks : ∀ world notification next, invariant world → True →
      ¬Identified world notification → worldStep sorting ignored world notification = some next →
      ¬InStep ignored next := by
    intro world notification next mirrors _ unidentified stepped
    cases notification with
    | newRoute route =>
      obtain ⟨lost, known, missing⟩ := mirrors.newRoute_loses sorting route unidentified
      cases stepped
      exact not_inStep_of_lost sorting known missing
    | delRoute route =>
      obtain ⟨lost, known, missing⟩ := Mirrors.delRoute_loses sorting route unidentified
      cases stepped
      exact not_inStep_of_lost sorting known missing
  exact run_throughout_iff implies keeps breaks
    (reloadFrom_mirrors dumps sorting ignored table).2
    (Along.of_forall (fun _ _ => trivial) _ _)

/-! ### Two metrics for one destination and interface -/

theorem not_less_iff (entry other : RouteEntry) : other.less entry = false ↔
    other.destination.prefixLen < entry.destination.prefixLen ∨
      (other.destination.prefixLen = entry.destination.prefixLen ∧
        entry.metric.toNat ≤ other.metric.toNat) := by
  unfold RouteEntry.less
  by_cases same : other.destination.prefixLen = entry.destination.prefixLen
  · rw [if_neg (not_not.mpr same), decide_eq_false_iff_not, UInt32.not_lt, UInt32.le_iff_toNat_le]
    omega
  · rw [if_pos same, decide_eq_false_iff_not]
    omega

/-- A sort that can be executed. -/
def insertionSorting : Sorting :=
  .insertion RouteEntry.less
    (fun entry other => by
      rw [not_less_iff, not_less_iff]
      omega)
    fun first second third => by
      rw [not_less_iff, not_less_iff, not_less_iff]
      omega

/-- A default route of IPv4 through the second interface. -/
def defaultRoute (metric : UInt32) : RouteEntry where
  destination := CidrRange.init [0, 0, 0, 0] 0
  ifIndex := 2
  metric
  valid := rfl
  size := .inl rfl

/-- The kernel has two default routes through one interface and deletes the one with the larger
metric. -/
def twoMetrics : World :=
  ⟨{defaultRoute 100, defaultRoute 200},
    (reloadFrom insertionSorting (fun _ => false) {} [defaultRoute 100, defaultRoute 200]).2⟩

/-- Then neither is stored, and there is no default interface, where a reload finds the other
route. -/
theorem twoMetrics_outOfStep :
    twoMetrics.table.getDefaultIfIndex = some 2 ∧
    ∃ reached, worldStep insertionSorting (fun _ => false) twoMetrics
        (.delRoute (defaultRoute 200)) = some reached ∧
      reached.kernel = {defaultRoute 100} ∧ reached.table.routes true = [] ∧
      reached.table.getDefaultIfIndex = none ∧
      (reloadFrom insertionSorting (fun _ => false) {}
        [defaultRoute 100]).2.getDefaultIfIndex = some 2 := by
  refine ⟨by decide, _, rfl, by decide, by decide, by decide, by decide⟩

/-- A table with one default route keeps in step when the kernel deletes it and adds it again with
another metric. -/
theorem routing_inStep_iff_oneMetric :
    Dumps [defaultRoute 100] {defaultRoute 100} ∧
    ∀ count, ∃ reached,
      run (worldStep insertionSorting fun _ => false)
        ⟨{defaultRoute 100},
          (reloadFrom insertionSorting (fun _ => false) {} [defaultRoute 100]).2⟩
        (List.take count [.delRoute (defaultRoute 100), .newRoute (defaultRoute 200)]) =
        some reached ∧ InStep (fun _ => false) reached := by
  have dumps : Dumps [defaultRoute 100] {defaultRoute 100} :=
    ⟨List.nodup_singleton _, fun route => by rw [List.mem_singleton, Finset.mem_singleton]⟩
  refine ⟨dumps, (routing_inStep_iff insertionSorting (fun _ => false) {defaultRoute 100}
    [defaultRoute 100] dumps {} _).mpr ?_⟩
  refine .cons rfl (fun other member _ => Finset.mem_singleton.mp member) ?_
  exact .cons rfl (.inl (by decide)) trivial

end NativeLibs.Routing
