/-
This file is about the default interfaces that the routing table stores and about
the flag that tells that they have changed. Every call of the table either leaves
it as it is or ends with `sort_and_update_cache`, so what that function does is
what a call does: it stores the interface of the first usable default route of
each sorted list, and it sets the flag if that is not what was stored before.

The flag is reset by the query for it. A sequence of calls and queries is given
here as a list of sessions, each of them a list of calls with a query after it,
and the calls since the last query.
-/

import NativeLibs.Library.Runs
import NativeLibs.Routing.Agreement

namespace NativeLibs.Routing

open Library RoutingTable

/-! ### Calls and queries -/

/-- The calls that change the table, with what they receive. A request of `reload` that cannot be
sent receives nothing. -/
inductive TableCall where
  | reload (received : List Netlink)
  | newRoute (message : RouteMessage)
  | delRoute (message : RouteMessage)

namespace RoutingTable

/-- `LinuxRoutingTable::has_default_changed_and_reset`. -/
def hasDefaultChangedAndReset (table : RoutingTable) : Bool × RoutingTable :=
  (table.defaultChanged, { table with defaultChanged := false })

/-- The pair of stored defaults. -/
def defaults (table : RoutingTable) : Option UInt32 × Option UInt32 :=
  (table.prevDefaultV4, table.prevDefaultV6)

variable (sorting : Sorting) (ignored : UInt32 → Bool)

def call (table : RoutingTable) : TableCall → RoutingTable
  | .reload received => (table.reload sorting ignored received).2
  | .newRoute message => table.handleNewRoute sorting ignored message
  | .delRoute message => table.handleDelRoute sorting ignored message

def afterCalls (table : RoutingTable) (calls : List TableCall) : RoutingTable :=
  calls.foldl (call sorting ignored) table

/-- The table after sessions that each end with a query. -/
def afterSessions (sessions : List (List TableCall)) : RoutingTable :=
  sessions.foldl
    (fun table calls => (afterCalls sorting ignored table calls).hasDefaultChangedAndReset.2) {}

/-- The table after such sessions and the calls since the last query. -/
def tableAfter (sessions : List (List TableCall)) (calls : List TableCall) : RoutingTable :=
  afterCalls sorting ignored (afterSessions sorting ignored sessions) calls

end RoutingTable

/-! ### What a call does -/

/-- The lists hold the routes of their families. -/
def Separated (table : RoutingTable) : Prop :=
  ∀ isV4, ∀ entry ∈ table.routes isV4, entry.isV4 = isV4

theorem mem_assignFirst {entry other : RouteEntry} {routes : List RouteEntry}
    (member : other ∈ assignFirst entry routes) : other = entry ∨ other ∈ routes := by
  induction routes with
  | nil => exact .inl (List.mem_singleton.mp member)
  | cons first rest inductionHypothesis =>
    rw [assignFirst] at member
    split at member
    · rcases List.mem_cons.mp member with same | later
      · exact .inl same
      · exact .inr (List.mem_cons_of_mem first later)
    · rcases List.mem_cons.mp member with rfl | later
      · exact .inr List.mem_cons_self
      · exact (inductionHypothesis later).imp_right (List.mem_cons_of_mem first)

theorem Separated.changeRoutes {table : RoutingTable} (separated : Separated table)
    (entry : RouteEntry) {change : List RouteEntry → List RouteEntry}
    (changes : ∀ routes, ∀ other ∈ change routes, other = entry ∨ other ∈ routes) :
    Separated (table.changeRoutes entry.isV4 change) := by
  intro isV4 other member
  rw [routes_changeRoutes] at member
  split at member
  · rename_i family
    rcases changes _ other member with rfl | earlier
    · exact family.symm
    · exact separated isV4 other earlier
  · exact separated isV4 other member

/-- The routes that `reload` receives come into the list of their family. -/
theorem separated_receiveRoutes {received : List Netlink}
    {routesV4 routesV6 newRoutesV4 newRoutesV6 : List RouteEntry}
    (fourth : ∀ entry ∈ routesV4, entry.isV4 = true)
    (sixth : ∀ entry ∈ routesV6, entry.isV4 = false)
    (done : receiveRoutes received routesV4 routesV6 = some (newRoutesV4, newRoutesV6)) :
    (∀ entry ∈ newRoutesV4, entry.isV4 = true) ∧ ∀ entry ∈ newRoutesV6, entry.isV4 = false := by
  induction received generalizing routesV4 routesV6 with
  | nil => cases done
  | cons message rest inductionHypothesis =>
    cases message with
    | done =>
      obtain ⟨rfl, rfl⟩ := Prod.mk.inj (Option.some.inj done)
      exact ⟨fourth, sixth⟩
    | error => cases done
    | other => exact inductionHypothesis fourth sixth done
    | newRoute message =>
      rw [receiveRoutes] at done
      cases parsed : parseRouteMsg message with
      | none =>
        simp only [parsed] at done
        exact inductionHypothesis fourth sixth done
      | some entry =>
        simp only [parsed] at done
        cases family : entry.isV4 with
        | true =>
          rw [if_pos family] at done
          exact inductionHypothesis
            (List.forall_mem_append.mpr ⟨fourth, List.forall_mem_singleton.mpr family⟩) sixth done
        | false =>
          rw [if_neg (by rw [family]; exact Bool.false_ne_true)] at done
          exact inductionHypothesis fourth
            (List.forall_mem_append.mpr ⟨sixth, List.forall_mem_singleton.mpr family⟩) done

/-- What comes before `sort_and_update_cache` in a call: the routes are changed, and the stored
defaults and the flag are not. -/
structure Prepared (table changed : RoutingTable) : Prop where
  defaults : changed.defaults = table.defaults
  flag : changed.defaultChanged = table.defaultChanged
  separated : Separated table → Separated changed

theorem Prepared.changeRoutes (table : RoutingTable) (entry : RouteEntry)
    {change : List RouteEntry → List RouteEntry}
    (changes : ∀ routes, ∀ other ∈ change routes, other = entry ∨ other ∈ routes) :
    Prepared table (table.changeRoutes entry.isV4 change) := by
  have separated := fun separated : Separated table => separated.changeRoutes entry changes
  unfold RoutingTable.changeRoutes at separated ⊢
  cases family : entry.isV4 with
  | true =>
    rw [family] at separated
    exact ⟨rfl, rfl, separated⟩
  | false =>
    rw [family] at separated
    exact ⟨rfl, rfl, separated⟩

/-- A call does nothing, or it ends with `sort_and_update_cache`. -/
theorem call_cases (sorting : Sorting) (ignored : UInt32 → Bool) (table : RoutingTable)
    (input : TableCall) :
    table.call sorting ignored input = table ∨ ∃ changed, Prepared table changed ∧
      table.call sorting ignored input = changed.sortAndUpdateCache sorting ignored := by
  cases input with
  | reload received =>
    simp only [RoutingTable.call, RoutingTable.reload]
    cases done : receiveRoutes received [] [] with
    | none => exact .inl rfl
    | some routes =>
      obtain ⟨routesV4, routesV6⟩ := routes
      obtain ⟨fourth, sixth⟩ := separated_receiveRoutes (List.forall_mem_nil _)
        (List.forall_mem_nil _) done
      refine .inr ⟨{ table with routesV4, routesV6 }, ⟨rfl, rfl, fun _ isV4 => ?_⟩, rfl⟩
      cases isV4 with
      | true => exact fourth
      | false => exact sixth
  | newRoute message =>
    simp only [RoutingTable.call, handleNewRoute]
    cases parseRouteMsg message with
    | none => exact .inl rfl
    | some entry =>
      exact .inr ⟨_, .changeRoutes table entry fun _ _ => mem_assignFirst, rfl⟩
  | delRoute message =>
    simp only [RoutingTable.call, handleDelRoute]
    cases parseRouteMsg message with
    | none => exact .inl rfl
    | some entry =>
      exact .inr ⟨_, .changeRoutes table entry fun _ _ member =>
        .inr (List.mem_of_mem_filter member), rfl⟩

/-! ### The stored defaults -/

/-- A default route through an interface that is not zero and not ignored. -/
structure IsCandidate (ignored : UInt32 → Bool) (entry : RouteEntry) : Prop where
  isDefault : entry.destination.prefixLen = 0
  through : entry.ifIndex ≠ 0
  kept : ignored entry.ifIndex = false

theorem eligible_iff {ignored : UInt32 → Bool} {entry : RouteEntry} :
    eligible ignored entry = true ↔ IsCandidate ignored entry := by
  simp only [eligible, RouteEntry.isDefaultRoute, Bool.and_eq_true, decide_eq_true_eq,
    Bool.not_eq_true']
  constructor
  · rintro ⟨⟨isDefault, through⟩, kept⟩
    exact ⟨isDefault, through, kept⟩
  · rintro ⟨isDefault, through, kept⟩
    exact ⟨⟨isDefault, through⟩, kept⟩

/-- An interface of a candidate with the least metric, or none if there is no candidate. -/
def Selects (ignored : UInt32 → Bool) (routes : List RouteEntry) : Option UInt32 → Prop
  | none => ∀ entry ∈ routes, ¬IsCandidate ignored entry
  | some ifIndex => ∃ entry ∈ routes, IsCandidate ignored entry ∧ entry.ifIndex = ifIndex ∧
      ∀ other ∈ routes, IsCandidate ignored other → entry.metric ≤ other.metric

theorem selects_findDefaultRoute (ignored : UInt32 → Bool) {routes : List RouteEntry}
    (sorted : routes.Pairwise fun entry other => other.less entry = false) :
    Selects ignored routes (findDefaultRoute ignored routes) := by
  rw [findDefaultRoute]
  cases found : routes.find? (eligible ignored) with
  | none =>
    intro entry member candidate
    exact List.find?_eq_none.mp found entry member (eligible_iff.mpr candidate)
  | some first =>
    have candidate := eligible_iff.mp (List.find?_some found)
    refine ⟨first, List.mem_of_find?_eq_some found, candidate, rfl, fun other member usable => ?_⟩
    exact metric_le_of_find sorted found member (eligible_iff.mpr usable)
      (usable.isDefault.trans candidate.isDefault.symm)

/-- What holds of the table between calls. -/
structure UpToDate (ignored : UInt32 → Bool) (table : RoutingTable) : Prop where
  separated : Separated table
  selects : ∀ isV4, Selects ignored (table.routes isV4) (table.prevDefault isV4)

theorem upToDate_empty (ignored : UInt32 → Bool) : UpToDate ignored {} := by
  constructor
  · intro isV4
    cases isV4 with
    | true => exact List.forall_mem_nil _
    | false => exact List.forall_mem_nil _
  · intro isV4
    cases isV4 with
    | true => exact List.forall_mem_nil _
    | false => exact List.forall_mem_nil _

theorem UpToDate.call {sorting : Sorting} {ignored : UInt32 → Bool} {table : RoutingTable}
    (upToDate : UpToDate ignored table) (input : TableCall) :
    UpToDate ignored (table.call sorting ignored input) := by
  rcases call_cases sorting ignored table input with same | ⟨changed, prepared, called⟩
  · rw [same]
    exact upToDate
  · rw [called]
    have spec := sortAndUpdateCache_spec sorting ignored changed
    refine ⟨fun isV4 entry member => ?_, fun isV4 => ?_⟩
    · rw [(spec isV4).1, (sorting.perm _).mem_iff] at member
      exact prepared.separated upToDate.separated isV4 entry member
    · rw [(spec isV4).1, (spec isV4).2]
      exact selects_findDefaultRoute ignored (sorting.sorted _)

theorem UpToDate.afterCalls {ignored : UInt32 → Bool} {table : RoutingTable}
    (upToDate : UpToDate ignored table) (sorting : Sorting) (calls : List TableCall) :
    UpToDate ignored (RoutingTable.afterCalls sorting ignored table calls) :=
  List.foldlRecOn calls _ upToDate fun _ kept input _ => kept.call input

/-- After a query the defaults are as they were, and the flag is not set. -/
theorem afterSessions_spec (sorting : Sorting) (ignored : UInt32 → Bool)
    (sessions : List (List TableCall)) :
    UpToDate ignored (afterSessions sorting ignored sessions) ∧
      (afterSessions sorting ignored sessions).defaultChanged = false := by
  refine List.foldlRecOn sessions _
    (motive := fun table => UpToDate ignored table ∧ table.defaultChanged = false)
    ⟨upToDate_empty ignored, rfl⟩ ?_
  rintro table ⟨upToDate, -⟩ calls -
  obtain ⟨separated, selects⟩ := upToDate.afterCalls sorting calls
  exact ⟨⟨separated, selects⟩, rfl⟩

/-! ### The flag -/

theorem flag_sortAndUpdateCache (sorting : Sorting) (ignored : UInt32 → Bool)
    (table : RoutingTable) :
    (table.sortAndUpdateCache sorting ignored).defaultChanged = true ↔
      table.defaultChanged = true ∨
        (table.sortAndUpdateCache sorting ignored).defaults ≠ table.defaults := by
  unfold sortAndUpdateCache
  by_cases changed : findDefaultRoute ignored (sorting.sort table.routesV4) ≠ table.prevDefaultV4 ∨
      findDefaultRoute ignored (sorting.sort table.routesV6) ≠ table.prevDefaultV6
  · simp only [if_pos changed]
    refine iff_of_true trivial (.inr fun same => ?_)
    obtain ⟨fourth, sixth⟩ := Prod.mk.inj same
    exact changed.elim (absurd fourth) (absurd sixth)
  · simp only [if_neg changed]
    exact (or_iff_left fun differs => differs rfl).symm

/-- A call sets the flag exactly if it changes the pair of defaults. -/
theorem flag_call (sorting : Sorting) (ignored : UInt32 → Bool) (table : RoutingTable)
    (input : TableCall) :
    (table.call sorting ignored input).defaultChanged = true ↔
      table.defaultChanged = true ∨
        (table.call sorting ignored input).defaults ≠ table.defaults := by
  rcases call_cases sorting ignored table input with same | ⟨changed, prepared, called⟩
  · rw [same]
    exact (or_iff_left fun differs => differs rfl).symm
  · rw [called, flag_sortAndUpdateCache, prepared.flag, prepared.defaults]

/-- One of the calls changes the pair of defaults. -/
def SomeCallChanges (sorting : Sorting) (ignored : UInt32 → Bool) (table : RoutingTable)
    (calls : List TableCall) : Prop :=
  ∃ before input later, calls = before ++ input :: later ∧
    ((afterCalls sorting ignored table before).call sorting ignored input).defaults ≠
      (afterCalls sorting ignored table before).defaults

theorem flag_afterCalls (sorting : Sorting) (ignored : UInt32 → Bool) {table : RoutingTable}
    (quiet : table.defaultChanged = false) (calls : List TableCall) :
    (afterCalls sorting ignored table calls).defaultChanged = true ↔
      SomeCallChanges sorting ignored table calls := by
  refine (foldl_latch_iff (fun table => table.defaultChanged = true) _
    (flag_call sorting ignored) table calls).trans ?_
  rw [quiet]
  exact or_iff_right Bool.false_ne_true

/-- After any sequence of calls and queries, the lists hold the routes of their families, and the
stored default of each family is the interface of a candidate with the least metric. The default
interface is that of IPv4 if there is one. The query tells if one of the calls since the last query
changed the pair of stored defaults. -/
theorem defaults_selected (sorting : Sorting) (ignored : UInt32 → Bool)
    (sessions : List (List TableCall)) (calls : List TableCall) :
    (∀ isV4, (∀ entry ∈ (tableAfter sorting ignored sessions calls).routes isV4,
        entry.isV4 = isV4) ∧
      Selects ignored ((tableAfter sorting ignored sessions calls).routes isV4)
        ((tableAfter sorting ignored sessions calls).prevDefault isV4)) ∧
    (tableAfter sorting ignored sessions calls).getDefaultIfIndex =
      ((tableAfter sorting ignored sessions calls).prevDefault true).or
        ((tableAfter sorting ignored sessions calls).prevDefault false) ∧
    ((tableAfter sorting ignored sessions calls).hasDefaultChangedAndReset.1 = true ↔
      SomeCallChanges sorting ignored (afterSessions sorting ignored sessions) calls) := by
  obtain ⟨start, quiet⟩ := afterSessions_spec sorting ignored sessions
  obtain ⟨separated, selects⟩ := start.afterCalls sorting calls
  refine ⟨fun isV4 => ⟨separated isV4, selects isV4⟩, ?_, ?_⟩
  · generalize tableAfter sorting ignored sessions calls = table
    rw [getDefaultIfIndex]
    show _ = table.prevDefaultV4.or table.prevDefaultV6
    cases table.prevDefaultV4 with
    | none => rfl
    | some ifIndex => rfl
  · exact flag_afterCalls sorting ignored quiet calls

end NativeLibs.Routing
