/-
This file says what a firewall is for: a policy on connections that depends on
nothing but the operations that returned no error. On every platform that behaves
as documented, and whichever of its calls fail, the filters in force after a run
are those of these operations, each with all of its filters, and the platform then
decides by the policy.

A policy has tiers, one for each weight. A tier holds of a connection if a filter
of its weight applies, and the highest tier that holds decides.
-/

import NativeLibs.Net.Firewall

namespace NativeLibs.Firewall

open Cidr Library

variable {platform : Platform} {traffic : Traffic}

/-! ### Transactions -/

theorem request_eq {state next : platform.State} {call : Request} {error : Option WfpFirewallError}
    (called : request platform state call = (error, next)) :
    platform.after state call = next ∧ (error = none ↔ platform.code state call = 0) := by
  obtain ⟨rfl, rfl⟩ := Prod.mk.inj called
  refine ⟨rfl, ?_⟩
  split <;> simp [*]

/-- In a transaction a function changes nothing that is in force, and unless it fails it leaves
some filters pending. -/
def Leaves (platform : Platform) (filters : List (Option Filter))
    (func : platform.State → Option (Option WfpFirewallError × platform.State)) : Prop :=
  ∀ state pending error next, platform.pending state = some pending →
    func state = some (error, next) → platform.installed next = platform.installed state ∧
      (error = none → ∃ added, added.map some = filters ∧
        platform.pending next = some (pending ++ added))

/-- The filters in force are some that were before and all those of the operations that returned no
error. -/
def World.Follows (base : List (Option Filter)) (world : World platform) : Prop :=
  ∃ state, world.handle = some state ∧
    (platform.installed state).map some = base ++ world.succeeded.flatMap Operation.filters

namespace Platform.Documented

variable (documented : platform.Documented)

include documented

theorem addFilters_leaves (filters : List (Option Filter)) :
    Leaves platform filters (addFilters platform filters) := by
  induction filters with
  | nil =>
    intro state pending error next inTransaction ran
    obtain ⟨rfl, rfl⟩ := Prod.mk.inj (Option.some.inj ran)
    exact ⟨rfl, fun _ => ⟨[], rfl, by rw [inTransaction, List.append_nil]⟩⟩
  | cons entry rest inductionHypothesis =>
    intro state pending error final inTransaction ran
    cases entry with
    | none => cases ran
    | some filter =>
      rcases called : request platform state (.filterAdd filter) with ⟨_ | failure, next⟩ <;>
        simp only [addFilters, called] at ran <;>
        obtain ⟨rfl, success⟩ := request_eq called
      all_goals
        have kept := documented.keeps state (.filterAdd filter) (by simp) (by simp)
          (by simp [inTransaction])
      · have now := documented.adds state filter pending inTransaction (success.mp rfl)
        obtain ⟨same, added⟩ := inductionHypothesis _ _ _ _ now ran
        refine ⟨same.trans kept, fun none => ?_⟩
        obtain ⟨more, all, left⟩ := added none
        exact ⟨filter :: more, by rw [List.map_cons, all], by rw [left, List.append_assoc]; rfl⟩
      · obtain ⟨rfl, rfl⟩ := Prod.mk.inj (Option.some.inj ran)
        exact ⟨kept, by simp⟩

theorem registerBaseObjects_leaves : Leaves platform [] (registerBaseObjects platform) := by
  intro state pending error final inTransaction ran
  have provider := documented.registers state .providerAdd (by simp)
  have providerKept := documented.keeps state .providerAdd (by simp) (by simp) (by simp)
  rcases called : request platform state .providerAdd with ⟨_ | failure, next⟩ <;>
    simp only [registerBaseObjects, called] at ran <;>
    obtain ⟨rfl, -⟩ := request_eq called
  · obtain ⟨rfl, -⟩ := request_eq (Option.some.inj ran)
    refine ⟨(documented.keeps _ .subLayerAdd (by simp) (by simp) (by simp)).trans providerKept,
      fun _ => ⟨[], rfl, ?_⟩⟩
    rw [documented.registers _ _ (by simp), provider, inTransaction, List.append_nil]
  · obtain ⟨rfl, rfl⟩ := Prod.mk.inj (Option.some.inj ran)
    exact ⟨providerKept, by simp⟩

/-- A transaction installs all that its function leaves, or returns an error and installs
nothing. -/
theorem runTransaction_installs {filters : List (Option Filter)}
    {func : platform.State → Option (Option WfpFirewallError × platform.State)}
    (leaves : Leaves platform filters func) {state final : platform.State}
    {error : Option WfpFirewallError}
    (ran : runTransaction platform func state = some (error, final)) :
    error = none ∧ (platform.installed final).map some =
      (platform.installed state).map some ++ filters ∨
    error ≠ none ∧ platform.installed final = platform.installed state := by
  have begun := documented.keeps state .transactionBegin (by simp) (by simp) (by simp)
  rcases called : request platform state .transactionBegin with ⟨_ | failure, first⟩ <;>
    simp only [runTransaction, called] at ran <;>
    obtain ⟨rfl, success⟩ := request_eq called
  · obtain ⟨⟨funcError, left⟩, funcRan, ended⟩ := Option.map_eq_some_iff.mp ran
    obtain ⟨kept, pending⟩ := leaves _ _ _ _ (documented.begins state (success.mp rfl)) funcRan
    cases funcError with
    | some failure =>
      -- the transaction is aborted, whatever the code of that
      obtain ⟨rfl, rfl⟩ := Prod.mk.inj ended
      have aborted := documented.keeps left .transactionAbort (by simp) (by simp) (by simp)
      exact .inr ⟨by simp, aborted.trans (kept.trans begun)⟩
    | none =>
      obtain ⟨added, rfl, isPending⟩ := pending rfl
      obtain ⟨rfl, committed⟩ := request_eq ended
      cases error with
      | none =>
        refine .inl ⟨rfl, ?_⟩
        rw [documented.commits left _ isPending (committed.mp rfl), kept, begun, List.nil_append,
          List.map_append]
      | some failure =>
        have failed : platform.code left .transactionCommit ≠ 0 := fun zero => by
          simpa using committed.mpr zero
        exact .inr ⟨by simp, (documented.keeps left .transactionCommit (by simp)
          (fun _ => failed) (by simp)).trans (kept.trans begun)⟩
  · obtain ⟨rfl, rfl⟩ := Prod.mk.inj (Option.some.inj ran)
    exact .inr ⟨by simp, begun⟩

end Platform.Documented

/-! ### Conditions -/

/-- Conditions on other fields are met on their own. -/
theorem meets_append {first second : List Condition}
    (apart : ∀ condition ∈ first, ∀ other ∈ second, condition.field ≠ other.field) :
    platform.Meets (first ++ second) traffic ↔
      platform.Meets first traffic ∧ platform.Meets second traffic := by
  simp only [Platform.Meets, List.mem_append, or_and_right, exists_or, or_imp, forall_and]
  refine and_congr (forall₂_congr fun condition mem => or_iff_left ?_)
    (forall₂_congr fun condition mem => or_iff_right ?_)
  · rintro ⟨other, isOther, same, -⟩
    exact apart condition mem other isOther same.symm
  · rintro ⟨other, isOther, same, -⟩
    exact apart other isOther condition mem same

theorem meets_append_comm {first second : List Condition} :
    platform.Meets (first ++ second) traffic ↔ platform.Meets (second ++ first) traffic := by
  simp only [Platform.Meets, List.mem_append, or_comm]

/-- Conditions on one field are alternatives. -/
theorem meets_map {Item : Type} {items : List Item} (nonempty : items ≠ []) {field : Field}
    {value : Item → Value} :
    platform.Meets (items.map fun item => ⟨field, value item⟩) traffic ↔
      ∃ item ∈ items, platform.satisfies ⟨field, value item⟩ traffic := by
  obtain ⟨first, rest, rfl⟩ := List.exists_cons_of_ne_nil nonempty
  simpa [Platform.Meets] using fun holds _ _ => holds

theorem addressValue_maskAddress_and (address mask : Bytes)
    (sameSize : mask.length = address.length) :
    addressValue (maskAddress address mask) = addressValue address &&& addressValue mask := by
  induction address generalizing mask with
  | nil => simp [maskAddress, addressValue]
  | cons byte rest inductionHypothesis =>
    obtain ⟨maskByte, masks, rfl⟩ := List.exists_cons_of_length_eq_add_one sameSize
    have restSize : masks.length = rest.length := Nat.succ.inj sameSize
    have tail := inductionHypothesis masks restSize
    have low := addressValue_lt rest
    have maskLow := addressValue_lt masks
    rw [restSize] at maskLow
    have size : (maskAddress rest masks).length = rest.length := by
      rw [maskAddress, List.length_zipWith, restSize, Nat.min_self]
    rw [maskAddress_cons, addressValue, addressValue, addressValue, size, tail, restSize,
      UInt8.toNat_and]
    simp only [Nat.mul_comm _ (2 ^ (8 * rest.length))]
    -- both sides are compared bit by bit, above and below the first byte
    refine Nat.eq_of_testBit_eq fun index => ?_
    rw [Nat.testBit_and, Nat.testBit_two_pow_mul_add _ low, Nat.testBit_two_pow_mul_add _ maskLow,
      Nat.testBit_two_pow_mul_add _ (Nat.and_lt_two_pow _ maskLow)]
    split <;> rw [Nat.testBit_and]

theorem and_mask_eq {range : CidrRange} {address : Bytes}
    (same : range.address.length = address.length) :
    addressValue address &&& addressValue range.mask =
      addressValue address / 2 ^ range.level * 2 ^ range.level := by
  have fits := range.fits_bits
  rw [same] at fits
  rw [range.maskOfPrefix, same, ← addressValue_maskAddress_and _ _ (length_prefixMask _ _),
    addressValue_maskAddress _ _ fits, CidrRange.level, CidrRange.size, same]

/-- The addresses that a range of the connection's version contains satisfy its condition. -/
theorem Platform.Documented.range_iff (documented : platform.Documented) {range : CidrRange}
    (rangeSize : range.address.length = traffic.layer.version.addressSize) (side : Side) :
    platform.satisfies ⟨.address side, traffic.layer.version.rangeFromCidrRange range⟩ traffic ↔
      range.containsAddress (traffic.address side) = true := by
  have same := rangeSize.trans (traffic.addressSize side).symm
  rw [CidrRange.containsAddress_iff, mem_block, CidrRange.size, and_iff_right same.symm,
    CidrRange.point]
  cases version : traffic.layer.version with
  | v4 =>
    rw [Version.rangeFromCidrRange, documented.v4 _ _ _ _ version, and_mask_eq same,
      and_mask_eq rfl, Nat.mul_left_inj (Nat.two_pow_pos _).ne']
  | v6 =>
    have level : range.level = 128 - range.prefixLen := by
      rw [CidrRange.level, CidrRange.size, rangeSize, version]
      rfl
    rw [Version.rangeFromCidrRange, documented.v6 _ _ _ _ version, level]

/-! ### The policy -/

/-- The address is in one of the ranges. -/
def covers (ranges : List CidrRange) (address : Bytes) : Bool :=
  ranges.any fun range => range.containsAddress address

/-- Plain DNS, over TCP or UDP. -/
def Traffic.isDns (traffic : Traffic) : Bool :=
  traffic.port .remoteSide = 53 && (traffic.protocol = 6 || traffic.protocol = 17)

/-- `block_untunneled` is about the connection. -/
def Operation.includes (traffic : Traffic) : Operation → Bool
  | .blockUntunneled tunaddr incl _ =>
    (tunaddr traffic.layer.version).address.length = traffic.layer.version.addressSize &&
      covers (incl traffic.layer.version) (traffic.address .remoteSide)
  | _ => false

/-- The connection is from the tunnel, from the loopback address or from an excluded port. -/
def Operation.exempts (traffic : Traffic) : Operation → Bool
  | .blockUntunneled tunaddr _ exclPorts =>
    covers [tunaddr traffic.layer.version, traffic.layer.version.loopback]
      (traffic.address .localSide) || exclPorts.contains (traffic.port .localSide)
  | _ => false

/-- The operation blocks the connection, unless it exempts it. -/
def Operation.denies (traffic : Traffic) : Operation → Bool
  | .blockIpv6 => traffic.layer.version = .v6
  | operation => operation.includes traffic

/-- The connection is one for DNS, which the operation restricts. -/
def Operation.restrictsDns (traffic : Traffic) : Operation → Bool
  | .restrictDnsTo _ => traffic.isDns
  | _ => false

/-- The connection is one for DNS, to an address that the operation allows. -/
def Operation.allowsDns (traffic : Traffic) : Operation → Bool
  | .restrictDnsTo allowed =>
    traffic.isDns && covers (allowed traffic.layer.version) (traffic.address .remoteSide)
  | _ => false

/-- The operation lets the connection through, whichever others block it. -/
def Operation.permits (traffic : Traffic) (operation : Operation) : Bool :=
  operation.includes traffic && operation.exempts traffic || operation.allowsDns traffic

/-- What becomes of a connection after some operations. -/
def policy (appId : Bytes) (operations : List Operation) (traffic : Traffic) : Action :=
  if traffic.appId = appId then .permit
  else if operations.any fun operation => operation.includes traffic && operation.exempts traffic
    then .permit
  else if operations.any (·.denies traffic) then .block
  else if operations.any (·.allowsDns traffic) then .permit
  else if operations.any (·.restrictsDns traffic) then .block
  else .permit

/-! ### Tiers -/

/-- A weight with an action, and whether the tier holds. -/
abbrev Tier := (ℕ × Action) × Bool

/-- The tiers of one operation. -/
def Operation.tiers (operation : Operation) (traffic : Traffic) : List Tier :=
  [((4, .permit), operation.includes traffic && operation.exempts traffic),
    ((3, .block), operation.denies traffic), ((2, .permit), operation.allowsDns traffic),
    ((1, .block), operation.restrictsDns traffic)]

/-- Some filter with this weight and action applies. -/
def Reached (platform : Platform) (filters : List (Option Filter)) (traffic : Traffic)
    (rank : ℕ × Action) : Prop :=
  ∃ filter, some filter ∈ filters ∧ platform.applies filter traffic ∧
    rank = (filter.weight, filter.action)

variable {rank : ℕ × Action}

@[simp]
theorem reached_append {first second : List (Option Filter)} :
    Reached platform (first ++ second) traffic rank ↔
      Reached platform first traffic rank ∨ Reached platform second traffic rank := by
  simp only [Reached, List.mem_append, or_and_right, exists_or]

@[simp]
theorem not_reached_nil : ¬Reached platform [] traffic rank := by
  simp [Reached]

@[simp]
theorem not_reached_undefined : ¬Reached platform [none] traffic rank := by
  simp [Reached]

theorem mem_layers {version : Version} :
    traffic.layer ∈ version.layers ↔ traffic.layer.version = version := by
  obtain ⟨direction, other⟩ := traffic.layer
  cases direction <;> simp [Version.layers]

theorem mem_allLayers : traffic.layer ∈ allLayers := by
  rw [allLayers, List.mem_append, mem_layers, mem_layers]
  cases traffic.layer.version <;> simp

theorem size_of_containsAddress {range : CidrRange} {side : Side}
    (holds : range.containsAddress (traffic.address side) = true) :
    range.address.length = traffic.layer.version.addressSize :=
  ((CidrRange.containsAddress_iff _ _).mp holds).1.symm.trans (traffic.addressSize _)

theorem covers_eq_true {ranges : List CidrRange} {address : Bytes} :
    covers ranges address = true ↔ ∃ range ∈ ranges, range.containsAddress address = true :=
  List.any_eq_true

theorem conditions_ne_nil {ranges : List CidrRange} {side : Side}
    (covered : covers ranges (traffic.address side) = true) :
    traffic.layer.version.conditions ranges ≠ [] := by
  obtain ⟨range, mem, holds⟩ := covers_eq_true.mp covered
  simp only [Version.conditions, ne_eq, List.map_eq_nil_iff, List.filter_eq_nil_iff]
  exact fun none => none range mem (decide_eq_true (size_of_containsAddress holds))

namespace Platform.Documented

variable (documented : platform.Documented)

include documented

theorem reached_onLayers {layers : List Layer} {weight : ℕ} {conditions : List Condition}
    {action : Action} : Reached platform (onLayers layers weight conditions action) traffic rank ↔
      rank = (weight, action) ∧ traffic.layer ∈ layers ∧ platform.Meets conditions traffic := by
  simp only [Reached, onLayers, List.mem_map, Option.some.injEq, documented.combines]
  constructor
  · rintro ⟨-, ⟨layer, mem, rfl⟩, ⟨rfl, meets⟩, same⟩
    exact ⟨same, mem, meets⟩
  · rintro ⟨same, mem, meets⟩
    exact ⟨_, ⟨_, mem, rfl⟩, ⟨rfl, meets⟩, same⟩

theorem dnsConditions_iff : platform.Meets dnsConditions traffic ↔ traffic.isDns = true := by
  simp [Platform.Meets, dnsConditions, documented.port, documented.protocol, Traffic.isDns]

/-- The conditions on the remote address, of which there is one. -/
theorem conditions_iff {ranges : List CidrRange}
    (some : traffic.layer.version.conditions ranges ≠ []) :
    platform.Meets (traffic.layer.version.conditions ranges) traffic ↔
      covers ranges (traffic.address .remoteSide) = true := by
  rw [Version.conditions, meets_map (by simpa [Version.conditions] using some), covers_eq_true]
  simp only [List.mem_filter, decide_eq_true_eq]
  refine exists_congr fun range => ?_
  constructor
  · rintro ⟨⟨mem, size⟩, holds⟩
    exact ⟨mem, (documented.range_iff size _).mp holds⟩
  · rintro ⟨mem, holds⟩
    have size := size_of_containsAddress holds
    exact ⟨⟨mem, size⟩, (documented.range_iff size _).mpr holds⟩

/-- Conditions on the remote address beside some that are not. -/
theorem meets_conditions_append {ranges : List CidrRange} {more : List Condition}
    (some : traffic.layer.version.conditions ranges ≠ [])
    (apart : ∀ other ∈ more, other.field ≠ .address .remoteSide) :
    platform.Meets (traffic.layer.version.conditions ranges ++ more) traffic ↔
      covers ranges (traffic.address .remoteSide) = true ∧ platform.Meets more traffic := by
  rw [meets_append, documented.conditions_iff some]
  intro condition mem other isOther
  obtain ⟨range, -, rfl⟩ := List.mem_map.mp mem
  exact (apart other isOther).symm

theorem reached_allowDns {version : Version} {allowed : List CidrRange} :
    Reached platform (version.allowDns allowed) traffic rank ↔
      traffic.layer.version = version ∧ rank = (2, .permit) ∧ traffic.isDns = true ∧
        covers allowed (traffic.address .remoteSide) = true := by
  simp only [Version.allowDns, List.length_append, lt_add_iff_pos_right, List.length_pos_iff]
  by_cases same : traffic.layer.version = version
  · subst same
    split
    · next some =>
      rw [documented.reached_onLayers, mem_layers, meets_append_comm,
        documented.meets_conditions_append some (by decide), documented.dnsConditions_iff]
      simp [dnsRestrictAllowWeight, and_comm]
    · next none => simp [eq_false_of_ne_true (mt conditions_ne_nil none)]
  · split <;> simp [documented.reached_onLayers, mem_layers, same]

theorem tunneled_iff {tunaddr : CidrRange}
    (size : tunaddr.address.length = traffic.layer.version.addressSize) :
    platform.Meets [⟨.address .localSide, traffic.layer.version.rangeFromCidrRange tunaddr⟩,
        ⟨.address .localSide, traffic.layer.version.rangeFromCidrRange
          traffic.layer.version.loopback⟩] traffic ↔
      covers [tunaddr, traffic.layer.version.loopback] (traffic.address .localSide) = true := by
  have loopbackSize : traffic.layer.version.loopback.address.length =
      traffic.layer.version.addressSize := by cases traffic.layer.version <;> rfl
  simp [Platform.Meets, covers, documented.range_iff size, documented.range_iff loopbackSize]

/-- A filter of `block_untunneled` that allows some of what is included. -/
theorem reached_allow {incl : List CidrRange} {more : List Condition}
    (some : traffic.layer.version.conditions incl ≠ [])
    (apart : ∀ other ∈ more, other.field ≠ .address .remoteSide) :
    Reached platform (onLayers traffic.layer.version.layers untunneledBlockAllowWeight
        (traffic.layer.version.conditions incl ++ more) .permit) traffic rank ↔
      rank = (4, .permit) ∧ covers incl (traffic.address .remoteSide) = true ∧
        platform.Meets more traffic := by
  rw [documented.reached_onLayers, documented.meets_conditions_append some apart,
    and_iff_right (mem_layers.mpr rfl)]
  rfl

theorem reached_ports {incl : List CidrRange} {exclPorts : List ℕ}
    (some : traffic.layer.version.conditions incl ≠ []) :
    Reached platform (if exclPorts ≠ [] then
        onLayers traffic.layer.version.layers untunneledBlockAllowWeight
          (traffic.layer.version.conditions incl ++
            exclPorts.map fun port => ⟨.port .localSide, .uint port⟩) .permit
      else []) traffic rank ↔
      rank = (4, .permit) ∧ covers incl (traffic.address .remoteSide) = true ∧
        traffic.port .localSide ∈ exclPorts := by
  split
  · next excluded =>
    rw [documented.reached_allow some (by simp), meets_map excluded]
    simp [documented.port]
  · next none => simp [not_not.mp none]

theorem reached_blockUntunneled {version : Version} {tunaddr : CidrRange} {incl : List CidrRange}
    {exclPorts : List ℕ} :
    Reached platform (version.blockUntunneled tunaddr incl exclPorts) traffic rank ↔
      traffic.layer.version = version ∧ (tunaddr.address.length = version.addressSize ∧
        covers incl (traffic.address .remoteSide) = true) ∧
      (rank = (3, .block) ∨ rank = (4, .permit) ∧
        (covers [tunaddr, version.loopback] (traffic.address .localSide) = true ∨
          traffic.port .localSide ∈ exclPorts)) := by
  simp only [Version.blockUntunneled]
  by_cases same : traffic.layer.version = version
  · subst same
    rw [eq_self, true_and]
    split
    · next applies =>
      split
      · next empty =>
        have uncovered : covers incl (traffic.address .remoteSide) ≠ true := fun covered =>
          conditions_ne_nil covered (List.isEmpty_iff.mp empty)
        exact iff_of_false not_reached_undefined fun held => uncovered held.1.2
      · next nonempty =>
        have some := mt List.isEmpty_iff.mpr nonempty
        rw [reached_append, reached_append, documented.reached_onLayers,
          documented.conditions_iff some, documented.reached_allow some (by simp),
          documented.tunneled_iff applies.1, documented.reached_ports some,
          and_iff_right (mem_layers.mpr rfl), untunneledBlockDenyWeight, and_iff_right applies.1]
        tauto
    · next idle =>
      refine iff_of_false not_reached_nil fun held => idle ⟨held.1.1, ?_⟩
      rintro rfl
      simp [covers] at held
  · split_ifs <;> simp [documented.reached_onLayers, mem_layers, same]

/-- The tiers in which an operation has a filter that applies. -/
theorem reached_iff_mem_tiers {operation : Operation} :
    Reached platform operation.filters traffic rank ↔ (rank, true) ∈ operation.tiers traffic := by
  cases operation with
  | restrictDnsTo allowed =>
    simp only [Operation.filters, reached_append, documented.reached_onLayers,
      documented.reached_allowDns, documented.dnsConditions_iff, mem_allLayers, true_and]
    cases version : traffic.layer.version <;>
      simp [Operation.tiers, Operation.includes, Operation.denies, Operation.allowsDns, version,
        Operation.restrictsDns, dnsRestrictDenyWeight, or_comm]
  | blockIpv6 =>
    have always : platform.Meets [] traffic := by simp [Platform.Meets]
    simp only [Operation.filters, documented.reached_onLayers, mem_layers, always]
    simp [Operation.tiers, Operation.includes, Operation.denies, Operation.allowsDns,
      Operation.restrictsDns, ipv6BlockDenyWeight]
  | blockUntunneled tunaddr incl exclPorts =>
    simp only [Operation.filters, reached_append, documented.reached_blockUntunneled]
    cases version : traffic.layer.version <;>
      simp [Operation.tiers, Operation.includes, Operation.exempts, Operation.denies, version,
        Operation.allowsDns, Operation.restrictsDns] <;>
      tauto

/-- The highest tier that holds decides. -/
theorem decision_eq_of_tiers {state : platform.State} {tiers : List Tier}
    (descending : tiers.Pairwise fun higher lower => lower.1.1 < higher.1.1)
    (reached : ∀ rank, Reached platform ((platform.installed state).map some) traffic rank ↔
      (rank, true) ∈ tiers) :
    platform.decision state traffic = ((tiers.find? (·.2)).map (·.1.2)).getD .permit := by
  have holds {filter : Filter} (mem : filter ∈ platform.installed state)
      (applies : platform.applies filter traffic) :
      ((filter.weight, filter.action), true) ∈ tiers :=
    (reached _).mp ⟨filter, List.mem_map_of_mem mem, applies, rfl⟩
  cases found : tiers.find? (·.2) with
  | none =>
    refine documented.permits _ _ fun filter mem applies => ?_
    exact List.find?_eq_none.mp found _ (holds mem applies) rfl
  | some tier =>
    obtain ⟨rank, held⟩ := tier
    obtain ⟨rfl, higher, lower, rfl, unheld⟩ := List.find?_eq_some_iff_append.mp found
    obtain ⟨filter, mem, applies, rfl⟩ := (reached rank).mpr (by simp)
    have isInstalled : filter ∈ platform.installed state := by simpa using mem
    refine documented.arbitrates _ _ filter isInstalled applies ?_
    intro other otherMem otherApplies
    have tail := (List.pairwise_append.mp descending).2.1
    rcases List.mem_append.mp (holds otherMem otherApplies) with above | below
    · exact absurd (unheld _ above) (by simp)
    · rcases List.mem_cons.mp below with same | below
      · simp only [Prod.mk.injEq, and_true] at same
        exact .inr same
      · exact .inl (List.rel_of_pairwise_cons tail below)

/-! ### Whole runs -/

theorem create_installs {appId : Bytes} {start created : platform.State}
    (isCreated : create platform (.ok appId) start = some created) :
    (platform.installed created).map some = selfFilters appId := by
  unfold create at isCreated
  split at isCreated
  · cases isCreated
  · next opened called =>
    obtain ⟨rfl, success⟩ := request_eq called
    have empty := documented.opens start (success.mp rfl)
    split at isCreated
    · next registered ran =>
      have base := (documented.runTransaction_installs
        documented.registerBaseObjects_leaves ran).resolve_right (by simp)
      split at isCreated
      · next allowed selfRan =>
        obtain rfl := Option.some.inj isCreated
        have self := (documented.runTransaction_installs
          (documented.addFilters_leaves (selfFilters appId)) selfRan).resolve_right (by simp)
        rw [self.2, base.2, empty]
        rfl
      · cases isCreated
    · cases isCreated

theorem run_follows {base : List (Option Filter)} {first last : World platform}
    {operations : List Operation} (follows : first.Follows base)
    (reached : run (worldStep platform) first operations = some last) : last.Follows base := by
  refine run_invariant ?_ follows reached
  rintro ⟨handle, succeeded⟩ operation next ⟨state, rfl, installed⟩ stepped
  obtain ⟨⟨error, after⟩, performed, rfl⟩ := Option.map_eq_some_iff.mp stepped
  obtain ⟨⟨error, final⟩, ran, same⟩ := Option.map_eq_some_iff.mp performed
  obtain ⟨rfl, rfl⟩ := Prod.mk.inj same
  obtain ⟨rfl, all⟩ | ⟨failed, none⟩ := documented.runTransaction_installs
    (documented.addFilters_leaves operation.filters) ran
  · exact ⟨final, rfl, by rw [all, installed]; simp⟩
  · obtain ⟨failure, rfl⟩ := Option.ne_none_iff_exists'.mp failed
    exact ⟨final, rfl, by rw [none, installed]⟩

theorem created_follows {appId : Bytes} {start created : platform.State}
    {operations : List Operation} {world : World platform}
    (isCreated : create platform (.ok appId) start = some created)
    (reached : run (worldStep platform) ⟨some created, []⟩ operations = some world) :
    world.Follows (selfFilters appId) := by
  refine documented.run_follows ⟨created, rfl, ?_⟩ reached
  rw [documented.create_installs isCreated, List.flatMap_nil, List.append_nil]

end Platform.Documented

/-- The tiers after some operations. -/
def tiersOf (appId : Bytes) (operations : List Operation) (traffic : Traffic) : List Tier :=
  [((15, .permit), traffic.appId = appId),
    ((4, .permit), operations.any fun operation =>
      operation.includes traffic && operation.exempts traffic),
    ((3, .block), operations.any (·.denies traffic)),
    ((2, .permit), operations.any (·.allowsDns traffic)),
    ((1, .block), operations.any (·.restrictsDns traffic))]

theorem policy_eq (appId : Bytes) (operations : List Operation) (traffic : Traffic) :
    (((tiersOf appId operations traffic).find? (·.2)).map (·.1.2)).getD .permit =
      policy appId operations traffic := by
  unfold policy
  split_ifs <;> simp_all [tiersOf]

theorem Platform.Documented.decision_eq (documented : platform.Documented) {appId : Bytes}
    {operations : List Operation} {state : platform.State}
    (installed : (platform.installed state).map some =
      selfFilters appId ++ operations.flatMap Operation.filters) (traffic : Traffic) :
    platform.decision state traffic = policy appId operations traffic := by
  rw [← policy_eq]
  refine documented.decision_eq_of_tiers (by simp [tiersOf]) fun rank => ?_
  have some_iff : Reached platform (operations.flatMap Operation.filters) traffic rank ↔
      ∃ operation ∈ operations, Reached platform operation.filters traffic rank := by
    simp only [Reached, List.mem_flatMap]
    tauto
  have self : Reached platform (selfFilters appId) traffic rank ↔
      rank = (15, .permit) ∧ traffic.appId = appId := by
    rw [selfFilters, documented.reached_onLayers]
    simp [mem_allLayers, Platform.Meets, documented.appId, selfAllowWeight]
  rw [installed, reached_append, self, some_iff]
  simp only [documented.reached_iff_mem_tiers]
  simp [tiersOf, Operation.tiers, and_or_left, exists_or, @and_left_comm (_ ∈ operations)]

theorem policy_eq_block_iff {appId : Bytes} {operations : List Operation} :
    policy appId operations traffic = .block ↔
      traffic.appId ≠ appId ∧
      (¬∃ operation ∈ operations,
        operation.includes traffic = true ∧ operation.exempts traffic = true) ∧
      ((∃ operation ∈ operations, operation.denies traffic = true) ∨
        (∃ operation ∈ operations, operation.restrictsDns traffic = true) ∧
          ¬∃ operation ∈ operations, operation.allowsDns traffic = true) := by
  simp only [policy, List.any_eq_true, Bool.and_eq_true]
  split_ifs <;> simp_all

/-! ### A simulated platform -/

/-- A platform on which the codes of the calls are given. Those of further calls are 0. -/
structure Simulation where
  codes : List ℕ
  installed : List Filter := []
  pending : Option (List Filter) := none

/-- A call that succeeds. -/
def Simulation.succeed (state : Simulation) : Request → Simulation
  | .engineOpen => { state with installed := [] }
  | .transactionBegin => { state with pending := some [] }
  | .transactionCommit =>
    { state with installed := state.installed ++ state.pending.getD [], pending := none }
  | .transactionAbort => { state with pending := none }
  | .filterAdd filter => { state with pending := state.pending.map (· ++ [filter]) }
  | _ => state

/-- A condition on one connection. -/
def Condition.holds (traffic : Traffic) : Condition → Bool
  | ⟨.appId, .byteBlob blob⟩ => traffic.appId = blob
  | ⟨.protocol, .uint number⟩ => traffic.protocol = number
  | ⟨.port side, .uint number⟩ => traffic.port side = number
  | ⟨.address side, .v4AddrMask addr mask⟩ =>
    addressValue (traffic.address side) &&& mask = addr &&& mask
  | ⟨.address side, .v6AddrMask addr prefixLength⟩ =>
    addressValue (traffic.address side) / 2 ^ (128 - prefixLength) =
      addressValue addr / 2 ^ (128 - prefixLength)
  | _ => false

/-- The conditions of a filter on one connection. -/
def Filter.holds (traffic : Traffic) (filter : Filter) : Bool :=
  filter.layer = traffic.layer && filter.conditions.all fun condition =>
    filter.conditions.any fun other => other.field = condition.field && other.holds traffic

/-- The platform with these states. -/
def simulated : Platform where
  State := Simulation
  code state _ := state.codes.headD 0
  after state call :=
    if state.codes.headD 0 = 0 then { state with codes := state.codes.tail }.succeed call
    else { state with codes := state.codes.tail }
  installed := Simulation.installed
  pending := Simulation.pending
  satisfies condition traffic := condition.holds traffic = true
  applies filter traffic := filter.holds traffic = true
  decision state traffic :=
    (((state.installed.filter (·.holds traffic)).argmax Filter.weight).map Filter.action).getD
      .permit

theorem simulated_documented : simulated.Documented where
  opens state zero := by simp_all [simulated, Simulation.succeed]
  begins state zero := by simp_all [simulated, Simulation.succeed]
  adds state filter filters inTransaction zero := by simp_all [simulated, Simulation.succeed]
  registers state call mem := by
    rcases List.mem_pair.mp mem with rfl | rfl <;> simp only [simulated] <;> split <;> rfl
  commits state filters inTransaction zero := by simp_all [simulated, Simulation.succeed]
  keeps state call opened failed _ := by
    cases call <;> simp_all [simulated, Simulation.succeed, apply_ite Simulation.installed]
  appId traffic blob := decide_eq_true_iff
  protocol traffic number := decide_eq_true_iff
  port traffic side number := decide_eq_true_iff
  v4 traffic side addr mask _ := decide_eq_true_iff
  v6 traffic side addr prefixLength _ := decide_eq_true_iff
  combines filter traffic := by simp [simulated, Platform.Meets, Filter.holds]
  permits state traffic none := by
    have empty : state.installed.filter (·.holds traffic) = [] :=
      List.filter_eq_nil_iff.mpr none
    simp [simulated, empty]
  arbitrates state traffic filter mem applies highest := by
    have isMatch : filter ∈ state.installed.filter (·.holds traffic) :=
      List.mem_filter.mpr ⟨mem, applies⟩
    cases found : (state.installed.filter (·.holds traffic)).argmax Filter.weight with
    | none => simp [List.argmax_eq_none.mp found] at isMatch
    | some best =>
      have bestMem := List.mem_filter.mp (List.argmax_mem found)
      have atLeast := List.le_of_mem_argmax isMatch found
      have same := (highest best bestMem.1 bestMem.2).resolve_left (Nat.not_lt.mpr atLeast)
      simpa [simulated, found] using same.2

/-- UDP from another process, with an address that repeats one byte. -/
def connection (version : Version) (remote : UInt8) (remotePort localPort : ℕ) : Traffic where
  layer := ⟨.connect, version⟩
  appId := [2]
  protocol := 17
  port side := if side = .remoteSide then remotePort else localPort
  address side := List.replicate version.addressSize (if side = .remoteSide then remote else 1)
  addressSize _ := List.length_replicate

/-- DNS to one address only, which repeats one byte. -/
def dnsTo (server : UInt8) : Operation :=
  .restrictDnsTo fun _ => [.init (List.replicate 4 server) 32]

/-- Connections to 7.7.7.0/24 are blocked, except from some ports. -/
def untunneled (exclPorts : List ℕ) : Operation :=
  .blockUntunneled (fun _ => .init [10, 0, 0, 1] 32)
    (fun version => if version = .v4 then [.init [7, 7, 7, 0] 24] else []) exclPorts

/-- All calls succeed except the 27th. -/
def laterFailure : Simulation := ⟨List.replicate 26 0 ++ [5], [], none⟩

/-- A new firewall after some operations. -/
def session (operations : List Operation) : Option (World simulated) :=
  (create simulated (.ok [1]) laterFailure).bind fun created =>
    run (worldStep simulated) ⟨some created, []⟩ operations

section Runs

variable {appId : Bytes} {start created : platform.State} {operations more : List Operation}
  {world later : World platform}

/-- Whichever calls of the platform fail: after a run that has a result, the filters in force are
all those of the operations that returned no error, and none of the others. -/
theorem run_all_or_nothing (documented : platform.Documented)
    (isCreated : create platform (.ok appId) start = some created)
    (reached : run (worldStep platform) ⟨some created, []⟩ operations = some world) :
    ∃ state, world.handle = some state ∧ (platform.installed state).map some =
      selfFilters appId ++ world.succeeded.flatMap Operation.filters :=
  documented.created_follows isCreated reached

/-- After a run that has a result, the platform decides by the policy. -/
theorem run_follows_policy (documented : platform.Documented)
    (isCreated : create platform (.ok appId) start = some created)
    (reached : run (worldStep platform) ⟨some created, []⟩ operations = some world) :
    ∃ state, world.handle = some state ∧ ∀ traffic,
      platform.decision state traffic = policy appId world.succeeded traffic := by
  obtain ⟨state, same, installed⟩ := documented.created_follows isCreated reached
  exact ⟨state, same, documented.decision_eq installed⟩

/-- Further operations let blocked connections through only if one exempts them or allows their
DNS, and they block others only if one denies them or is the first one to restrict their DNS: a
further `restrict_dns_to` never narrows an earlier one. -/
theorem later_operations_change (documented : platform.Documented)
    (isCreated : create platform (.ok appId) start = some created)
    (reached : run (worldStep platform) ⟨some created, []⟩ operations = some world)
    (continued : run (worldStep platform) ⟨world.handle, []⟩ more = some later) :
    ∃ before after, world.handle = some before ∧ later.handle = some after ∧ ∀ traffic,
      (platform.decision before traffic = .block → platform.decision after traffic = .permit →
        ∃ operation ∈ later.succeeded, operation.permits traffic = true) ∧
      (platform.decision before traffic = .permit → platform.decision after traffic = .block →
        ∃ operation ∈ later.succeeded, operation.denies traffic = true ∨
          operation.restrictsDns traffic = true ∧
            ∀ earlier ∈ world.succeeded, earlier.restrictsDns traffic = false) := by
  obtain ⟨before, same, installed⟩ := documented.created_follows isCreated reached
  have middle : (⟨world.handle, []⟩ : World platform).Follows
      (selfFilters appId ++ world.succeeded.flatMap Operation.filters) :=
    ⟨before, same, by rw [installed, List.flatMap_nil, List.append_nil]⟩
  obtain ⟨after, laterSame, all⟩ := documented.run_follows middle continued
  rw [List.append_assoc, ← List.flatMap_append] at all
  refine ⟨before, after, same, laterSame, fun traffic => ?_⟩
  rw [documented.decision_eq installed, documented.decision_eq all]
  have earlier := @policy_eq_block_iff traffic appId world.succeeded
  have latest := @policy_eq_block_iff traffic appId (world.succeeded ++ later.succeeded)
  simp only [List.mem_append, or_and_right, exists_or, not_or] at latest
  constructor
  · intro blocked permitted
    by_contra none
    simp only [Operation.permits, Bool.or_eq_true, Bool.and_eq_true, not_exists, not_and,
      not_or] at none
    obtain ⟨other, unexempted, denied⟩ := earlier.mp blocked
    have unexempts : ¬∃ operation ∈ later.succeeded,
        operation.includes traffic = true ∧ operation.exempts traffic = true :=
      fun ⟨operation, mem, exempts⟩ => (none operation mem).1 exempts.1 exempts.2
    have unallows : ¬∃ operation ∈ later.succeeded, operation.allowsDns traffic = true :=
      fun ⟨operation, mem, allows⟩ => (none operation mem).2 allows
    have still := latest.mpr ⟨other, ⟨unexempted, unexempts⟩,
      denied.imp .inl fun dns => .inl ⟨dns.1, dns.2, unallows⟩⟩
    rw [still] at permitted
    cases permitted
  · intro permitted blocked
    have unblocked : policy appId world.succeeded traffic ≠ .block := by simp [permitted]
    obtain ⟨other, ⟨unexempted, -⟩, (denied | ⟨operation, mem, denies⟩) |
      ⟨restricted, unallowed, -⟩ | ⟨⟨operation, mem, restricts⟩, unallowed, -⟩⟩ :=
        latest.mp blocked
    · exact absurd (earlier.mpr ⟨other, unexempted, .inl denied⟩) unblocked
    · exact ⟨operation, mem, .inl denies⟩
    · exact absurd (earlier.mpr ⟨other, unexempted, .inr ⟨restricted, unallowed⟩⟩) unblocked
    · refine ⟨operation, mem, .inr ⟨restricts, fun first isFirst => ?_⟩⟩
      refine eq_false_of_ne_true fun restricted => unblocked (earlier.mpr ?_)
      exact ⟨other, unexempted, .inr ⟨⟨first, isFirst, restricted⟩, unallowed⟩⟩

end Runs

/-- An addition of `block_ipv6` fails, and none of its filters is installed. -/
theorem run_all_or_nothing_failing : ∃ world state,
    session [dnsTo 9, untunneled [], .blockIpv6, untunneled [1024]] = some world ∧
    world.handle = some state ∧ (simulated.installed state).map some =
      selfFilters [1] ++ [dnsTo 9, untunneled [], untunneled [1024]].flatMap Operation.filters := by
  obtain ⟨state, same, installed⟩ := @run_all_or_nothing simulated [1] laterFailure _
    [dnsTo 9, untunneled [], .blockIpv6, untunneled [1024]] _ simulated_documented rfl rfl
  exact ⟨_, state, rfl, same, installed⟩

/-- Another process may resolve with 9.9.9.9 but not with 8.8.8.8, may connect to 7.7.7.7 from port
1024 only, and may use IPv6, as the operation that blocks it fails. -/
theorem run_follows_policy_failing : ∃ world state,
    session [dnsTo 9, untunneled [], .blockIpv6, untunneled [1024]] = some world ∧
    world.handle = some state ∧
    simulated.decision state (connection .v4 9 53 5000) = .permit ∧
    simulated.decision state (connection .v4 8 53 5000) = .block ∧
    simulated.decision state (connection .v4 7 443 5000) = .block ∧
    simulated.decision state (connection .v4 7 443 1024) = .permit ∧
    simulated.decision state (connection .v6 7 443 5000) = .permit := by
  obtain ⟨state, same, follows⟩ := @run_follows_policy simulated [1] laterFailure _
    [dnsTo 9, untunneled [], .blockIpv6, untunneled [1024]] _ simulated_documented rfl rfl
  refine ⟨_, state, rfl, same, ?_, ?_, ?_, ?_, ?_⟩ <;> rw [follows] <;> decide

/-- Later operations let a lookup and a connection from port 1024 through, and block IPv6. -/
theorem later_operations_change_failing : ∃ world later,
    session [dnsTo 9, untunneled []] = some world ∧
    run (worldStep simulated) ⟨world.handle, []⟩
      [.blockIpv6, untunneled [1024], .blockIpv6, dnsTo 8] = some later ∧
    (∃ operation ∈ later.succeeded, operation.permits (connection .v4 8 53 5000) = true) ∧
    (∃ operation ∈ later.succeeded, operation.permits (connection .v4 7 443 1024) = true) ∧
    ∃ operation ∈ later.succeeded, operation.denies (connection .v6 7 443 5000) = true ∨
      operation.restrictsDns (connection .v6 7 443 5000) = true ∧
        ∀ earlier ∈ world.succeeded,
          earlier.restrictsDns (connection .v6 7 443 5000) = false := by
  obtain ⟨before, after, same, laterSame, changes⟩ :=
    @later_operations_change simulated [1] laterFailure _ [dnsTo 9, untunneled []]
      [.blockIpv6, untunneled [1024], .blockIpv6, dnsTo 8] _ _ simulated_documented rfl rfl rfl
  obtain rfl := Option.some.inj same
  obtain rfl := Option.some.inj laterSame
  exact ⟨_, _, rfl, rfl, (changes _).1 (by decide) (by decide),
    (changes _).1 (by decide) (by decide), (changes _).2 (by decide) (by decide)⟩

end NativeLibs.Firewall
