/-
This file embeds `WfpFirewall`, which restricts the traffic of a Windows host with
filters of the Windows Filtering Platform. The platform is not part of the
repository, so it is a parameter: each call of it has a code and leads to another
state. What is documented of it is a hypothesis, and only what is used is assumed.

An operation adds its filters in a transaction, which is aborted if one of them
cannot be added and committed otherwise. `block_untunneled` takes the address of
the first of its conditions. If there is none, that is undefined and has no result.
-/

import NativeLibs.Cidr.Range
import NativeLibs.Library.Runs

namespace NativeLibs.Firewall

open Cidr Library

/-! ### Filters -/

/-- IPv4 and IPv6, which the source handles alike. -/
inductive Version where
  | v4
  | v6
  deriving DecidableEq

/-- `FWPM_LAYER_ALE_AUTH_CONNECT` and `FWPM_LAYER_ALE_AUTH_RECV_ACCEPT`. -/
inductive Direction where
  | connect
  | recvAccept
  deriving DecidableEq

/-- The layer for a direction and a version. -/
structure Layer where
  direction : Direction
  version : Version
  deriving DecidableEq

/-- `FWP_ACTION_PERMIT` and `FWP_ACTION_BLOCK`. -/
inductive Action where
  | permit
  | block
  deriving DecidableEq

/-- The two ends of a connection. -/
inductive Side where
  | localSide
  | remoteSide
  deriving DecidableEq

/-- The field of a condition. -/
inductive Field where
  | appId
  | protocol
  | port (side : Side)
  | address (side : Side)
  deriving DecidableEq

/-- `FWP_CONDITION_VALUE0`. -/
inductive Value where
  | byteBlob (blob : Bytes)
  | uint (number : ℕ)
  | v4AddrMask (addr mask : ℕ)
  | v6AddrMask (addr : Bytes) (prefixLength : ℕ)

/-- `FWPM_FILTER_CONDITION0`, with `FWP_MATCH_EQUAL`. -/
structure Condition where
  field : Field
  value : Value

/-- `FWPM_FILTER0`, without the names and keys. -/
structure Filter where
  layer : Layer
  weight : ℕ
  conditions : List Condition
  action : Action

/-- `IPV4_ADDRESS_SIZE` and `IPV6_ADDRESS_SIZE`. -/
def Version.addressSize : Version → ℕ
  | .v4 => 4
  | .v6 => 16

/-- What the platform sees of a connection. -/
structure Traffic where
  layer : Layer
  appId : Bytes
  protocol : ℕ
  port : Side → ℕ
  address : Side → Bytes
  addressSize : ∀ side, (address side).length = layer.version.addressSize

/-! ### The platform -/

/-- The calls of the platform. -/
inductive Request where
  | engineOpen
  | transactionBegin
  | transactionCommit
  | transactionAbort
  | providerAdd
  | subLayerAdd
  | filterAdd (filter : Filter)

/-- The name of the function. -/
def Request.function : Request → String
  | .engineOpen => "FwpmEngineOpen0"
  | .transactionBegin => "FwpmTransactionBegin0"
  | .transactionCommit => "FwpmTransactionCommit0"
  | .transactionAbort => "FwpmTransactionAbort0"
  | .providerAdd => "FwpmProviderAdd0"
  | .subLayerAdd => "FwpmSubLayerAdd0"
  | .filterAdd _ => "FwpmFilterAdd0"

/-- A platform: the code of a call and the state after it, the filters in force and those of the
open transaction, if there is one, which conditions are satisfied and which filters apply, and what
the filters in force make of a connection. -/
structure Platform where
  State : Type
  code : State → Request → ℕ
  after : State → Request → State
  installed : State → List Filter
  pending : State → Option (List Filter)
  satisfies : Condition → Traffic → Prop
  applies : Filter → Traffic → Prop
  decision : State → Traffic → Action

/-- The conditions are met together: those on one field are alternatives. -/
def Platform.Meets (platform : Platform) (conditions : List Condition) (traffic : Traffic) : Prop :=
  ∀ condition ∈ conditions, ∃ other ∈ conditions,
    other.field = condition.field ∧ platform.satisfies other traffic

/-- What is documented of the platform, as far as it is used. -/
structure Platform.Documented (platform : Platform) : Prop where
  opens : ∀ state, platform.code state .engineOpen = 0 →
    platform.installed (platform.after state .engineOpen) = []
  begins : ∀ state, platform.code state .transactionBegin = 0 →
    platform.pending (platform.after state .transactionBegin) = some []
  adds : ∀ state filter filters, platform.pending state = some filters →
    platform.code state (.filterAdd filter) = 0 →
    platform.pending (platform.after state (.filterAdd filter)) = some (filters ++ [filter])
  registers : ∀ state, ∀ request ∈ [Request.providerAdd, .subLayerAdd],
    platform.pending (platform.after state request) = platform.pending state
  commits : ∀ state filters, platform.pending state = some filters →
    platform.code state .transactionCommit = 0 →
    platform.installed (platform.after state .transactionCommit) =
      platform.installed state ++ filters
  /-- In a transaction only a commit that succeeds changes what is in force. -/
  keeps : ∀ state request, request ≠ .engineOpen →
    (request = .transactionCommit → platform.code state request ≠ 0) →
    (∀ filter, request = .filterAdd filter → platform.pending state ≠ none) →
    platform.installed (platform.after state request) = platform.installed state
  appId : ∀ traffic blob,
    platform.satisfies ⟨.appId, .byteBlob blob⟩ traffic ↔ traffic.appId = blob
  protocol : ∀ traffic number,
    platform.satisfies ⟨.protocol, .uint number⟩ traffic ↔ traffic.protocol = number
  port : ∀ traffic side number,
    platform.satisfies ⟨.port side, .uint number⟩ traffic ↔ traffic.port side = number
  v4 : ∀ traffic side addr mask, traffic.layer.version = .v4 →
    (platform.satisfies ⟨.address side, .v4AddrMask addr mask⟩ traffic ↔
      addressValue (traffic.address side) &&& mask = addr &&& mask)
  v6 : ∀ traffic side addr prefixLength, traffic.layer.version = .v6 →
    (platform.satisfies ⟨.address side, .v6AddrMask addr prefixLength⟩ traffic ↔
      addressValue (traffic.address side) / 2 ^ (128 - prefixLength) =
        addressValue addr / 2 ^ (128 - prefixLength))
  combines : ∀ filter traffic, platform.applies filter traffic ↔
    filter.layer = traffic.layer ∧ platform.Meets filter.conditions traffic
  permits : ∀ state traffic,
    (∀ filter ∈ platform.installed state, ¬platform.applies filter traffic) →
    platform.decision state traffic = .permit
  /-- A filter of the highest weight decides. Nothing is assumed if those of one weight differ. -/
  arbitrates : ∀ state traffic, ∀ filter ∈ platform.installed state,
    platform.applies filter traffic →
    (∀ other ∈ platform.installed state, platform.applies other traffic →
      other.weight < filter.weight ∨
        other.weight = filter.weight ∧ other.action = filter.action) →
    platform.decision state traffic = filter.action

/-! ### What is added -/

/-- `DNS_RESTRICT_DENY_WEIGHT`. -/
def dnsRestrictDenyWeight : ℕ := 1

/-- `DNS_RESTRICT_ALLOW_WEIGHT`. -/
def dnsRestrictAllowWeight : ℕ := 2

/-- `IPV6_BLOCK_DENY_WEIGHT`. -/
def ipv6BlockDenyWeight : ℕ := 3

/-- `UNTUNNELED_BLOCK_DENY_WEIGHT`. -/
def untunneledBlockDenyWeight : ℕ := 3

/-- `UNTUNNELED_BLOCK_ALLOW_WEIGHT`. -/
def untunneledBlockAllowWeight : ℕ := 4

/-- `SELF_ALLOW_WEIGHT`. -/
def selfAllowWeight : ℕ := 15

/-- The two layers of a version. -/
def Version.layers (version : Version) : List Layer := [⟨.connect, version⟩, ⟨.recvAccept, version⟩]

/-- All four of them. -/
def allLayers : List Layer := Version.v4.layers ++ Version.v6.layers

/-- `fwp_v4_range_from_cidr_range` and `fwp_v6_range_from_cidr_range`. -/
def Version.rangeFromCidrRange : Version → CidrRange → Value
  | .v4, range => .v4AddrMask (addressValue range.address) (addressValue range.mask)
  | .v6, range => .v6AddrMask range.address range.prefixLen

/-- `"127.0.0.1/32"` and `"::1/128"`. -/
def Version.loopback : Version → CidrRange
  | .v4 => .init [127, 0, 0, 1] 32
  | .v6 => .init (List.replicate 15 0 ++ [1]) 128

/-- A filter that is added to several layers. In such lists, `none` is one that is undefined. -/
def onLayers (layers : List Layer) (weight : ℕ) (conditions : List Condition) (action : Action) :
    List (Option Filter) :=
  layers.map fun layer => some ⟨layer, weight, conditions, action⟩

/-- The conditions for some ranges, of which those of the other version are skipped. -/
def Version.conditions (version : Version) (ranges : List CidrRange) : List Condition :=
  (ranges.filter fun range => range.address.length = version.addressSize).map fun range =>
    ⟨.address .remoteSide, version.rangeFromCidrRange range⟩

/-- `dns_conditions`. -/
def dnsConditions : List Condition :=
  [⟨.port .remoteSide, .uint 53⟩, ⟨.protocol, .uint 6⟩, ⟨.protocol, .uint 17⟩]

/-- The part of `restrict_dns_to` that allows addresses of a version. -/
def Version.allowDns (version : Version) (allowed : List CidrRange) : List (Option Filter) :=
  let conditions := dnsConditions ++ version.conditions allowed
  if dnsConditions.length < conditions.length then
    onLayers version.layers dnsRestrictAllowWeight conditions .permit
  else []

/-- The part of `block_untunneled` for a version. -/
def Version.blockUntunneled (version : Version) (tunaddr : CidrRange) (incl : List CidrRange)
    (exclPorts : List ℕ) : List (Option Filter) :=
  if tunaddr.address.length = version.addressSize ∧ incl ≠ [] then
    let conditions := version.conditions incl
    -- the address of the first condition is taken
    if conditions.isEmpty then [none]
    else
      onLayers version.layers untunneledBlockDenyWeight conditions .block ++
        onLayers version.layers untunneledBlockAllowWeight
          (conditions ++ [⟨.address .localSide, version.rangeFromCidrRange tunaddr⟩,
            ⟨.address .localSide, version.rangeFromCidrRange version.loopback⟩]) .permit ++
        if exclPorts ≠ [] then
          onLayers version.layers untunneledBlockAllowWeight
            (conditions ++ exclPorts.map fun port => ⟨.port .localSide, .uint port⟩) .permit
        else []
  else []

/-- The operations. An argument with one value for each version is a function. -/
inductive Operation where
  | restrictDnsTo (allowed : Version → List CidrRange)
  | blockIpv6
  | blockUntunneled (tunaddr : Version → CidrRange) (incl : Version → List CidrRange)
      (exclPorts : List ℕ)

/-- The filters that `restrict_dns_to`, `block_ipv6` and `block_untunneled` add. -/
def Operation.filters : Operation → List (Option Filter)
  | .restrictDnsTo allowed =>
    onLayers allLayers dnsRestrictDenyWeight dnsConditions .block ++
      Version.v4.allowDns (allowed .v4) ++ Version.v6.allowDns (allowed .v6)
  | .blockIpv6 => onLayers Version.v6.layers ipv6BlockDenyWeight [] .block
  | .blockUntunneled tunaddr incl exclPorts =>
    Version.v4.blockUntunneled (tunaddr .v4) (incl .v4) exclPorts ++
      Version.v6.blockUntunneled (tunaddr .v6) (incl .v6) exclPorts

/-- The filters that the constructor adds. -/
def selfFilters (appId : Bytes) : List (Option Filter) :=
  onLayers allLayers selfAllowWeight [⟨.appId, .byteBlob appId⟩] .permit

/-! ### The calls -/

/-- `WfpFirewallErrorCode`. -/
inductive WfpFirewallErrorCode where
  | notInitialized
  | wfpError
  | winapiError
  deriving DecidableEq

/-- `WfpFirewallError`, of which `nullptr` is `none`. -/
structure WfpFirewallError where
  code : WfpFirewallErrorCode
  message : String

variable (platform : Platform)

/-- A call of the platform with the error that is made of its code. -/
def request (state : platform.State) (call : Request) :
    Option WfpFirewallError × platform.State :=
  (if platform.code state call = 0 then none
    else some ⟨.wfpError, call.function ++ " failed with code 0x" ++
      String.ofList (Nat.toDigits 16 (platform.code state call))⟩, platform.after state call)

/-- Filters are added up to the first one that fails. -/
def addFilters : List (Option Filter) → platform.State →
    Option (Option WfpFirewallError × platform.State)
  | [], state => some (none, state)
  | none :: _, _ => none
  | some filter :: rest, state =>
    match request platform state (.filterAdd filter) with
    | (some error, next) => some (some error, next)
    | (none, next) => addFilters rest next

/-- `run_transaction`. -/
def runTransaction
    (func : platform.State → Option (Option WfpFirewallError × platform.State))
    (state : platform.State) : Option (Option WfpFirewallError × platform.State) :=
  match request platform state .transactionBegin with
  | (some error, next) => some (some error, next)
  | (none, begun) =>
    (func begun).map fun
      | (some error, next) => (some error, platform.after next .transactionAbort)
      | (none, next) => request platform next .transactionCommit

/-- `register_base_objects`. -/
def registerBaseObjects (state : platform.State) :
    Option (Option WfpFirewallError × platform.State) :=
  match request platform state .providerAdd with
  | (some error, next) => some (some error, next)
  | (none, next) => some (request platform next .subLayerAdd)

/-- `allow_self`, with what the Windows API says of the process. -/
def allowSelf (appId : Except WfpFirewallError Bytes) (state : platform.State) :
    Option (Option WfpFirewallError × platform.State) :=
  match appId with
  | .error error => some (some error, state)
  | .ok blob => addFilters platform (selfFilters blob) state

/-- The constructor: the state behind the handle, or none if the handle is invalid, as it is after
a failure, when the session is closed. -/
def create (appId : Except WfpFirewallError Bytes) (state : platform.State) :
    Option platform.State :=
  match request platform state .engineOpen with
  | (some _, _) => none
  | (none, opened) =>
    match runTransaction platform (registerBaseObjects platform) opened with
    | some (none, registered) =>
      match runTransaction platform (allowSelf platform appId) registered with
      | some (none, allowed) => some allowed
      | _ => none
    | _ => none

/-- An operation: its error, if there is one, and the state behind the handle. -/
def perform (handle : Option platform.State) (operation : Operation) :
    Option (Option WfpFirewallError × Option platform.State) :=
  match handle with
  | none => some (some ⟨.notInitialized, ""⟩, none)
  | some state =>
    (runTransaction platform (addFilters platform operation.filters) state).map fun
      | (error, next) => (error, some next)

/-- A firewall and the operations that returned no error. -/
structure World where
  handle : Option platform.State
  succeeded : List Operation := []

/-- An operation on a firewall. -/
def worldStep (world : World platform) (operation : Operation) : Option (World platform) :=
  (perform platform world.handle operation).map fun
    | (none, handle) => ⟨handle, world.succeeded ++ [operation]⟩
    | (some _, handle) => ⟨handle, world.succeeded⟩

end NativeLibs.Firewall
