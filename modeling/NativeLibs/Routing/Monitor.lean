/-
This file models `changed_handler` and `handle_network_change` of the network
monitor on Linux. A batch is what one `recvmsg` returns. The messages about routes
change the routing table, and after the batch the monitor asks the table whether
its defaults have changed, which resets the flag.

The table is not asked when the batch has a message about an address, because `||`
does not evaluate its second operand then. So a change of the defaults in such a
batch stays latched, and the next batch without such a message finds the flag set.

The calls of the command handler are the second result of each function. What the
system says while a message or a batch is handled is a part of it: which interfaces
are ignored and how an interface is called.
-/

import NativeLibs.Library.Runs
import NativeLibs.Routing.Defaults

namespace NativeLibs.Routing

open Library RoutingTable

/-! ### The monitor -/

/-- `LinuxRoutingTable::get_default_if_name`, with what `if_indextoname` returns. -/
def RoutingTable.getDefaultIfName (ifIndextoname : UInt32 → Option Bytes) (table : RoutingTable) :
    Bytes :=
  match table.getDefaultIfIndex with
  | none => []
  | some ifIndex => if ifIndex = 0 then [] else (ifIndextoname ifIndex).getD []

/-- The messages that `changed_handler` tells apart. -/
inductive MonitorMessage where
  | newAddr
  | delAddr
  | newRoute (ignored : UInt32 → Bool) (message : RouteMessage)
  | delRoute (ignored : UInt32 → Bool) (message : RouteMessage)
  | other

/-- A message about an address. -/
def MonitorMessage.isAddress : MonitorMessage → Bool
  | .newAddr => true
  | .delAddr => true
  | .newRoute _ _ => false
  | .delRoute _ _ => false
  | .other => false

/-- What `recvmsg` receives, if it succeeds, and what `if_indextoname` and the command
`ip -o route show to default` say afterwards. -/
structure Batch where
  received : Option (List MonitorMessage)
  ifIndextoname : UInt32 → Option Bytes
  shownDefault : Bytes

/-- `NetworkMonitorImpl`. -/
structure NetworkMonitor where
  routingTable : RoutingTable
  ifName : Bytes

/-- The arguments of a call of the command handler. -/
abbrev HandlerCall := Bytes × Bool

namespace NetworkMonitor

/-- `handle_network_change`. The flag tells whether there is a command handler. -/
def handleNetworkChange (cmdHandler : Bool) (monitor : NetworkMonitor) (newIfName : Bytes)
    (isSatisfied : Bool) : NetworkMonitor × List HandlerCall :=
  if !isSatisfied then
    ({ monitor with ifName := [] }, if cmdHandler then [([], false)] else [])
  else if monitor.ifName ≠ newIfName then
    ({ monitor with ifName := newIfName }, if cmdHandler then [(newIfName, true)] else [])
  else (monitor, [])

variable (sorting : Sorting)

/-- One round of the loop over the messages, for the routing table. -/
def handleMessage (table : RoutingTable) : MonitorMessage → RoutingTable
  | .newRoute ignored message => table.handleNewRoute sorting ignored message
  | .delRoute ignored message => table.handleDelRoute sorting ignored message
  | .newAddr => table
  | .delAddr => table
  | .other => table

/-- The loop over the messages: `addr_changed` and the table. -/
def handleMessages (netlinkAvailable : Bool) (messages : List MonitorMessage)
    (table : RoutingTable) : Bool × RoutingTable :=
  messages.foldl (fun (addrChanged, table) message =>
    (addrChanged || message.isAddress,
      if netlinkAvailable then handleMessage sorting table message else table)) (false, table)

/-- `changed_handler`. -/
def changedHandler (netlinkAvailable cmdHandler : Bool) (monitor : NetworkMonitor)
    (batch : Batch) : NetworkMonitor × List HandlerCall :=
  match batch.received with
  | none => (monitor, [])
  | some messages =>
    let (addrChanged, table) :=
      handleMessages sorting netlinkAvailable messages monitor.routingTable
    if netlinkAvailable then
      -- the table is asked only if no address has changed
      let (hasChanged, table) :=
        if addrChanged then (true, table) else table.hasDefaultChangedAndReset
      let monitor := { monitor with routingTable := table }
      if hasChanged then
        let newIfName := table.getDefaultIfName batch.ifIndextoname
        monitor.handleNetworkChange cmdHandler newIfName !newIfName.isEmpty
      else (monitor, [])
    else
      let monitor := { monitor with routingTable := table }
      if addrChanged then
        monitor.handleNetworkChange cmdHandler batch.shownDefault !batch.shownDefault.isEmpty
      else (monitor, [])

/-- The monitor over the table that `init_routing_table` has loaded, with the flag reset. -/
def initRoutingTable (table : RoutingTable) : NetworkMonitor :=
  ⟨table.hasDefaultChangedAndReset.2, []⟩

/-- The monitor after a sequence of batches, while Netlink is available. -/
def afterBatches (cmdHandler : Bool) (monitor : NetworkMonitor) (batches : List Batch) :
    NetworkMonitor :=
  batches.foldl (fun monitor batch => (changedHandler sorting true cmdHandler monitor batch).1)
    monitor

end NetworkMonitor

open NetworkMonitor

/-! ### Batches -/

/-- The batch has a message about an address. -/
def Batch.HasAddress (batch : Batch) : Prop :=
  ∃ messages, batch.received = some messages ∧ ∃ message ∈ messages, message.isAddress = true

/-- A message of the list changes the stored defaults. -/
def SomeMessageChanges (sorting : Sorting) (table : RoutingTable)
    (messages : List MonitorMessage) : Prop :=
  ∃ before message later, messages = before ++ message :: later ∧
    (handleMessage sorting (before.foldl (handleMessage sorting) table) message).defaults ≠
      (before.foldl (handleMessage sorting) table).defaults

/-- A message of the batch changes the stored defaults. -/
def ChangesDefault (sorting : Sorting) (monitor : NetworkMonitor) (batch : Batch) : Prop :=
  ∃ messages, batch.received = some messages ∧
    SomeMessageChanges sorting monitor.routingTable messages

/-- The name of the default interface after the messages of a batch. -/
def nameAfter (sorting : Sorting) (monitor : NetworkMonitor) (batch : Batch) : Bytes :=
  ((batch.received.getD []).foldl (handleMessage sorting) monitor.routingTable).getDefaultIfName
    batch.ifIndextoname

/-- The default interface has no name before a batch, or another one than the monitor knows. -/
def Announces (monitor : NetworkMonitor) (batch : Batch) : Prop :=
  monitor.routingTable.getDefaultIfName batch.ifIndextoname = [] ∨
    monitor.ifName ≠ monitor.routingTable.getDefaultIfName batch.ifIndextoname

/-! ### One batch -/

theorem handleMessages_available (sorting : Sorting) (messages : List MonitorMessage)
    (table : RoutingTable) :
    handleMessages sorting true messages table =
      (messages.any MonitorMessage.isAddress, messages.foldl (handleMessage sorting) table) := by
  have fold : ∀ addrChanged, messages.foldl (fun (addrChanged, table) message =>
      (addrChanged || message.isAddress, handleMessage sorting table message))
        (addrChanged, table) =
      (addrChanged || messages.any MonitorMessage.isAddress,
        messages.foldl (handleMessage sorting) table) := by
    induction messages generalizing table with
    | nil => exact fun addrChanged => by rw [List.any_nil, Bool.or_false]; rfl
    | cons message rest inductionHypothesis =>
      intro addrChanged
      rw [List.foldl_cons, inductionHypothesis, List.any_cons, Bool.or_assoc]
      rfl
  exact fold false

theorem flag_handleMessage (sorting : Sorting) (table : RoutingTable) (message : MonitorMessage) :
    (handleMessage sorting table message).defaultChanged = true ↔
      table.defaultChanged = true ∨
        (handleMessage sorting table message).defaults ≠ table.defaults := by
  cases message with
  | newRoute ignored message => exact flag_call sorting ignored table (.newRoute message)
  | delRoute ignored message => exact flag_call sorting ignored table (.delRoute message)
  | newAddr => exact (or_iff_left fun differs => differs rfl).symm
  | delAddr => exact (or_iff_left fun differs => differs rfl).symm
  | other => exact (or_iff_left fun differs => differs rfl).symm

theorem flag_messages (sorting : Sorting) (table : RoutingTable)
    (messages : List MonitorMessage) :
    (messages.foldl (handleMessage sorting) table).defaultChanged = true ↔
      table.defaultChanged = true ∨ SomeMessageChanges sorting table messages :=
  foldl_latch_iff (fun table => table.defaultChanged = true) _ (flag_handleMessage sorting) table
    messages

theorem defaults_messages {sorting : Sorting} {table : RoutingTable}
    {messages : List MonitorMessage} (unchanged : ¬SomeMessageChanges sorting table messages) :
    (messages.foldl (handleMessage sorting) table).defaults = table.defaults := by
  induction messages using List.reverseRecOn with
  | nil => rfl
  | append_singleton messages message inductionHypothesis =>
    have earlier : ¬SomeMessageChanges sorting table messages := by
      rintro ⟨before, changing, later, rfl, changes⟩
      exact unchanged ⟨before, changing, later ++ [message], by simp, changes⟩
    have last := not_not.mp fun changes => unchanged ⟨messages, message, [], rfl, changes⟩
    rw [List.foldl_concat, last, inductionHypothesis earlier]

/-- A batch that changes no default leaves the name of the default interface as it is. -/
theorem nameAfter_eq {sorting : Sorting} {monitor : NetworkMonitor} {batch : Batch}
    (unchanged : ¬ChangesDefault sorting monitor batch) :
    nameAfter sorting monitor batch =
      monitor.routingTable.getDefaultIfName batch.ifIndextoname := by
  cases received : batch.received with
  | none => rw [nameAfter, received]; rfl
  | some messages =>
    obtain ⟨sameV4, sameV6⟩ := Prod.mk.inj
      (defaults_messages fun changes => unchanged ⟨messages, received, changes⟩)
    rw [nameAfter, received, Option.getD_some, getDefaultIfName, getDefaultIfName,
      getDefaultIfIndex, getDefaultIfIndex, sameV4, sameV6]

theorem routingTable_handleNetworkChange (cmdHandler : Bool) (monitor : NetworkMonitor)
    (newIfName : Bytes) (isSatisfied : Bool) :
    (monitor.handleNetworkChange cmdHandler newIfName isSatisfied).1.routingTable =
      monitor.routingTable := by
  unfold handleNetworkChange
  split
  · rfl
  · split
    · rfl
    · rfl

/-- The command handler is called if there is no default interface or another one than before. -/
theorem calls_handleNetworkChange (cmdHandler : Bool) (monitor : NetworkMonitor)
    (newIfName : Bytes) :
    (monitor.handleNetworkChange cmdHandler newIfName !newIfName.isEmpty).2 ≠ [] ↔
      cmdHandler = true ∧ (newIfName = [] ∨ monitor.ifName ≠ newIfName) := by
  have handled : ∀ call : HandlerCall,
      (if cmdHandler then [call] else []) ≠ [] ↔ cmdHandler = true := by
    intro call
    cases cmdHandler with
    | true => exact iff_of_true (List.cons_ne_nil _ _) rfl
    | false => exact iff_of_false (fun called => called rfl) Bool.false_ne_true
  unfold handleNetworkChange
  cases newIfName with
  | nil => exact (handled _).trans (and_iff_left (.inl rfl)).symm
  | cons first rest =>
    simp only [List.isEmpty_cons, Bool.not_false, Bool.not_true, Bool.false_eq_true, if_false]
    by_cases differs : monitor.ifName ≠ first :: rest
    · rw [if_pos differs]
      exact (handled _).trans (and_iff_left (.inr differs)).symm
    · rw [if_neg differs]
      refine iff_of_false (fun called => called rfl) fun both => ?_
      exact both.2.elim (List.cons_ne_nil _ _) differs

variable (sorting : Sorting) (cmdHandler : Bool) (monitor : NetworkMonitor)

theorem hasAddress_iff {batch : Batch} {messages : List MonitorMessage}
    (received : batch.received = some messages) :
    batch.HasAddress ↔ messages.any MonitorMessage.isAddress = true := by
  rw [Batch.HasAddress, received, List.any_eq_true]
  exact ⟨fun ⟨_, same, found⟩ => Option.some.inj same ▸ found, fun found => ⟨_, rfl, found⟩⟩

theorem flag_messages_iff {batch : Batch} {messages : List MonitorMessage}
    (received : batch.received = some messages) :
    (messages.foldl (handleMessage sorting) monitor.routingTable).defaultChanged = true ↔
      monitor.routingTable.defaultChanged = true ∨ ChangesDefault sorting monitor batch := by
  rw [flag_messages, ChangesDefault, received]
  exact or_congr_right ⟨fun changes => ⟨_, rfl, changes⟩,
    fun ⟨_, same, changes⟩ => Option.some.inj same ▸ changes⟩

/-- With a message about an address, the flag stays as the messages leave it. -/
theorem changedHandler_address {batch : Batch} {messages : List MonitorMessage}
    (received : batch.received = some messages)
    (address : messages.any MonitorMessage.isAddress = true) :
    changedHandler sorting true cmdHandler monitor batch =
      handleNetworkChange cmdHandler
        { monitor with
          routingTable := messages.foldl (handleMessage sorting) monitor.routingTable }
        (nameAfter sorting monitor batch) !(nameAfter sorting monitor batch).isEmpty := by
  rw [changedHandler, nameAfter, received]
  simp only [handleMessages_available, address, if_true, Option.getD_some]

/-- Without one, the flag is asked for and reset. -/
theorem changedHandler_noAddress {batch : Batch} {messages : List MonitorMessage}
    (received : batch.received = some messages)
    (noAddress : messages.any MonitorMessage.isAddress = false) :
    changedHandler sorting true cmdHandler monitor batch =
      let folded := messages.foldl (handleMessage sorting) monitor.routingTable
      let reset : NetworkMonitor :=
        { monitor with routingTable := { folded with defaultChanged := false } }
      if folded.defaultChanged then
        reset.handleNetworkChange cmdHandler (nameAfter sorting monitor batch)
          !(nameAfter sorting monitor batch).isEmpty
      else (reset, []) := by
  rw [changedHandler, nameAfter, received]
  simp only [handleMessages_available, noAddress, if_true, Bool.false_eq_true, if_false,
    Option.getD_some, hasDefaultChangedAndReset]
  rfl

theorem flag_changedHandler (batch : Batch) :
    (changedHandler sorting true cmdHandler monitor batch).1.routingTable.defaultChanged = true ↔
      (batch.HasAddress ∧ ChangesDefault sorting monitor batch) ∨
        monitor.routingTable.defaultChanged = true ∧
          (batch.received = none ∨ batch.HasAddress) := by
  cases received : batch.received with
  | none =>
    have noAddress : ¬batch.HasAddress := by
      rintro ⟨_, some, -⟩
      exact absurd (received.symm.trans some) (Option.some_ne_none _).symm
    rw [changedHandler, received, or_iff_right fun both => noAddress both.1]
    exact (and_iff_left (.inl rfl)).symm
  | some messages =>
    rw [or_iff_right (Option.some_ne_none messages), hasAddress_iff received]
    cases address : messages.any MonitorMessage.isAddress with
    | true =>
      rw [changedHandler_address sorting cmdHandler monitor received address,
        routingTable_handleNetworkChange]
      simp only [flag_messages_iff sorting monitor received, true_and, and_true]
      exact or_comm
    | false =>
      have reset : (changedHandler sorting true cmdHandler monitor
          batch).1.routingTable.defaultChanged = false := by
        rw [changedHandler_noAddress sorting cmdHandler monitor received address]
        dsimp only
        split
        · rw [routingTable_handleNetworkChange]
        · rfl
      rw [reset]
      simp only [Bool.false_eq_true, false_and, and_false, or_self]

/-- The command handler is called exactly if the batch has a message about an address or the flag
is set after its messages, and there is something to announce. -/
theorem calls_changedHandler (batch : Batch) :
    (changedHandler sorting true cmdHandler monitor batch).2 ≠ [] ↔
      (batch.HasAddress ∨ ChangesDefault sorting monitor batch ∨
        batch.received ≠ none ∧ monitor.routingTable.defaultChanged = true) ∧
      cmdHandler = true ∧
        (nameAfter sorting monitor batch = [] ∨
          monitor.ifName ≠ nameAfter sorting monitor batch) := by
  cases received : batch.received with
  | none =>
    have nothing : ∀ messages, batch.received ≠ some messages := fun messages some =>
      absurd (received.symm.trans some) (Option.some_ne_none _).symm
    rw [changedHandler, received]
    refine iff_of_false (fun called => called rfl) ?_
    rintro ⟨⟨messages, same, -⟩ | ⟨messages, same, -⟩ | ⟨absent, -⟩, -⟩
    · exact nothing messages same
    · exact nothing messages same
    · exact absent rfl
  | some messages =>
    rw [hasAddress_iff received, and_iff_right (Option.some_ne_none messages)]
    cases address : messages.any MonitorMessage.isAddress with
    | true =>
      rw [changedHandler_address sorting cmdHandler monitor received address,
        calls_handleNetworkChange]
      exact (and_iff_right (.inl rfl)).symm
    | false =>
      rw [changedHandler_noAddress sorting cmdHandler monitor received address,
        or_iff_right Bool.false_ne_true, or_comm, ← flag_messages_iff sorting monitor received]
      dsimp only
      by_cases set : (messages.foldl (handleMessage sorting)
          monitor.routingTable).defaultChanged = true
      · rw [if_pos set, calls_handleNetworkChange]
        exact (and_iff_right set).symm
      · rw [if_neg set]
        exact iff_of_false (fun called => called rfl) fun both => set both.1

/-! ### Sequences of batches -/

/-- Whenever the command handler is called while a batch is processed, the batch has a message
about an address or one that changed the stored defaults. -/
def NoStaleCalls (batches : List Batch) : Prop :=
  ∀ before batch later, batches = before ++ batch :: later →
    (changedHandler sorting true cmdHandler (afterBatches sorting cmdHandler monitor before)
      batch).2 ≠ [] →
    batch.HasAddress ∨
      ChangesDefault sorting (afterBatches sorting cmdHandler monitor before) batch

/-- The batches leave the flag set: one of them changed the stored defaults and had a message about
an address, and so had every later one that could be received. -/
def Latched (batches : List Batch) : Prop :=
  ∃ before latching later, batches = before ++ latching :: later ∧
    (latching.HasAddress ∧
      ChangesDefault sorting (afterBatches sorting cmdHandler monitor before) latching) ∧
    ∀ batch ∈ later, batch.received = none ∨ batch.HasAddress

theorem flag_afterBatches (quiet : monitor.routingTable.defaultChanged = false)
    (batches : List Batch) :
    (afterBatches sorting cmdHandler monitor batches).routingTable.defaultChanged = true ↔
      Latched sorting cmdHandler monitor batches := by
  refine (foldl_flag_iff (fun monitor => monitor.routingTable.defaultChanged = true) _ _
    (flag_changedHandler sorting cmdHandler) monitor batches).trans ?_
  rw [quiet]
  exact or_iff_right fun set => absurd set.1 Bool.false_ne_true

/-- The command handler is called only for a reason in the batch exactly if no batch without such a
reason comes when the flag is still latched and the default interface has no name or a new one. -/
theorem noStaleCalls_iff (table : RoutingTable) (batches : List Batch) :
    NoStaleCalls sorting cmdHandler (initRoutingTable table) batches ↔
      ¬∃ before batch later, batches = before ++ batch :: later ∧
        Latched sorting cmdHandler (initRoutingTable table) before ∧
        batch.received ≠ none ∧ ¬batch.HasAddress ∧
        ¬ChangesDefault sorting (afterBatches sorting cmdHandler (initRoutingTable table) before)
          batch ∧
        cmdHandler = true ∧
        Announces (afterBatches sorting cmdHandler (initRoutingTable table) before) batch := by
  have flag := flag_afterBatches sorting cmdHandler (initRoutingTable table) rfl
  constructor
  · rintro fresh ⟨before, batch, later, split, latched, received, noAddress, unchanged, announced⟩
    have called := (calls_changedHandler sorting cmdHandler _ batch).mpr
      ⟨.inr (.inr ⟨received, (flag before).mpr latched⟩), by
        rw [nameAfter_eq unchanged]
        exact announced⟩
    exact (fresh before batch later split called).elim noAddress unchanged
  · intro noStale before batch later split called
    obtain ⟨reason, announced⟩ := (calls_changedHandler sorting cmdHandler _ batch).mp called
    rcases reason with address | changes | ⟨received, latched⟩
    · exact .inl address
    · exact .inr changes
    · by_contra neither
      rw [not_or] at neither
      rw [nameAfter_eq neither.2] at announced
      exact noStale ⟨before, batch, later, split, (flag before).mp latched, received,
        neither.1, neither.2, announced⟩

/-- The monitor over a table with one default route of IPv4. -/
def oneDefault : NetworkMonitor :=
  initRoutingTable (reloadFrom insertionSorting (fun _ => false) {} [defaultRoute 100]).2

/-- The default route and an address are deleted. -/
def latchingBatch : Batch where
  received := some [.delAddr, .delRoute (fun _ => false) (routeMessage (defaultRoute 100))]
  ifIndextoname _ := none
  shownDefault := []

/-- A message of another kind. -/
def irrelevantBatch : Batch where
  received := some [.other]
  ifIndextoname _ := none
  shownDefault := []

/-- The command handler hears of the lost network again when the second batch comes. -/
theorem irrelevantBatch_announced :
    (changedHandler insertionSorting true true
      (afterBatches insertionSorting true oneDefault [latchingBatch]) irrelevantBatch).2 =
        [([], false)] ∧
      ¬NoStaleCalls insertionSorting true oneDefault [latchingBatch, irrelevantBatch] := by
  have called : (changedHandler insertionSorting true true
      (afterBatches insertionSorting true oneDefault [latchingBatch]) irrelevantBatch).2 =
        [([], false)] := by decide
  refine ⟨called, fun fresh => ?_⟩
  have notEmpty : _ ≠ [] := called.trans_ne (List.cons_ne_nil _ _)
  rcases fresh [latchingBatch] irrelevantBatch [] rfl notEmpty with
    ⟨messages, received, message, member, address⟩ | ⟨messages, received, changes⟩
  · obtain rfl := Option.some.inj received
    obtain rfl := List.mem_singleton.mp member
    exact absurd address Bool.false_ne_true
  · obtain rfl := Option.some.inj received
    obtain ⟨before, message, later, split, changes⟩ := changes
    cases before with
    | nil =>
      obtain ⟨rfl, rfl⟩ := List.cons.inj split
      exact changes rfl
    | cons first rest =>
      have impossible := (List.cons.inj split).2.symm
      exact absurd impossible (List.append_ne_nil_of_right_ne_nil _ (List.cons_ne_nil _ _))

end NativeLibs.Routing
