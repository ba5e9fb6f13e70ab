/-
This file proves two results on the end of an HTTP/3 connection.

A server that is told by ngtcp2 to drop a connection is to send nothing more about
it. The flag for that is read by the destructor only, and `input` goes on to
handle the error as any other. So the packet that closes the connection is sent
all the same, unless something else prevents it.

The code with which one endpoint closes a connection is to reach the handler of
the other. An alert of TLS does, as both sides shift it by the same number. The
code of an application error is cut to its last byte by the side that receives it.
-/

import NativeLibs.Http3.Connection
import NativeLibs.Library.Runs

namespace NativeLibs.Http3

open Http Library

variable {endpoint : Endpoint}

/-! ### The packets of each function -/

@[simp]
theorem packets_nil : packets ([] : List (Effect endpoint)) = [] := rfl

theorem packets_append (first second : List (Effect endpoint)) :
    packets (first ++ second) = packets first ++ packets second :=
  List.filterMap_append

theorem packets_output (handler : Handler) (packet : Packet) :
    packets (raise handler (.output packet) : List (Effect endpoint)) =
      if handler.onOutput then [packet] else [] := by
  rw [raise, Handler.handles]
  cases handler.onOutput with
  | true => rfl
  | false => rfl

theorem packets_cancelStreams (handler : Handler) (session : Session endpoint) :
    packets (cancelStreams handler session) = [] := by
  refine List.filterMap_eq_nil_iff.mpr fun effect member => ?_
  obtain ⟨streamId, -, raised⟩ := List.mem_flatMap.mp member
  rw [cancelStream, closeStream, raise] at raised
  split at raised
  · rw [List.mem_singleton.mp raised]
  · cases raised

theorem packets_handleRxConnectionClose (handler : Handler) (error : Ccerr) :
    packets (handleRxConnectionClose handler error : List (Effect endpoint)) = [] := by
  rw [handleRxConnectionClose, raise]
  split
  · rfl
  · rfl

/-- What keeps `handle_error` from sending a packet. -/
theorem packets_handleError_eq_nil_iff (handler : Handler) (connection : Connection endpoint)
    (closeStatus : ℤ) :
    packets (handleError handler connection closeStatus).2 = [] ↔
      connection.connectionCloseSent = true ∨ connection.lastError.type = .idleClose ∨
        closeStatus < 0 ∨ handler.onOutput = false := by
  rw [handleError]
  by_cases idle : connection.lastError.type = .idleClose
  · rw [if_pos idle]
    exact iff_of_true rfl (.inr (.inl idle))
  · rw [if_neg idle, closeConnection]
    cases sent : connection.connectionCloseSent with
    | true => exact iff_of_true rfl (.inl rfl)
    | false =>
      by_cases fails : closeStatus < 0
      · rw [if_neg Bool.false_ne_true, if_pos fails]
        exact iff_of_true rfl (.inr (.inr (.inl fails)))
      · rw [if_neg Bool.false_ne_true, if_neg fails, packets_output]
        cases handler.onOutput with
        | true => simp [idle, not_lt.mp fails]
        | false => exact iff_of_true rfl (.inr (.inr (.inr rfl)))

theorem dropSilently_handleError (handler : Handler) (connection : Connection endpoint)
    (closeStatus : ℤ) :
    (handleError handler connection closeStatus).1.dropSilently = connection.dropSilently := by
  rw [handleError]
  split
  · rfl
  · rw [closeConnection]
    split
    · rfl
    · split
      · rfl
      · rfl

/-! ### Dropping a connection -/

/-- The statuses with which `input` of a server fails. -/
def Status.fails : Status → Bool
  | .dropConn | .crypto | .other _ => true
  | .noError | .draining | .retry => false

/-- The connection was idle for too long, by the error that was remembered before a call of `input`
or that a callback has set during it. Where that is none, it is by the error ngtcp2 gives for the
status, and an alert says no such thing. -/
def IdleClosed (libraries : Libraries) (connection : Connection .server)
    (reading : Reading .server) : Prop :=
  let remembered := reading.progress.lastError.getD connection.lastError
  match reading.status with
  | .crypto => remembered.errorCode ≠ 0 ∧ remembered.type = .idleClose
  | .other code =>
    if remembered.errorCode = 0 then (libraries.liberr (.other code) []).type = .idleClose
    else remembered.type = .idleClose
  | _ => remembered.type = .idleClose

/-- A call of `input` that fails and is told to drop the connection, or comes after one that was, is
kept from sending the packet that closes it: the packet was sent before, the connection was idle for
too long, the packet cannot be written, or there is no callback for it. -/
def Muffled (libraries : Libraries) (handler : Handler) (connection : Connection .server)
    (reading : Reading .server) : Prop :=
  reading.status.fails = true → (reading.status = .dropConn ∨ connection.dropSilently = true) →
    connection.connectionCloseSent = true ∨ IdleClosed libraries connection reading ∨
      reading.closeStatus < 0 ∨ handler.onOutput = false

theorem fails_eq_false_of_none {libraries : Libraries} {connection : Connection .server}
    {reading : Reading .server} (failure : serverFailure libraries connection reading = none) :
    reading.status.fails = false := by
  unfold serverFailure at failure
  cases status : reading.status with
  | dropConn | crypto | other code =>
    rw [status] at failure
    cases failure
  | noError | draining | retry => rfl

theorem noteError_eq (connection : Connection endpoint) (error : Ccerr) :
    connection.noteError error = { connection with
      lastError :=
        if connection.lastError.errorCode = 0 then error else connection.lastError } := by
  rw [Connection.noteError]
  split
  · rfl
  · rfl

/-- What a failure leaves to `handle_error`, by what there was before the call. -/
theorem serverFailure_eq_some {libraries : Libraries} {connection failed : Connection .server}
    {reading : Reading .server}
    (failure : serverFailure libraries (connection.after reading.progress) reading =
      some failed) :
    reading.status.fails = true ∧ failed.connectionCloseSent = connection.connectionCloseSent ∧
      (failed.dropSilently = true ↔
        reading.status = .dropConn ∨ connection.dropSilently = true) ∧
      (failed.lastError.type = .idleClose ↔ IdleClosed libraries connection reading) := by
  unfold serverFailure at failure
  unfold IdleClosed
  cases status : reading.status with
  | dropConn =>
    simp only [status, Option.some.injEq] at failure
    subst failure
    exact ⟨rfl, rfl, iff_of_true rfl (.inl rfl), Iff.rfl⟩
  | crypto =>
    simp only [status, Option.some.injEq, noteError_eq] at failure
    subst failure
    refine ⟨rfl, rfl, (or_iff_right Status.noConfusion).symm, ?_⟩
    by_cases none : (reading.progress.lastError.getD connection.lastError).errorCode = 0
    · simp [Connection.after, none, Ccerr.tlsAlert]
    · simp [Connection.after, none]
  | other code =>
    simp only [status, Option.some.injEq, noteError_eq] at failure
    subst failure
    refine ⟨rfl, rfl, (or_iff_right Status.noConfusion).symm, ?_⟩
    by_cases none : (reading.progress.lastError.getD connection.lastError).errorCode = 0
    · simp [Connection.after, none]
    · simp [Connection.after, none]
  | noError | draining | retry =>
    rw [status] at failure
    cases failure

/-- A call of `input` is muffled. Nothing is asked of the other calls. -/
def MuffledCall (libraries : Libraries) (handler : Handler) (world : World .server) :
    Call .server → Prop
  | .input reading => Muffled libraries handler world.connection reading
  | _ => True

/-- What a call of `input` adds to the packets that are kept apart. -/
theorem afterDrop_serverInput (libraries : Libraries) (handler : Handler)
    (connection : Connection .server) (reading : Reading .server) :
    let outcome := serverInput libraries handler connection reading
    afterDrop outcome.2.1.dropSilently outcome.1.failed outcome.2.2 = [] ↔
      Muffled libraries handler connection reading := by
  intro outcome
  rw [Muffled]
  cases failure : serverFailure libraries (connection.after reading.progress) reading with
  | none =>
    have succeeded : outcome.1.failed = false := by
      simp only [outcome, serverInput, failure]
      split
      · rw [drain]
        split
        · rfl
        · rfl
      · rfl
      · rfl
    rw [afterDrop, succeeded, Bool.and_false, fails_eq_false_of_none failure]
    exact iff_of_true rfl fun impossible => absurd impossible Bool.false_ne_true
  | some failed =>
    have performed : outcome =
        (.error reading.status, handleError handler failed reading.closeStatus) := by
      simp only [outcome, serverInput, failure]
    obtain ⟨fails, sent, drops, idle⟩ := serverFailure_eq_some failure
    simp only [performed, afterDrop, InputResult.failed, Bool.and_true, dropSilently_handleError]
    rw [forall_prop_of_true fails, ← drops, ← idle, ← sent]
    cases failed.dropSilently with
    | true => rw [if_pos rfl, packets_handleError_eq_nil_iff, forall_prop_of_true rfl]
    | false => exact iff_of_true rfl fun impossible => absurd impossible Bool.false_ne_true

/-- For every run of a server, whatever ngtcp2 returns and its callbacks do: once ngtcp2 has dropped
the connection, no packet is sent by that call of `input`, by a later one that fails or by the
destructor, if and only if each such call is muffled. -/
theorem dropSilently_iff (libraries : Libraries) (handler : Handler) (session : Session .server)
    (calls : List (Call .server)) (world : World .server)
    (reached : run (worldStep libraries handler) { connection := { session } } calls =
      some world) :
    world.sentAfterDrop = [] ↔
      Along (worldStep libraries handler) (MuffledCall libraries handler)
        { connection := { session } } calls := by
  have grows : ∀ (state : World .server) call next,
      worldStep libraries handler state call = some next →
      ∃ added, next.sentAfterDrop = state.sentAfterDrop ++ added ∧
        (added = [] ↔ MuffledCall libraries handler state call) := by
    intro state call next stepped
    unfold worldStep at stepped
    split at stepped
    · cases stepped
    · cases call with
      | input reading =>
        cases stepped
        exact ⟨_, rfl, afterDrop_serverInput libraries handler state.connection reading⟩
      | flush writing | setSessionCloseError errorCode reason =>
        cases stepped
        exact ⟨[], (List.append_nil _).symm, iff_of_true rfl trivial⟩
      | destroy closeStatus =>
        cases stepped
        refine ⟨_, rfl, iff_of_true ?_ trivial⟩
        rw [afterDrop, Bool.and_true]
        cases dropped : state.connection.dropSilently with
        | true =>
          rw [if_pos rfl, destroy, if_pos ⟨rfl, dropped⟩, List.append_nil, packets_cancelStreams]
        | false => rfl
  rw [run_log_eq_nil_iff grows reached]
  exact and_iff_right rfl

/-- Libraries that say little. -/
def terseLibraries : Libraries where
  liberr _ reason := ⟨.transport, 1, reason⟩
  strerror _ := []
  alertDescString _ := []

/-- A session without streams. -/
def noStreams : Session endpoint := ⟨∅⟩

/-- A connection that was closed before it is dropped. -/
theorem dropSilently_iff_closed :
    ∃ world : World .server,
      run (worldStep terseLibraries everyCallback) { connection := { session := noStreams } }
        [.flush { progress := { session := noStreams }, ending := .ngtcp2Failed .crypto },
          .input { status := .dropConn, progress := { session := noStreams } }, .destroy 0] =
        some world ∧
      world.sentAfterDrop = [] := by
  obtain ⟨world, reached⟩ : ∃ world : World .server,
      run (worldStep terseLibraries everyCallback) { connection := { session := noStreams } }
        [.flush { progress := { session := noStreams }, ending := .ngtcp2Failed .crypto },
          .input { status := .dropConn, progress := { session := noStreams } }, .destroy 0] =
        some world := ⟨_, rfl⟩
  refine ⟨world, reached, (dropSilently_iff _ _ _ _ world reached).mpr ?_⟩
  exact .cons rfl trivial (.cons rfl (fun _ _ => .inl rfl) (.cons rfl trivial trivial))

/-- A server that is told to drop its first packet closes the connection with a packet. -/
theorem dropped_answered :
    ∃ world : World .server,
      run (worldStep terseLibraries everyCallback) { connection := { session := noStreams } }
        [.input { status := .dropConn, progress := { session := noStreams } }] = some world ∧
      world.sentAfterDrop = [.connectionClose .default] :=
  ⟨_, rfl, rfl⟩

/-! ### Closing with a code -/

/-- No packet closes the connection with another error. -/
def ClosesWith (error : Ccerr) (effects : List (Effect endpoint)) : Prop :=
  ∀ other, Packet.connectionClose other ∈ packets effects → other = error

namespace ClosesWith

variable {error : Ccerr}

theorem of_packets_eq_nil {effects : List (Effect endpoint)} (nothing : packets effects = []) :
    ClosesWith error effects :=
  fun _ member => absurd (nothing ▸ member) List.not_mem_nil

theorem append {first second : List (Effect endpoint)} (before : ClosesWith error first)
    (after : ClosesWith error second) : ClosesWith error (first ++ second) := by
  intro other member
  rw [packets_append] at member
  exact (List.mem_append.mp member).elim (before other) (after other)

theorem data (handler : Handler) (chunks : List Bytes) :
    ClosesWith error (chunks.flatMap fun chunk => raise handler (.output (.data chunk)) :
      List (Effect endpoint)) := by
  induction chunks with
  | nil => exact of_packets_eq_nil rfl
  | cons chunk rest inductionHypothesis =>
    refine append (fun other member => ?_) inductionHypothesis
    rw [packets_output] at member
    split at member
    · exact nomatch List.mem_singleton.mp member
    · cases member

end ClosesWith

/-- The error that is remembered, and the only one with which the connection is closed. -/
structure KeepsError (error : Ccerr) (connection : Connection endpoint)
    (effects : List (Effect endpoint)) : Prop where
  lastError : connection.lastError = error
  closes : ClosesWith error effects

theorem keepsError_nil (connection : Connection endpoint) :
    KeepsError connection.lastError connection [] :=
  ⟨rfl, .of_packets_eq_nil rfl⟩

theorem keepsError_closeConnection (handler : Handler) (connection : Connection endpoint)
    (status : ℤ) :
    KeepsError connection.lastError (closeConnection handler connection status).1
      (closeConnection handler connection status).2 := by
  rw [closeConnection]
  split
  · exact keepsError_nil connection
  · split
    · exact keepsError_nil connection
    · refine ⟨rfl, fun other member => ?_⟩
      rw [packets_output] at member
      split at member
      · exact Packet.connectionClose.inj (List.mem_singleton.mp member)
      · cases member

theorem keepsError_handleError (handler : Handler) (connection : Connection endpoint)
    (closeStatus : ℤ) :
    KeepsError connection.lastError (handleError handler connection closeStatus).1
      (handleError handler connection closeStatus).2 := by
  rw [handleError]
  split
  · exact keepsError_nil connection
  · exact keepsError_closeConnection handler connection closeStatus

theorem keepsError_drain (handler : Handler) (connection : Connection endpoint)
    (peerError : Ccerr) :
    KeepsError connection.lastError (drain handler connection peerError).2.1
      (drain handler connection peerError).2.2 := by
  rw [drain]
  split
  · exact keepsError_nil connection
  · exact ⟨rfl, .of_packets_eq_nil (packets_handleRxConnectionClose handler peerError)⟩

theorem noteError_of_ne {connection : Connection endpoint}
    (remembered : connection.lastError.errorCode ≠ 0) (error : Ccerr) :
    connection.noteError error = connection := by
  rw [Connection.noteError, if_neg remembered]

theorem lastError_serverFailure {libraries : Libraries} {connection failed : Connection .server}
    {reading : Reading .server} (remembered : connection.lastError.errorCode ≠ 0)
    (failure : serverFailure libraries connection reading = some failed) :
    failed.lastError = connection.lastError := by
  rw [serverFailure] at failure
  split at failure
  · cases failure
    rfl
  · cases failure
    rw [noteError_of_ne remembered]
  · cases failure
    rw [noteError_of_ne remembered]
  · cases failure
  · cases failure
  · cases failure

theorem keepsError_serverInput (libraries : Libraries) (handler : Handler)
    {connection : Connection .server} {reading : Reading .server}
    (remembered : (connection.after reading.progress).lastError.errorCode ≠ 0) :
    KeepsError (connection.after reading.progress).lastError
      (serverInput libraries handler connection reading).2.1
      (serverInput libraries handler connection reading).2.2 := by
  cases failure : serverFailure libraries (connection.after reading.progress) reading with
  | some failed =>
    simp only [serverInput, failure]
    exact lastError_serverFailure remembered failure ▸
      keepsError_handleError handler failed reading.closeStatus
  | none =>
    simp only [serverInput, failure]
    split
    · exact keepsError_drain handler _ _
    · exact keepsError_nil _
    · exact keepsError_nil _

theorem keepsError_clientInput (libraries : Libraries) (handler : Handler)
    {connection : Connection .client} {reading : Reading .client}
    (remembered : (connection.after reading.progress).lastError.errorCode ≠ 0) :
    KeepsError (connection.after reading.progress).lastError
      (clientInput libraries handler connection reading).2.1
      (clientInput libraries handler connection reading).2.2 := by
  simp only [clientInput, noteError_of_ne remembered]
  split
  · exact keepsError_nil _
  · exact keepsError_drain handler _ _
  · exact keepsError_handleError handler _ _
  · exact keepsError_nil _

theorem keepsError_input (libraries : Libraries) (handler : Handler)
    {connection : Connection endpoint} {reading : Reading endpoint}
    (remembered : (connection.after reading.progress).lastError.errorCode ≠ 0) :
    KeepsError (connection.after reading.progress).lastError
      (input libraries handler connection reading).2.1
      (input libraries handler connection reading).2.2 := by
  cases endpoint with
  | server => exact keepsError_serverInput libraries handler remembered
  | client => exact keepsError_clientInput libraries handler remembered

/-- A flush that does not fail closes the connection with the error that is remembered. -/
theorem keepsError_flushImpl (libraries : Libraries) (handler : Handler)
    {connection : Connection endpoint} {writing : Writing endpoint}
    (drained : writing.ending = .drained) :
    KeepsError (connection.after writing.progress).lastError
      (flushImpl libraries handler connection writing).2.1
      (flushImpl libraries handler connection writing).2.2 := by
  simp only [flushImpl, drained, FlushEnd.error?, Option.getD_none]
  split
  · obtain ⟨lastError, closes⟩ :=
      keepsError_handleError handler (connection.after writing.progress) writing.closeStatus
    exact ⟨lastError, .append (.data handler writing.packets) closes⟩
  · exact ⟨rfl, .data handler writing.packets⟩

theorem closesWith_destroy (handler : Handler) (connection : Connection endpoint)
    (closeStatus : ℤ) :
    ClosesWith connection.lastError (destroy handler connection closeStatus) := by
  refine .append (.of_packets_eq_nil (packets_cancelStreams handler connection.session)) ?_
  split
  · exact .of_packets_eq_nil rfl
  · refine .append ?_ (keepsError_closeConnection handler connection closeStatus).closes
    split
    · exact .of_packets_eq_nil rfl
    · exact .of_packets_eq_nil rfl

/-- No other error comes in between: no callback of the libraries sets one, no flush fails, and the
application does not set another one. -/
def Call.Quiet : Call endpoint → Prop
  | .input reading => reading.progress.lastError = none
  | .flush writing => writing.progress.lastError = none ∧ writing.ending = .drained
  | .setSessionCloseError _ _ => False
  | .destroy _ => True

theorem lastError_after {connection : Connection endpoint} {progress : Progress endpoint}
    (quiet : progress.lastError = none) :
    (connection.after progress).lastError = connection.lastError := by
  rw [Connection.after, quiet, Option.getD_none]

/-- A connection with an error closes with this error. -/
structure World.Fails (error : Ccerr) (world : World endpoint) : Prop where
  lastError : world.connection.lastError = error
  sent : ∀ other, Packet.connectionClose other ∈ world.sent → other = error

/-- A call that is quiet keeps the error. -/
theorem World.Fails.step {libraries : Libraries} {handler : Handler} {error : Ccerr}
    (nonzero : error.errorCode ≠ 0) {world next : World endpoint} {call : Call endpoint}
    (fails : world.Fails error) (quiet : call.Quiet)
    (stepped : worldStep libraries handler world call = some next) : next.Fails error := by
  have adds : ∀ {effects : List (Effect endpoint)}, ClosesWith error effects →
      ∀ other, Packet.connectionClose other ∈ world.sent ++ packets effects → other = error :=
    fun closes other member => (List.mem_append.mp member).elim (fails.sent other) (closes other)
  obtain ⟨lastError, sent⟩ := fails
  unfold worldStep at stepped
  split at stepped
  · cases stepped
  · cases call with
    | input reading =>
      cases stepped
      have same := (lastError_after quiet).trans lastError
      obtain ⟨kept, closes⟩ := same ▸ keepsError_input libraries handler (same.symm ▸ nonzero)
      exact ⟨kept, adds closes⟩
    | flush writing =>
      cases stepped
      have same := (lastError_after quiet.1).trans lastError
      obtain ⟨kept, closes⟩ := same ▸ keepsError_flushImpl libraries handler quiet.2
      exact ⟨kept, adds closes⟩
    | setSessionCloseError errorCode reason => exact quiet.elim
    | destroy closeStatus =>
      cases stepped
      exact ⟨lastError, adds (lastError ▸ closesWith_destroy handler world.connection closeStatus)⟩

/-! ### The code at the other end -/

theorem toNat_tlsAlert (alert : UInt8) (reason : Bytes) :
    (Ccerr.tlsAlert alert reason).errorCode.toNat = 256 + alert.toNat := by
  show (0x100 + alert.toUInt64).toNat = _
  have small := alert.toNat_lt
  rw [UInt64.toNat_add, UInt8.toNat_toUInt64]
  show (256 + alert.toNat) % 2 ^ 64 = _
  omega

theorem toNat_lastByte (errorCode : UInt64) :
    (errorCode &&& 0xff).toNat = errorCode.toNat % 256 := by
  rw [UInt64.toNat_and]
  exact Nat.and_two_pow_sub_one_eq_mod _ 8

theorem toNat_closeCode_tlsAlert (alert : UInt8) (reason : Bytes) :
    (closeCode (.tlsAlert alert reason)).toNat = 1000 + alert.toNat := by
  show (1000 + ((Ccerr.tlsAlert alert reason).errorCode &&& 0xff)).toNat = _
  have small := alert.toNat_lt
  rw [UInt64.toNat_add, toNat_lastByte, toNat_tlsAlert]
  show (1000 + (256 + alert.toNat) % 256) % 2 ^ 64 = _
  omega

/-- The error that is remembered for a code, and what the other end makes of it. -/
theorem lastError_setSessionCloseError (libraries : Libraries) (connection : Connection endpoint)
    {code : ℤ} (above : 256 < code) (below : code ≤ 1255) (reason : Bytes) :
    (setSessionCloseError libraries connection code reason).lastError.errorCode ≠ 0 ∧
      (closeCode (setSessionCloseError libraries connection code reason).lastError =
        UInt64.ofNat code.toNat ↔ 1000 < code) := by
  have word : (UInt64.ofNat code.toNat).toNat = code.toNat := by
    rw [UInt64.toNat_ofNat']
    omega
  have zero : (0 : UInt64).toNat = 0 := rfl
  rw [ne_eq, ← UInt64.toNat_inj, ← UInt64.toNat_inj, word, zero, setSessionCloseError]
  split
  next alert =>
    have alert : 1000 < code := alert
    have byte : (UInt8.ofNat (code - sslAlertCodesStart).toNat).toNat = code.toNat - 1000 := by
      rw [UInt8.toNat_ofNat']
      show (code - 1000).toNat % 2 ^ 8 = _
      omega
    rw [toNat_closeCode_tlsAlert, toNat_tlsAlert, byte]
    omega
  next noAlert =>
    have noAlert : ¬1000 < code := noAlert
    rw [if_pos (show h3NoError < code from above)]
    show ¬(UInt64.ofNat code.toNat).toNat = 0 ∧
      ((UInt64.ofNat code.toNat &&& 0xff).toNat = code.toNat ↔ _)
    rw [toNat_lastByte, word]
    omega

/-- A connection that is drained is reported with the code of the other end. -/
theorem effects_input_draining (libraries : Libraries) (handler : Handler)
    {connection : Connection endpoint} (unhandled : connection.handledRxConnectionClose = false)
    {reading : Reading endpoint} (draining : reading.status = .draining) :
    (input libraries handler connection reading).2.2 =
      handleRxConnectionClose handler reading.peerError := by
  have drained : (drain handler (connection.after reading.progress) reading.peerError).2.2 =
      handleRxConnectionClose handler reading.peerError := by
    rw [drain, if_neg]
    exact fun handled => Bool.false_ne_true (unhandled.symm.trans handled)
  cases endpoint with
  | server =>
    simp only [input, serverInput, serverFailure, draining]
    exact drained
  | client =>
    simp only [input, clientInput, draining]
    exact drained

/-- For every code from 257 to 1255 that one endpoint sets, every run of it in which no other error
comes in between, and every packet with which it closes the connection: the other endpoint, when it
drains its connection with the error of this packet, reports exactly the code if and only if the
code is that of an alert, above 1000. -/
theorem closeCode_arrives_iff {other : Endpoint} (libraries peerLibraries : Libraries)
    (handler peerHandler : Handler) (connection : Connection endpoint) (code : ℤ)
    (above : 256 < code) (below : code ≤ 1255) (reason : Bytes) (calls : List (Call endpoint))
    (quiet : ∀ call ∈ calls, call.Quiet) (world : World endpoint)
    (reached : run (worldStep libraries handler)
      { connection := setSessionCloseError libraries connection code reason } calls = some world)
    (error : Ccerr) (closed : Packet.connectionClose error ∈ world.sent)
    (peer : Connection other) (unhandled : peer.handledRxConnectionClose = false)
    (reported : peerHandler.onClose = true) (reading : Reading other)
    (draining : reading.status = .draining) (arrives : reading.peerError = error) :
    (input peerLibraries peerHandler peer reading).2.2 =
        [.raised (.close (UInt64.ofNat code.toNat))] ↔ 1000 < code := by
  obtain ⟨nonzero, decoded⟩ :=
    lastError_setSessionCloseError libraries connection above below reason
  have keeps : ∀ (state : World endpoint) call next,
      state.Fails (setSessionCloseError libraries connection code reason).lastError → call.Quiet →
      worldStep libraries handler state call = some next →
      next.Fails (setSessionCloseError libraries connection code reason).lastError :=
    fun _ _ _ fails quiet stepped => fails.step nonzero quiet stepped
  have fails := run_invariant_along keeps ⟨rfl, fun _ member => absurd member List.not_mem_nil⟩
    (.of_mem (fun call member _ => quiet call member) _) reached
  rw [effects_input_draining peerLibraries peerHandler unhandled draining, arrives,
    fails.sent error closed, handleRxConnectionClose, raise, Handler.handles, if_pos reported,
    List.singleton_inj, Effect.raised.injEq, Event.close.injEq]
  exact decoded

/-- A server closes its connection with an alert when it is destroyed. -/
theorem closeCode_arrives_iff_alert :
    (input terseLibraries everyCallback ({ session := noStreams } : Connection .client)
      { status := .draining, progress := { session := noStreams },
        peerError := .tlsAlert 42 [] }).2.2 = [.raised (.close 1042)] :=
  (closeCode_arrives_iff terseLibraries terseLibraries everyCallback everyCallback
    ({ session := noStreams } : Connection .server) 1042 (by decide) (by decide) [] [.destroy 0]
    (List.forall_mem_singleton.mpr trivial) _ rfl (.tlsAlert 42 []) List.mem_cons_self
    { session := noStreams } rfl rfl
    { status := .draining, progress := { session := noStreams }, peerError := .tlsAlert 42 [] }
    rfl rfl).mpr (by decide)

/-- The code 258 of an internal error arrives as 2. -/
theorem internalError_cut :
    ∃ world : World .server,
      run (worldStep terseLibraries everyCallback)
        { connection := setSessionCloseError terseLibraries { session := noStreams } 258 [] }
        [.destroy 0] = some world ∧
      world.sent = [.connectionClose (.applicationError 258 [])] ∧
      (input terseLibraries everyCallback ({ session := noStreams } : Connection .client)
        { status := .draining, progress := { session := noStreams },
          peerError := .applicationError 258 [] }).2.2 = [.raised (.close 2)] :=
  ⟨_, rfl, rfl, rfl⟩

end NativeLibs.Http3
