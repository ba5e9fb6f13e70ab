/-
This file embeds how an `Http3Session` ends: the error it remembers, the packet
with which it closes the connection, what it tells the handler when the peer has
closed it, and the functions that lead there, which are `input`, `flush` and the
destructor. ngtcp2, nghttp3 and the TLS library are not part of the repository.
What they return to a call is an argument of the call, and so is what their
callbacks left behind.

Sessions are as `accept` and `connect` return them, with both connections made.
-/

import NativeLibs.Http3.Callbacks

namespace NativeLibs.Http3

open Http

variable {endpoint : Endpoint}

/-! ### Errors of a connection -/

/-- The statuses of ngtcp2 that are told apart. -/
inductive Status where
  | noError
  | dropConn
  | draining
  | retry
  | crypto
  | other (code : ℤ)
  deriving DecidableEq

/-- Functions of the libraries: `ngtcp2_ccerr_set_liberr`, `ngtcp2_strerror` and
`SSL_alert_desc_string_long`. -/
structure Libraries where
  liberr : Status → Bytes → Ccerr
  strerror : Status → Bytes
  alertDescString : ℤ → Bytes

/-- `ngtcp2_ccerr_default`. -/
def Ccerr.default : Ccerr := ⟨.transport, 0, []⟩

/-- `ngtcp2_ccerr_set_tls_alert`. -/
def Ccerr.tlsAlert (alert : UInt8) (reason : Bytes) : Ccerr :=
  ⟨.transport, 0x100 + alert.toUInt64, reason⟩

/-- `ngtcp2_ccerr_set_application_error`. -/
def Ccerr.applicationError (errorCode : UInt64) (reason : Bytes) : Ccerr :=
  ⟨.application, errorCode, reason⟩

/-- `Http3Session` without what it keeps of the libraries. `m_drop_silently` is a field of
`Http3Server`. -/
structure Connection (endpoint : Endpoint) where
  session : Session endpoint
  lastError : Ccerr := .default
  handshakeCompleted : Bool := false
  handledRxConnectionClose : Bool := false
  connectionCloseSent : Bool := false
  dropSilently : Bool := false

/-- `SSL_ALERT_CODES_START`. -/
def sslAlertCodesStart : ℕ := 1000

/-- `NGHTTP3_H3_NO_ERROR`. -/
def h3NoError : ℤ := 0x0100

/-- `set_session_close_error`, which has one body in `Http3Server` and `Http3Client`. -/
def setSessionCloseError (libraries : Libraries) (connection : Connection endpoint)
    (errorCode : ℤ) (reason : Bytes) : Connection endpoint :=
  if sslAlertCodesStart < errorCode then
    let alertCode := errorCode - sslAlertCodesStart
    { connection with
      lastError := .tlsAlert (UInt8.ofNat alertCode.toNat) (libraries.alertDescString alertCode) }
  else if h3NoError < errorCode then
    { connection with lastError := .applicationError (UInt64.ofNat errorCode.toNat) reason }
  else connection

/-- An error is remembered if there is none yet. -/
def Connection.noteError (connection : Connection endpoint) (error : Ccerr) :
    Connection endpoint :=
  if connection.lastError.errorCode = 0 then { connection with lastError := error } else connection

/-! ### Closing the connection -/

/-- `Http3Session::close_connection`, with what `ngtcp2_conn_write_connection_close` returns. -/
def closeConnection (handler : Handler) (connection : Connection endpoint) (status : ℤ) :
    Connection endpoint × List (Effect endpoint) :=
  if connection.connectionCloseSent then (connection, [])
  else if status < 0 then (connection, [])
  else ({ connection with connectionCloseSent := true },
    raise handler (.output (.connectionClose connection.lastError)))

/-- `Http3Session::handle_error`. -/
def handleError (handler : Handler) (connection : Connection endpoint) (closeStatus : ℤ) :
    Connection endpoint × List (Effect endpoint) :=
  if connection.lastError.type = .idleClose then (connection, [])
  else closeConnection handler connection closeStatus

/-- The code `handle_rx_connection_close` makes of the error of the peer. -/
def closeCode (error : Ccerr) : UInt64 :=
  match error.type with
  | .transport => UInt64.ofNat sslAlertCodesStart + (error.errorCode &&& 0xff)
  | .application => error.errorCode &&& 0xff
  | .versionNegotiation | .idleClose | .dropConn | .retry => 0

/-- `Http3Session::handle_rx_connection_close`, with what `ngtcp2_conn_get_ccerr` returns. -/
def handleRxConnectionClose (handler : Handler) (error : Ccerr) : List (Effect endpoint) :=
  raise handler (.close (closeCode error))

/-! ### Input -/

/-- What the callbacks that ngtcp2 made during a call left behind: the streams, whether they set
`m_last_error`, and whether the handshake was completed. -/
structure Progress (endpoint : Endpoint) where
  session : Session endpoint
  lastError : Option Ccerr := none
  handshakeCompleted : Bool := false

/-- The connection after the callbacks. -/
def Connection.after (connection : Connection endpoint) (progress : Progress endpoint) :
    Connection endpoint :=
  { connection with
    session := progress.session
    lastError := progress.lastError.getD connection.lastError
    handshakeCompleted := connection.handshakeCompleted || progress.handshakeCompleted }

/-- What `ngtcp2_conn_read_pkt` returns and does, and what `ngtcp2_conn_get_tls_alert`,
`ngtcp2_conn_get_ccerr` and `ngtcp2_conn_write_connection_close` return after it. -/
structure Reading (endpoint : Endpoint) where
  status : Status
  progress : Progress endpoint
  tlsAlert : UInt8 := 0
  peerError : Ccerr := .default
  closeStatus : ℤ := 0

/-- What `input` returns. A client has no word for `sendRetry`. -/
inductive InputResult where
  | eaten
  | sendRetry
  | error (status : Status)
  deriving DecidableEq

/-- A closed connection is reported once. -/
def drain (handler : Handler) (connection : Connection endpoint) (peerError : Ccerr) :
    InputResult × Connection endpoint × List (Effect endpoint) :=
  if connection.handledRxConnectionClose then (.eaten, connection, [])
  else (.eaten, { connection with handledRxConnectionClose := true },
    handleRxConnectionClose handler peerError)

/-- The statuses with which `Http3Server::input` fails, and the connection it then closes. -/
def serverFailure (libraries : Libraries) (connection : Connection .server)
    (reading : Reading .server) : Option (Connection .server) :=
  match reading.status with
  | .dropConn => some { connection with dropSilently := true }
  | .crypto => some (connection.noteError (.tlsAlert reading.tlsAlert []))
  | .other code => some (connection.noteError (libraries.liberr (.other code) []))
  | .noError | .draining | .retry => none

/-- `Http3Server::input`. -/
def serverInput (libraries : Libraries) (handler : Handler) (connection : Connection .server)
    (reading : Reading .server) :
    InputResult × Connection .server × List (Effect .server) :=
  let connection := connection.after reading.progress
  match serverFailure libraries connection reading with
  | some failed => (.error reading.status, handleError handler failed reading.closeStatus)
  | none =>
    match reading.status with
    | .draining => drain handler connection reading.peerError
    | .retry => (.sendRetry, connection, [])
    | _ => (.eaten, connection, [])

/-- `Http3Client::input`. It closes the connection only for an alert. -/
def clientInput (libraries : Libraries) (handler : Handler) (connection : Connection .client)
    (reading : Reading .client) :
    InputResult × Connection .client × List (Effect .client) :=
  let connection := connection.after reading.progress
  match reading.status with
  | .noError => (.eaten, connection, [])
  | .draining => drain handler connection reading.peerError
  | .crypto => (.error .crypto,
    handleError handler (connection.noteError (.tlsAlert reading.tlsAlert [])) reading.closeStatus)
  | status => (.error status, connection.noteError (libraries.liberr status []), [])

/-- `input` of either endpoint. -/
def input : {endpoint : Endpoint} → Libraries → Handler → Connection endpoint → Reading endpoint →
    InputResult × Connection endpoint × List (Effect endpoint)
  | .server, libraries, handler, connection, reading =>
    serverInput libraries handler connection reading
  | .client, libraries, handler, connection, reading =>
    clientInput libraries handler connection reading

/-! ### Output -/

/-- Why the loop of `flush_impl` ends: there is nothing to write, or one of the libraries fails. -/
inductive FlushEnd where
  | drained
  | nghttp3Failed (errorCode : UInt64) (reason : Bytes)
  | ngtcp2Failed (status : Status)

/-- What a flush writes and how it ends, and what `ngtcp2_conn_write_connection_close` returns after
it. -/
structure Writing (endpoint : Endpoint) where
  packets : List Bytes := []
  progress : Progress endpoint
  ending : FlushEnd := .drained
  closeStatus : ℤ := 0

/-- The error that is remembered at the end of the loop of `flush_impl`. -/
def FlushEnd.error? (libraries : Libraries) : FlushEnd → Option Ccerr
  | .drained => none
  | .nghttp3Failed errorCode reason => some (.applicationError errorCode reason)
  | .ngtcp2Failed status => some (libraries.liberr status (libraries.strerror status))

/-- `Http3Session::flush_impl`, without the timer. It returns whether there was no error. -/
def flushImpl (libraries : Libraries) (handler : Handler) (connection : Connection endpoint)
    (writing : Writing endpoint) : Bool × Connection endpoint × List (Effect endpoint) :=
  let connection := connection.after writing.progress
  let connection :=
    { connection with lastError := (writing.ending.error? libraries).getD connection.lastError }
  let effects := writing.packets.flatMap fun chunk => raise handler (.output (.data chunk))
  if connection.lastError.errorCode ≠ 0 then
    let (connection, closing) := handleError handler connection writing.closeStatus
    (false, connection, effects ++ closing)
  else (true, connection, effects)

/-! ### The end -/

/-- `Http3Session::~Http3Session`. -/
def destroy (handler : Handler) (connection : Connection endpoint) (closeStatus : ℤ) :
    List (Effect endpoint) :=
  cancelStreams handler connection.session ++
    if endpoint = .server ∧ connection.dropSilently = true then []
    else
      (if connection.lastError.errorCode = 0 ∧ connection.handshakeCompleted = true then
        [.called .shutdown] else []) ++ (closeConnection handler connection closeStatus).2

/-! ### Runs -/

/-- The packets that are handed to `on_output`. -/
def packets (effects : List (Effect endpoint)) : List Packet :=
  effects.filterMap fun
    | .raised (.output packet) => some packet
    | _ => none

/-- What the owner of a session does. -/
inductive Call (endpoint : Endpoint) where
  | input (reading : Reading endpoint)
  | flush (writing : Writing endpoint)
  | setSessionCloseError (errorCode : ℤ) (reason : Bytes)
  | destroy (closeStatus : ℤ)

/-- A connection, whether it is destroyed, and the packets it sent. Those are also kept apart that
were sent, once the connection was to be dropped, by calls of `input` that failed and by the
destructor. -/
structure World (endpoint : Endpoint) where
  connection : Connection endpoint
  destroyed : Bool := false
  sent : List Packet := []
  sentAfterDrop : List Packet := []

/-- What a call of `input` or the destructor adds to the packets kept apart. -/
def afterDrop (dropped failed : Bool) (effects : List (Effect endpoint)) : List Packet :=
  if dropped && failed then packets effects else []

/-- Whether `input` failed. -/
def InputResult.failed : InputResult → Bool
  | .error _ => true
  | _ => false

/-- One call. There is none after the destructor. -/
def worldStep (libraries : Libraries) (handler : Handler) (world : World endpoint)
    (call : Call endpoint) : Option (World endpoint) :=
  if world.destroyed then none
  else
    match call with
    | .input reading =>
      let (result, connection, effects) := input libraries handler world.connection reading
      some { world with
        connection
        sent := world.sent ++ packets effects
        sentAfterDrop :=
          world.sentAfterDrop ++ afterDrop connection.dropSilently result.failed effects }
    | .flush writing =>
      let (_, connection, effects) := flushImpl libraries handler world.connection writing
      some { world with connection, sent := world.sent ++ packets effects }
    | .setSessionCloseError errorCode reason =>
      some { world with
        connection := setSessionCloseError libraries world.connection errorCode reason }
    | .destroy closeStatus =>
      let effects := destroy handler world.connection closeStatus
      some { world with
        destroyed := true
        sent := world.sent ++ packets effects
        sentAfterDrop :=
          world.sentAfterDrop ++ afterDrop world.connection.dropSilently true effects }

end NativeLibs.Http3
