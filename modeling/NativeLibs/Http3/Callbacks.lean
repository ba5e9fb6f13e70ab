/-
This file embeds the callbacks nghttp3 makes on an `Http3Session` and the calls of
the application that concern one stream, with what they pass on: to the handler,
and to nghttp3 and ngtcp2. The two libraries have signed stream ids of 64 bits,
and the map of streams and the handler have unsigned ones. Every conversion
between them, also one that the source leaves to the compiler, stands here as the
source makes it.

The statuses the libraries return are arguments. A callback that takes the value
of an empty `std::optional` or follows a null pointer has no result.
-/

import NativeLibs.Http3.Session

namespace NativeLibs.Http3

open Http

/-! ### What is passed on -/

/-- `ngtcp2_ccerr_type`. -/
inductive CcerrType where
  | transport
  | application
  | versionNegotiation
  | idleClose
  | dropConn
  | retry
  deriving DecidableEq

/-- `ngtcp2_ccerr`: why a connection is closed. -/
structure Ccerr where
  type : CcerrType
  errorCode : UInt64
  reason : Bytes
  deriving DecidableEq

/-- What `on_output` is given: a packet, or the one that closes the connection. -/
inductive Packet where
  | data (chunk : Bytes)
  | connectionClose (error : Ccerr)
  deriving DecidableEq

/-- The callbacks of the handler. `on_request` and `on_response` are one. -/
inductive Event (endpoint : Endpoint) where
  | message (streamId : UInt64) (message : Message endpoint)
  | trailerHeaders (streamId : UInt64) (headers : Headers)
  | body (streamId : UInt64) (chunk : Bytes)
  | streamReadFinished (streamId : UInt64)
  | streamClosed (streamId : UInt64) (errorCode : ℤ)
  | dataSent (streamId : UInt64) (n : ℕ)
  | close (errorCode : UInt64)
  | output (packet : Packet)

/-- Which callbacks of the handler are not null. -/
structure Handler where
  onMessage : Bool
  onTrailerHeaders : Bool
  onBody : Bool
  onStreamReadFinished : Bool
  onStreamClosed : Bool
  onDataSent : Bool
  onClose : Bool
  onOutput : Bool
  deriving DecidableEq

/-- A handler with every callback. -/
def everyCallback : Handler := ⟨true, true, true, true, true, true, true, true⟩

variable {endpoint : Endpoint}

/-- The callback for an event is not null. -/
def Handler.handles (handler : Handler) : Event endpoint → Bool
  | .message _ _ => handler.onMessage
  | .trailerHeaders _ _ => handler.onTrailerHeaders
  | .body _ _ => handler.onBody
  | .streamReadFinished _ => handler.onStreamReadFinished
  | .streamClosed _ _ => handler.onStreamClosed
  | .dataSent _ _ => handler.onDataSent
  | .close _ => handler.onClose
  | .output _ => handler.onOutput

/-- `nghttp3_data_reader`: whether it has a `read_data`. -/
structure DataReader where
  readData : Bool
  deriving DecidableEq

/-- The calls into nghttp3 and ngtcp2. The names and values a message is handed over as are those
of the message. -/
inductive LibraryCall where
  | submitTrailers (streamId : Int64) (headers : Headers)
  | submitResponse (streamId : Int64) (response : Response) (reader : Option DataReader)
  | resumeStream (streamId : Int64)
  | shutdownStream (streamId : Int64) (errorCode : ℤ)
  | shutdownStreamRead (streamId : Int64) (errorCode : UInt64)
  | shutdownStreamWrite (streamId : Int64) (errorCode : UInt64)
  | extendMaxOffset (length : ℕ)
  | extendMaxStreamOffset (streamId : Int64) (length : ℕ)
  | shutdown

/-- What a function does besides changing the session. -/
inductive Effect (endpoint : Endpoint) where
  | raised (event : Event endpoint)
  | called (call : LibraryCall)

/-- A callback that is not null is called. -/
def raise (handler : Handler) (event : Event endpoint) : List (Effect endpoint) :=
  if handler.handles event then [.raised event] else []

/-! ### Received messages -/

/-- The flags after a block of headers. -/
def flagsAfter : {endpoint : Endpoint} → Flags → Message endpoint → Flags
  | .server, flags, request =>
    { flags with headRequest := decide (Request.method request = ascii "HEAD") }
  | .client, flags, _ => flags

/-- `Http3Session::on_end_headers`. -/
def onEndHeaders (handler : Handler) (session : Session endpoint) (streamId : Int64)
    (fin : Bool) : Option (CallbackStatus × Session endpoint × List (Effect endpoint)) :=
  match session.streams.lookup streamId.toUInt64 with
  | none => some (.callbackFailure, session, [])
  | some stream => do
    let message ← stream.message
    let message := message.withHeaders { message.headers with hasBody := !fin }
    return (.ok, session.setStream streamId.toUInt64
      { stream with message := none, flags := flagsAfter stream.flags message },
      raise handler (.message streamId.toUInt64 message))

/-- `Http3Session::on_begin_trailers`. -/
def onBeginTrailers (session : Session endpoint) (streamId : Int64) :
    CallbackStatus × Session endpoint :=
  match session.streams.lookup streamId.toUInt64 with
  | none => (.callbackFailure, session)
  | some stream =>
    if stream.message.isSome then (.callbackFailure, session)
    else (.ok, session.setStream streamId.toUInt64
      { stream with message := some (Message.make endpoint http30) })

/-- `Http3Session::on_recv_trailer`. -/
def onRecvTrailer (session : Session endpoint) (streamId : Int64) (name value : Bytes) :
    CallbackStatus × Session endpoint :=
  match session.streams.lookup streamId.toUInt64 with
  | none => (.callbackFailure, session)
  | some stream =>
    match stream.message with
    | none => (.callbackFailure, session)
    | some message => (.ok, session.setStream streamId.toUInt64
      { stream with message := some (message.withHeaders (message.headers.put name value)) })

/-- `Http3Session::on_end_trailers`. -/
def onEndTrailers (handler : Handler) (session : Session endpoint) (streamId : Int64) :
    Option (CallbackStatus × Session endpoint × List (Effect endpoint)) :=
  match session.streams.lookup streamId.toUInt64 with
  | none => some (.callbackFailure, session, [])
  | some stream => do
    let message ← stream.message
    return (.ok, session.setStream streamId.toUInt64 { stream with message := none },
      raise handler (.trailerHeaders streamId.toUInt64 message.headers))

/-- `Http3Session::on_data_chunk_recv`. -/
def onDataChunkRecv (handler : Handler) (session : Session endpoint) (streamId : Int64)
    (data : Bytes) : CallbackStatus × List (Effect endpoint) :=
  match session.streams.lookup streamId.toUInt64 with
  | none => (.callbackFailure, [])
  | some _ => (.ok, raise handler (.body streamId.toUInt64 data))

/-- `Http3Session::on_end_stream`. -/
def onEndStream (handler : Handler) (streamId : Int64) : List (Effect endpoint) :=
  raise handler (.streamReadFinished streamId.toUInt64)

/-- What `Http3Session::on_acked_stream_data` raises. -/
def ackedStreamData (handler : Handler) (session : Session endpoint) (streamId : Int64)
    (origLen : ℕ) : Option (CallbackStatus × Session endpoint × List (Effect endpoint)) :=
  (onAckedStreamData session streamId.toUInt64 origLen).map fun (status, next, sent) =>
    (status, next, sent.flatMap fun n => raise handler (.dataSent streamId.toUInt64 n))

/-! ### Closing streams -/

/-- `Http3Session::close_stream`, whose parameter is an `uint32_t`. -/
def closeStream (handler : Handler) (streamId : UInt32) (errorCode : ℤ) :
    List (Effect endpoint) :=
  raise handler (.streamClosed streamId.toUInt64 errorCode)

/-- `Http3Session::on_h3_stream_close`. -/
def onH3StreamClose (handler : Handler) (session : Session endpoint) (streamId : Int64)
    (errorCode : UInt64) : CallbackStatus × Session endpoint × List (Effect endpoint) :=
  match session.streams.lookup streamId.toUInt64 with
  | none => (.callbackFailure, session, [])
  | some _ => (.ok, ⟨session.streams.erase streamId.toUInt64⟩,
    closeStream handler streamId.toUInt64.toUInt32 (intOf errorCode.toNat))

/-- `NGHTTP3_H3_REQUEST_CANCELLED`. -/
def requestCancelled : ℤ := 0x010c

/-- What the loop of `Http3Session::~Http3Session` does for a stream. -/
def cancelStream (handler : Handler) (streamId : UInt64) : List (Effect endpoint) :=
  closeStream handler streamId.toUInt32 requestCancelled

/-- The loop of `Http3Session::~Http3Session`. -/
def cancelStreams (handler : Handler) (session : Session endpoint) : List (Effect endpoint) :=
  session.streams.keys.flatMap (cancelStream handler)

/-- `Http3Session::on_h3_stop_sending`, with what ngtcp2 returns. -/
def onH3StopSending (streamId : Int64) (appErrorCode : UInt64) (status : ℤ) :
    ℤ × List (Effect endpoint) :=
  (if status ≠ 0 then -1 else 0, [.called (.shutdownStreamWrite streamId appErrorCode)])

/-- `Http3Session::on_h3_reset_stream`, with what ngtcp2 returns. -/
def onH3ResetStream (streamId : Int64) (appErrorCode : UInt64) (status : ℤ) :
    ℤ × List (Effect endpoint) :=
  (if status ≠ 0 then -1 else 0, [.called (.shutdownStreamRead streamId appErrorCode)])

/-! ### Calls of the application -/

/-- The codes of the errors that the calls return, one of them what a library returned. -/
inductive ErrorCode where
  | streamNotFound
  | internal
  | noMem
  | library (status : ℤ)
  deriving DecidableEq

/-- What `Http3Session::submit_body_impl` calls. -/
def submitBodyCalls (session : Session endpoint) (streamId : UInt64) : List (Effect endpoint) :=
  match session.streams.lookup streamId with
  | none => []
  | some _ => [.called (.resumeStream streamId.toInt64)]

/-- `Http3Session::submit_trailer_impl`, with what nghttp3 returns to its two calls. -/
def submitTrailerImpl (session : Session endpoint) (streamId : UInt64) (headers : Headers)
    (submitStatus resumeStatus : ℤ) :
    Option ErrorCode × Session endpoint × List (Effect endpoint) :=
  match session.streams.lookup streamId with
  | none => (some .streamNotFound, session, [])
  | some stream =>
    -- `int32_t(stream_id)`
    let submitted := Effect.called (.submitTrailers streamId.toUInt32.toInt32.toInt64 headers)
    if submitStatus ≠ 0 then (some .internal, session, [submitted])
    else
      let effects := [submitted, .called (.resumeStream streamId.toInt64)]
      if resumeStatus ≠ 0 then (some .noMem, session, effects)
      else
        (none, session.setStream streamId
          { stream with flags := { stream.flags with trailersSubmitted := true } }, effects)

/-- `Http3Server::submit_response`, with what nghttp3 returns to its two calls. -/
def submitResponse (session : Session .server) (streamId : UInt64) (response : Response)
    (eof : Bool) (submitStatus resumeStatus : ℤ) :
    Option ErrorCode × Session .server × List (Effect .server) :=
  match session.streams.lookup streamId with
  | none => (some .streamNotFound, session, [])
  | some stream =>
    let eof := eof || stream.flags.headRequest
    let creates := !eof && stream.dataSource.buffer.isNone
    let session :=
      if creates then
        session.setStream streamId { stream with
          dataSource := { stream.dataSource with buffer := some Library.Segments.empty } }
      else session
    let reader := if eof then none else some (DataReader.mk creates)
    let submitted := Effect.called (.submitResponse streamId.toInt64 response reader)
    if submitStatus ≠ 0 then (some .internal, session, [submitted])
    else
      let effects := [submitted, .called (.resumeStream streamId.toInt64)]
      if resumeStatus ≠ 0 then (some .noMem, session, effects) else (none, session, effects)

/-- `Http3Session::reset_stream_impl`. -/
def resetStreamImpl (streamId : UInt64) (errorCode status : ℤ) :
    Option ErrorCode × List (Effect endpoint) :=
  (if status ≠ 0 then some (.library status) else none,
    [.called (.shutdownStream streamId.toInt64 errorCode)])

/-- `Http3Session::consume_connection_impl`. -/
def consumeConnectionImpl (length : ℕ) : List (Effect endpoint) :=
  [.called (.extendMaxOffset length)]

/-- `Http3Session::consume_stream_impl`. -/
def consumeStreamImpl (streamId : UInt64) (length : ℕ) (status : ℤ) :
    Option ErrorCode × List (Effect endpoint) :=
  (if status ≠ 0 then some (.library status) else none,
    consumeConnectionImpl length ++ [.called (.extendMaxStreamOffset streamId.toInt64 length)])

/-- `Http3Session::on_deferred_consume`. -/
def onDeferredConsume (streamId : Int64) (consumed : ℕ) (status : ℤ) :
    CallbackStatus × List (Effect endpoint) :=
  let (error, effects) := consumeStreamImpl streamId.toUInt64 consumed status
  (if error.isSome then .callbackFailure else .ok, effects)

end NativeLibs.Http3
