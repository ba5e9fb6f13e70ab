/-
This file embeds `Http2Session` with the callbacks nghttp2 makes: what it does to
the streams of the session and which callbacks of the handler it raises. nghttp2
itself is not part of the repository, so a status it returns is an argument. The
`evbuffer` of a data source is the sequence of its bytes.

A callback that follows a null pointer, or takes the value of an empty
`std::optional`, has no result.
-/

import Mathlib.Data.List.AList
import NativeLibs.Http.Endpoint

namespace NativeLibs.Http2

open Http

/-! ### The session -/

/-- `Http2Session::DataSource`. -/
structure DataSource where
  buffer : Option Bytes := none
  deriving DecidableEq

/-- `Http2Session::Stream::Flags`. -/
structure Flags where
  messageAlreadyReceived : Bool := false
  hasEof : Bool := false
  scheduled : Bool := false
  headRequest : Bool := false
  deriving DecidableEq

/-- `Http2Session::Stream`. -/
structure Stream (endpoint : Endpoint) where
  message : Option (Message endpoint) := none
  dataSource : DataSource := {}
  flags : Flags := {}

/-- `Http2Session`, of which only `m_streams` matters here. -/
structure Session (endpoint : Endpoint) where
  streams : AList fun _ : UInt32 => Stream endpoint

variable {endpoint : Endpoint}

/-- A stream of the map is changed. -/
def Session.setStream (session : Session endpoint) (streamId : UInt32) (stream : Stream endpoint) :
    Session endpoint :=
  ⟨session.streams.insert streamId stream⟩

/-- The callbacks of the handler. `on_request` and `on_response` are one. -/
inductive Event (endpoint : Endpoint) where
  | message (streamId : UInt32) (message : Message endpoint)
  | trailerHeaders (streamId : UInt32) (headers : Headers)
  | body (streamId : UInt32) (chunk : Bytes)
  | windowUpdate (streamId : UInt32) (n : ℕ)
  | streamReadFinished (streamId : UInt32)
  | streamClosed (streamId : UInt32) (errorCode : ℕ)
  | dataSent (streamId : UInt32) (n : ℕ)
  | close (errorCode : ℕ)

/-- The stream a callback is about. -/
def Event.streamId? : Event endpoint → Option UInt32
  | .message streamId _ => some streamId
  | .trailerHeaders streamId _ => some streamId
  | .body streamId _ => some streamId
  | .windowUpdate streamId _ => some streamId
  | .streamReadFinished streamId => some streamId
  | .streamClosed streamId _ => some streamId
  | .dataSent streamId _ => some streamId
  | .close _ => none

/-- Which callbacks of the handler are not null. -/
structure Handler where
  onMessage : Bool
  onTrailerHeaders : Bool
  onBody : Bool
  onWindowUpdate : Bool
  onStreamReadFinished : Bool
  onStreamClosed : Bool
  onDataSent : Bool
  onClose : Bool
  deriving DecidableEq

/-- A handler with every callback. -/
def everyCallback : Handler := ⟨true, true, true, true, true, true, true, true⟩

/-- The callback for an event is not null. -/
def Handler.handles (handler : Handler) : Event endpoint → Bool
  | .message _ _ => handler.onMessage
  | .trailerHeaders _ _ => handler.onTrailerHeaders
  | .body _ _ => handler.onBody
  | .windowUpdate _ _ => handler.onWindowUpdate
  | .streamReadFinished _ => handler.onStreamReadFinished
  | .streamClosed _ _ => handler.onStreamClosed
  | .dataSent _ _ => handler.onDataSent
  | .close _ => handler.onClose

/-- A callback that is not null is called. -/
def raise (handler : Handler) (event : Event endpoint) : List (Event endpoint) :=
  if handler.handles event then [event] else []

/-- The statuses the callbacks return to nghttp2. -/
inductive CallbackStatus where
  | ok
  | temporalCallbackFailure
  | callbackFailure
  | invalidState
  deriving DecidableEq

@[simp]
theorem Session.lookup_setStream (session : Session endpoint) (streamId : UInt32)
    (stream : Stream endpoint) :
    (session.setStream streamId stream).streams.lookup streamId = some stream :=
  AList.lookup_insert _

theorem Session.lookup_setStream_ne (session : Session endpoint) {streamId other : UInt32}
    (stream : Stream endpoint) (different : other ≠ streamId) :
    (session.setStream streamId stream).streams.lookup other = session.streams.lookup other :=
  AList.lookup_insert_ne different

@[simp]
theorem Session.setStream_setStream (session : Session endpoint) (streamId : UInt32)
    (first second : Stream endpoint) :
    (session.setStream streamId first).setStream streamId second =
      session.setStream streamId second :=
  congrArg Session.mk (AList.insert_insert _)

/-! ### Received frames -/

/-- `Http2Session::on_begin_headers`. -/
def onBeginHeaders (session : Session endpoint) (streamId : UInt32) :
    CallbackStatus × Session endpoint :=
  let stream := (session.streams.lookup streamId).getD {}
  let session := session.setStream streamId stream
  if stream.message.isSome then (.callbackFailure, session)
  else
    (.ok, session.setStream streamId { stream with message := some (Message.make endpoint http20) })

/-- `Http2Session::on_header`. -/
def onHeader (session : Session endpoint) (streamId : UInt32) (name value : Bytes) :
    CallbackStatus × Session endpoint :=
  match session.streams.lookup streamId with
  | none => (.temporalCallbackFailure, session)
  | some stream =>
    match stream.message with
    | none => (.callbackFailure, session)
    | some message =>
      match message.receive name value with
      | none => (.temporalCallbackFailure, session)
      | some received =>
        (.ok, session.setStream streamId { stream with message := some received })

/-- The flags after the first block of headers, or an interim one. -/
def flagsAfter : {endpoint : Endpoint} → Flags → Message endpoint → Flags
  | .server, flags, request =>
    { flags with
      messageAlreadyReceived := true
      headRequest := decide (Request.method request = ascii "HEAD") }
  | .client, flags, response =>
    { flags with messageAlreadyReceived := decide (200 ≤ Response.statusCode response) }

/-- `Http2Session::on_end_headers`. -/
def onEndHeaders (handler : Handler) (session : Session endpoint) (streamId : UInt32)
    (stream : Stream endpoint) (endStream : Bool) :
    Option (Session endpoint × List (Event endpoint)) := do
  let message ← stream.message
  let message := message.withHeaders { message.headers with hasBody := !endStream }
  if stream.flags.messageAlreadyReceived then
    return (session.setStream streamId { stream with message := none },
      raise handler (.trailerHeaders streamId message.headers))
  return (session.setStream streamId
      { stream with message := none, flags := flagsAfter stream.flags message },
    raise handler (.message streamId message))

/-- `Http2Session::on_end_stream`. -/
def onEndStream (handler : Handler) (streamId : UInt32) : List (Event endpoint) :=
  raise handler (.streamReadFinished streamId)

/-- The frames `on_frame_recv` tells apart. -/
inductive Frame where
  | headers (streamId : UInt32) (endHeaders endStream : Bool)
  | data (streamId : UInt32) (endStream : Bool)
  | goaway (errorCode : ℕ)
  | pushPromise (streamId : UInt32)
  | windowUpdate (streamId : UInt32) (increment : ℕ)
  | other
  deriving DecidableEq

/-- `Http2Session::on_frame_recv`. -/
def onFrameRecv (handler : Handler) (session : Session endpoint) :
    Frame → Option (Session endpoint × List (Event endpoint))
  | .headers streamId endHeaders endStream =>
    match session.streams.lookup streamId with
    | none => some (session, [])
    | some stream => do
      let (session, events) ←
        if endHeaders then onEndHeaders handler session streamId stream endStream
        else some (session, [])
      return (session, events ++ if endStream then onEndStream handler streamId else [])
  | .data streamId endStream =>
    match session.streams.lookup streamId with
    | none => some (session, [])
    | some _ => some (session, if endStream then onEndStream handler streamId else [])
  | .goaway errorCode => some (session, raise handler (.close errorCode))
  | .pushPromise _ => some (session, [])
  | .windowUpdate streamId increment =>
    some (session,
      if streamId ≠ 0 ∧ 0 < increment then raise handler (.windowUpdate streamId increment) else [])
  | .other => some (session, [])

/-- `Http2Session::on_data_chunk_recv`. -/
def onDataChunkRecv (handler : Handler) (session : Session endpoint) (streamId : UInt32)
    (data : Bytes) : CallbackStatus × List (Event endpoint) :=
  match session.streams.lookup streamId with
  | none => (.invalidState, [])
  | some _ => (.ok, raise handler (.body streamId data))

/-! ### Closing -/

/-- `Http2Session::close_stream`. -/
def closeStream (handler : Handler) (streamId : UInt32) (errorCode : ℕ) : List (Event endpoint) :=
  raise handler (.streamClosed streamId errorCode)

/-- `Http2Session::on_stream_close`. -/
def onStreamClose (handler : Handler) (session : Session endpoint) (streamId : UInt32)
    (errorCode : ℕ) : CallbackStatus × Session endpoint × List (Event endpoint) :=
  match session.streams.lookup streamId with
  | none => (.invalidState, session, [])
  | some _ =>
    (.ok, ⟨session.streams.erase streamId⟩, closeStream handler streamId errorCode)

/-- `NGHTTP2_CANCEL`. -/
def cancel : ℕ := 8

/-- The part of `Http2Session::~Http2Session` before nghttp2 terminates the session. -/
def destroy (handler : Handler) (session : Session endpoint) :
    Session endpoint × List (Event endpoint) :=
  (⟨∅⟩, session.streams.keys.flatMap fun streamId => closeStream handler streamId cancel)

/-! ### Sending -/

/-- `Http2Client::submit_request` once nghttp2 has accepted the headers for a stream. -/
def submitRequest (session : Session .client) (streamId : UInt32) (request : Request)
    (eof : Bool) : Session .client :=
  let headRequest := decide (request.method = ascii "HEAD")
  let stream := (session.streams.lookup streamId).getD {}
  session.setStream streamId
    { stream with flags := { stream.flags with headRequest, hasEof := eof || headRequest } }

/-- `Http2Session::push_data`. A sequence of bytes takes every chunk, so that `evbuffer_add` does
not fail. -/
def pushData (stream : Stream endpoint) (chunk : Bytes) (eof : Bool) : Stream endpoint :=
  { stream with
    dataSource := ⟨some (stream.dataSource.buffer.getD [] ++ chunk)⟩
    flags := { stream.flags with hasEof := eof } }

/-- `Http2Session::schedule_send`: the first time the data source is registered, later it is
resumed. Either way nghttp2 returns a status. -/
def scheduleSend (stream : Stream endpoint) : Stream endpoint :=
  { stream with flags := { stream.flags with scheduled := true } }

/-- The errors of `submit_body_impl`: "Stream not found" and "Couldn't schedule data to send" with
the status. Its third one, "Couldn't push data in buffer", is for an `evbuffer_add` that fails. -/
inductive SubmitError where
  | streamNotFound
  | couldntSchedule (status : ℤ)
  deriving DecidableEq

/-- `Http2Session::submit_body_impl`, with what nghttp2 returns to `schedule_send`. -/
def submitBodyImpl (session : Session endpoint) (streamId : UInt32) (chunk : Bytes) (eof : Bool)
    (status : ℤ) : Option SubmitError × Session endpoint :=
  match session.streams.lookup streamId with
  | none => (some .streamNotFound, session)
  | some stream =>
    let session := session.setStream streamId (scheduleSend (pushData stream chunk eof))
    if status ≠ 0 then (some (.couldntSchedule status), session) else (none, session)

/-- What `on_data_source_read` returns. -/
inductive DataSourceRead where
  | temporalCallbackFailure
  | deferred
  | data (bytes : Bytes) (eof : Bool)
  deriving DecidableEq

/-- The bytes that are returned. -/
def DataSourceRead.bytes : DataSourceRead → Bytes
  | .data bytes _ => bytes
  | _ => []

/-- `NGHTTP2_DATA_FLAG_EOF`. -/
def DataSourceRead.eof : DataSourceRead → Bool
  | .data _ eof => eof
  | _ => false

/-- `Http2Session::on_data_source_read`. -/
def onDataSourceRead (handler : Handler) (session : Session endpoint) (streamId : UInt32)
    (length : ℕ) : Option (DataSourceRead × Session endpoint × List (Event endpoint)) :=
  match session.streams.lookup streamId with
  | none => some (.temporalCallbackFailure, session, [])
  | some stream => do
    let buffer ← stream.dataSource.buffer
    if !stream.flags.hasEof && buffer.isEmpty then return (.deferred, session, [])
    let bytes := buffer.take length
    let rest := buffer.drop length
    return (.data bytes (stream.flags.hasEof && rest.isEmpty),
      session.setStream streamId { stream with dataSource := ⟨some rest⟩ },
      raise handler (.dataSent streamId bytes.length))

end NativeLibs.Http2
