/-
This file embeds the part of `Http3Session` that keeps the streams: the header
callbacks, and the buffer between `submit_body`, from which nghttp3 reads when it
is ready to send and which keeps what it has read until that is acknowledged.
nghttp3 itself and the `evbuffer` are not part of the repository. The status
nghttp3 returns is an argument, and an `evbuffer` is a list of segments.

A function that follows a null pointer or asks for the vectors of a count that is
not positive has no result.
-/

import Mathlib.Data.List.AList
import NativeLibs.Http.Endpoint
import NativeLibs.Library.Segments

namespace NativeLibs.Http3

open Http Library

/-! ### The streams -/

/-- `Http3Session::DataSource`. -/
structure DataSource where
  buffer : Option (Segments UInt8) := none
  readOffset : ℕ := 0

/-- `Http3Session::Stream::Flags`. -/
structure Flags where
  hasEof : Bool := false
  trailersSubmitted : Bool := false
  headRequest : Bool := false
  deriving DecidableEq

/-- `Http3Session::Stream`. -/
structure Stream (endpoint : Endpoint) where
  message : Option (Message endpoint) := none
  flags : Flags := {}
  dataSource : DataSource := {}

/-- `Http3Session`, of which only `m_streams` matters here. -/
structure Session (endpoint : Endpoint) where
  streams : AList fun _ : UInt64 => Stream endpoint

variable {endpoint : Endpoint}

/-- What a callback returns to nghttp3 when it hands nothing out. -/
inductive CallbackStatus where
  | ok
  | callbackFailure
  deriving DecidableEq

/-- A stream of the map is changed. -/
def Session.setStream (session : Session endpoint) (streamId : UInt64) (stream : Stream endpoint) :
    Session endpoint :=
  ⟨session.streams.insert streamId stream⟩

@[simp]
theorem Session.lookup_setStream (session : Session endpoint) (streamId : UInt64)
    (stream : Stream endpoint) :
    (session.setStream streamId stream).streams.lookup streamId = some stream :=
  AList.lookup_insert _

/-! ### Received headers -/

/-- `Http3Session::on_begin_headers`. -/
def onBeginHeaders (session : Session endpoint) (streamId : UInt64) :
    CallbackStatus × Session endpoint :=
  let stream := (session.streams.lookup streamId).getD {}
  let session := session.setStream streamId stream
  if stream.message.isSome then (.callbackFailure, session)
  else
    (.ok, session.setStream streamId { stream with message := some (Message.make endpoint http30) })

/-- `Http3Session::on_recv_header`. -/
def onRecvHeader (session : Session endpoint) (streamId : UInt64) (name value : Bytes) :
    CallbackStatus × Session endpoint :=
  match session.streams.lookup streamId with
  | none => (.callbackFailure, session)
  | some stream =>
    match stream.message with
    | none => (.callbackFailure, session)
    | some message =>
      match message.receive name value with
      | none => (.callbackFailure, session)
      | some received =>
        (.ok, session.setStream streamId { stream with message := some received })

/-! ### The body that is sent -/

/-- A difference of sizes in memory, as `size_t` has it. -/
def sizeSub (left right : ℕ) : ℕ := if right ≤ left then left - right else left + 2 ^ 64 - right

/-- `Http3Session::push_data`, when there is memory for the chunk. -/
def pushData (stream : Stream endpoint) (chunk : Bytes) (eof : Bool) : Stream endpoint :=
  let buffer := stream.dataSource.buffer.getD Segments.empty
  let buffer := if nonempty : chunk = [] then buffer else buffer.add chunk nonempty
  { stream with
    flags := { stream.flags with hasEof := eof }
    dataSource := { stream.dataSource with buffer := some buffer } }

/-- The error codes of `Http3Error` that `submit_body` returns. -/
inductive Http3Error where
  | streamNotFound
  | noMem (status : ℤ)
  deriving DecidableEq

/-- `Http3Session::submit_body_impl`, with what `nghttp3_conn_resume_stream` returns. -/
def submitBodyImpl (session : Session endpoint) (streamId : UInt64) (chunk : Bytes) (eof : Bool)
    (status : ℤ) : Option Http3Error × Session endpoint :=
  match session.streams.lookup streamId with
  | none => (some .streamNotFound, session)
  | some stream =>
    let session := session.setStream streamId (pushData stream chunk eof)
    if status ≠ 0 then (some (.noMem status), session) else (none, session)

/-- What `on_read_data` returns: vectors with the flags for them, or an error code. -/
inductive ReadData where
  | callbackFailure
  | wouldBlock
  | vectors (vec : List Bytes) (eof noEndStream : Bool)
  deriving DecidableEq

/-- The bytes that are handed out. -/
def ReadData.bytes : ReadData → Bytes
  | .vectors vec _ _ => vec.flatten
  | _ => []

/-- `NGHTTP3_DATA_FLAG_EOF`. -/
def ReadData.eof : ReadData → Bool
  | .vectors _ eof _ => eof
  | _ => false

/-- What `on_read_data` returns once it has the vectors and the number of bytes that are left. -/
def readResult (flags : Flags) (vec : List Bytes) (unsent : ℕ) : ReadData :=
  if vec.length = 0 ∧ unsent = 0 ∧ flags.trailersSubmitted then .vectors [] true true
  else
    let eof := unsent = 0 ∧ flags.hasEof
    if vec.length = 0 ∧ ¬eof then .wouldBlock else .vectors vec eof false

/-- `Http3Session::on_read_data`. -/
def onReadData (session : Session endpoint) (streamId : UInt64) (vecNum : ℕ) :
    Option (ReadData × Session endpoint) :=
  match session.streams.lookup streamId with
  | none => some (.callbackFailure, session)
  | some stream => do
    let buffer ← stream.dataSource.buffer
    -- `evbuffer_ptr_set` fails beyond the end
    if buffer.length < stream.dataSource.readOffset then return (.callbackFailure, session)
    if intOf vecNum ≤ 0 then none
    let vec := buffer.peek stream.dataSource.readOffset (intOf vecNum).toNat
    let readOffset := stream.dataSource.readOffset + (vec.map List.length).sum
    let unsent := sizeSub buffer.length readOffset
    return (readResult stream.flags vec unsent, session.setStream streamId
      { stream with dataSource := { stream.dataSource with readOffset } })

/-- `Http3Session::on_acked_stream_data`, with what it passes to `on_data_sent`. -/
def onAckedStreamData (session : Session endpoint) (streamId : UInt64) (origLen : ℕ) :
    Option (CallbackStatus × Session endpoint × List ℕ) :=
  match session.streams.lookup streamId with
  | none => some (.callbackFailure, session, [])
  | some stream => do
    let buffer ← stream.dataSource.buffer
    let len := if buffer.length < origLen then buffer.length else origLen
    let drained := buffer.drain len
    let len := if stream.dataSource.readOffset < len then stream.dataSource.readOffset else len
    let readOffset := sizeSub stream.dataSource.readOffset len
    return (.ok, session.setStream streamId
      { stream with dataSource := ⟨some drained, readOffset⟩ }, [origLen])

end NativeLibs.Http3
