/-
This file embeds the calls with which the application sends a message over an
HTTP/1 session: the head of a request or a response, the chunks of its body,
and its trailer.

A call reports success, an error, or that it reached undefined behaviour. The
last happens in one place only: `send_trailer_impl` removes the front of the
queue after a call of `send_body_impl` that may have emptied it, and
`pop_front` of an empty list has no defined result.
-/

import NativeLibs.Http1.Session

namespace NativeLibs.Http1

open Http

/-- `Error<Http1Error>`: a message, or an error that wraps the error of an inner call. -/
inductive Http1Error where
  | message (text : String)
  | causedBy (next : Http1Error)
  deriving DecidableEq

/-- How a call of the application ends. -/
inductive Status where
  | ok
  | error (error : Http1Error)
  | undefinedBehavior
  deriving DecidableEq

/-- What a call leaves behind: how it ended, the session, and the events it raised. -/
structure SendResult where
  status : Status
  session : Session
  events : List Event := []
  deriving DecidableEq

def noActiveStreams : Http1Error := .message "There're no active streams"

def invalidStreamId (streamId : UInt64) (expected : UInt32) : Http1Error :=
  .message s!"Invalid stream ID ({streamId}), expected {expected}"

/-- A call that fails before it does anything. -/
def rejected (session : Session) (error : Http1Error) : SendResult := ⟨.error error, session, []⟩

/-! ### Body -/

/-- The head of a chunk, `"{:X}\r\n"`. -/
def chunkHeader (chunk : Bytes) : Bytes := formatNat 16 chunk.length ++ crlf

/-- The end of `send_body_impl`, once the message counts as completely sent. The server
removes the *front* of the queue and reports the id it was called with; the client marks the
active stream. -/
def finishSending (side : Side) (handler : Callbacks) (session : Session) (streamId : UInt64)
    (stream : Stream) : Session × List Event :=
  match side with
  | .server =>
    ({ session with streams := session.streams.tail },
      raise handler.onStreamFinished (.streamFinished streamId))
  | .client =>
    ({ session with
       streams := setActiveStream .client session.streams
         { stream with flags := { stream.flags with reqSent := true } } }, [])

/-- The branch of `send_body_impl` for a stream that is not chunked: write the chunk, and
count it off the remaining content length if there is one, which then decides on `eof`. -/
def sendPlain (side : Side) (handler : Callbacks) (session : Session) (streamId : UInt64)
    (stream : Stream) (chunk : Bytes) (eof : Bool) : SendResult :=
  let output := if chunk = [] then [] else raise handler.onOutput (.output chunk)
  let (counted, eof) := match stream.contentLength with
    | .size contentLength =>
      let remaining := if chunk.length ≤ contentLength then contentLength - chunk.length else 0
      ({ stream with contentLength := .size remaining }, decide (remaining = 0))
    | _ => (stream, eof)
  let written := { session with streams := setActiveStream side session.streams counted }
  if eof then
    let (finished, events) := finishSending side handler written streamId counted
    ⟨.ok, finished, output ++ events⟩
  else ⟨.ok, written, output⟩

/-- The branch of `send_body_impl` for a chunked stream. `again` is the function's call of
itself that writes the last chunk. -/
def sendChunk (again : Session → UInt64 → Bytes → Bool → SendResult) (side : Side)
    (handler : Callbacks) (session : Session) (streamId : UInt64) (stream : Stream)
    (chunk : Bytes) (eof : Bool) : SendResult :=
  let marked := { stream with flags := { stream.flags with zeroChunkSent := chunk = [] } }
  let started := { session with streams := setActiveStream side session.streams marked }
  let header := raise handler.onOutput (.output (chunkHeader chunk))
  let payload := if chunk = [] then [] else
    raise handler.onOutput (.output chunk) ++ raise handler.onOutput (.output crlf)
  let last : SendResult := if handler.onOutput ∧ chunk ≠ [] ∧ eof then
    again started streamId [] false else ⟨.ok, started, []⟩
  match last.status with
  | .error error => ⟨.error (.causedBy error), last.session, header ++ payload ++ last.events⟩
  | _ =>
    if eof then
      -- The inner call wrote the flags of the same stream, so it is read again.
      let current := (activeStream side last.session.streams).getD marked
      let (finished, events) := finishSending side handler last.session streamId current
      ⟨.ok, finished, header ++ payload ++ last.events ++
        raise handler.onOutput (.output crlf) ++ events⟩
    else ⟨.ok, last.session, header ++ payload ++ last.events⟩

/-- The text of `send_body_impl`, over the function it calls itself by. -/
def sendBodyStep (again : Session → UInt64 → Bytes → Bool → SendResult) (side : Side)
    (handler : Callbacks) (session : Session) (streamId : UInt64) (chunk : Bytes) (eof : Bool) :
    SendResult :=
  match activeStream side session.streams with
  | none => rejected session noActiveStreams
  | some stream =>
    if streamId ≠ stream.id.toUInt64 then rejected session (invalidStreamId streamId stream.id)
    else if stream.contentLength = .chunked then
      sendChunk again side handler session streamId stream chunk eof
    else sendPlain side handler session streamId stream chunk eof

/-- `Http1Session::send_body_impl`. It calls itself on the empty chunk without `eof`, where it
makes no further call, so unfolding the recursion twice is enough (`sendBodyImpl_eq`). -/
def sendBodyImpl (side : Side) (handler : Callbacks) (session : Session) (streamId : UInt64)
    (chunk : Bytes) (eof : Bool) : SendResult :=
  sendBodyStep (sendBodyStep (fun session _ _ _ => ⟨.ok, session, []⟩) side handler) side handler
    session streamId chunk eof

/-- A body call depends on the function it calls itself by only at the empty chunk. -/
theorem sendBodyStep_congr (again other : Session → UInt64 → Bytes → Bool → SendResult)
    (same : ∀ session streamId, again session streamId [] false = other session streamId [] false)
    (side : Side) (handler : Callbacks) (session : Session) (streamId : UInt64) (chunk : Bytes)
    (eof : Bool) :
    sendBodyStep again side handler session streamId chunk eof =
      sendBodyStep other side handler session streamId chunk eof := by
  simp only [sendBodyStep, sendChunk, same]

/-- Without `eof` a body call does not call itself. -/
theorem sendBodyStep_noEof (again other : Session → UInt64 → Bytes → Bool → SendResult)
    (side : Side) (handler : Callbacks) (session : Session) (streamId : UInt64) (chunk : Bytes) :
    sendBodyStep again side handler session streamId chunk false =
      sendBodyStep other side handler session streamId chunk false := by
  simp only [sendBodyStep, sendChunk, Bool.false_eq_true, and_false, if_false]

/-- `sendBodyImpl` is a fixed point of the text of the source function. -/
theorem sendBodyImpl_eq (side : Side) (handler : Callbacks) (session : Session)
    (streamId : UInt64) (chunk : Bytes) (eof : Bool) :
    sendBodyImpl side handler session streamId chunk eof =
      sendBodyStep (sendBodyImpl side handler) side handler session streamId chunk eof := by
  unfold sendBodyImpl
  refine sendBodyStep_congr _ _ (fun inner innerId => ?_) _ _ _ _ _ _
  exact sendBodyStep_noEof _ _ _ _ _ _ _

/-- Whether a body call completes the message: a content length decides by itself, otherwise
the argument `eof` does. -/
def completesBody (contentLength : ContentLength) (chunk : Bytes) (eof : Bool) : Bool :=
  match contentLength with
  | .size remaining => remaining ≤ chunk.length
  | _ => eof

/-- The active stream after a body call has written its chunk. -/
def writtenStream (handler : Callbacks) (stream : Stream) (chunk : Bytes) (eof : Bool) : Stream :=
  match stream.contentLength with
  | .unset => stream
  | .chunked =>
    { stream with flags := { stream.flags with
        zeroChunkSent := chunk = [] || (handler.onOutput && eof) } }
  | .size remaining => { stream with contentLength := .size (remaining - chunk.length) }

/-- What a body call writes to the peer. -/
def bodyOutput (stream : Stream) (chunk : Bytes) (eof : Bool) : List Bytes :=
  if stream.contentLength = .chunked then
    [chunkHeader chunk] ++ (if chunk = [] then [] else [chunk, crlf]) ++
      (if chunk ≠ [] ∧ eof then [chunkHeader []] else []) ++ (if eof then [crlf] else [])
  else if chunk = [] then [] else [chunk]

/-- The handler calls for a list of chunks written to the peer. -/
def outputs (handler : Callbacks) (chunks : List Bytes) : List Event :=
  if handler.onOutput then chunks.map .output else []

/-- The end of a body call: finish the message if it is complete. -/
def settle (side : Side) (handler : Callbacks) (session : Session) (streamId : UInt64)
    (stream : Stream) (complete : Bool) : Session × List Event :=
  if complete then finishSending side handler session streamId stream else (session, [])

/-- A body call on the active stream, in one piece. -/
theorem sendBodyImpl_active (side : Side) (handler : Callbacks) (session : Session)
    (streamId : UInt64) (chunk : Bytes) (eof : Bool) (stream : Stream)
    (active : activeStream side session.streams = some stream)
    (sameId : streamId = stream.id.toUInt64) :
    sendBodyImpl side handler session streamId chunk eof =
      let written := writtenStream handler stream chunk eof
      let settled := settle side handler
        { session with streams := setActiveStream side session.streams written } streamId written
        (completesBody stream.contentLength chunk eof)
      ⟨.ok, settled.1, outputs handler (bodyOutput stream chunk eof) ++ settled.2⟩ := by
  obtain ⟨id, flags, contentLength⟩ := stream
  simp only [sendBodyImpl, sendBodyStep, active, sameId, ne_eq, not_true_eq_false, if_false]
  cases contentLength with
  | unset =>
    simp only [sendPlain, writtenStream, completesBody, bodyOutput, settle, outputs, raise,
      reduceCtorEq, if_false]
    cases eof <;> cases handler.onOutput <;> by_cases empty : chunk = [] <;> simp [empty]
  | chunked =>
    simp only [sendChunk, writtenStream, completesBody, bodyOutput, settle, outputs, raise,
      if_true]
    cases eof <;> cases output : handler.onOutput <;> by_cases empty : chunk = [] <;>
      simp [empty, output, sendBodyStep, sendChunk, raise]
  | size remaining =>
    simp only [sendPlain, writtenStream, completesBody, bodyOutput, settle, outputs, raise,
      reduceCtorEq, if_false]
    have truncated : (if chunk.length ≤ remaining then remaining - chunk.length else 0) =
        remaining - chunk.length := by
      split <;> omega
    have exhausted : (remaining - chunk.length = 0) = (remaining ≤ chunk.length) :=
      propext Nat.sub_eq_zero_iff_le
    simp only [truncated, exhausted]
    by_cases complete : remaining ≤ chunk.length <;>
      simp only [complete, decide_true, decide_false, if_true, Bool.false_eq_true, if_false] <;>
      cases handler.onOutput <;> by_cases empty : chunk = [] <;> simp [empty]

/-- A body call is refused, and does nothing, unless it names the active stream. -/
theorem sendBodyImpl_refused (side : Side) (handler : Callbacks) (session : Session)
    (streamId : UInt64) (chunk : Bytes) (eof : Bool)
    (other : ∀ stream, activeStream side session.streams = some stream →
      streamId ≠ stream.id.toUInt64) :
    ∃ error, sendBodyImpl side handler session streamId chunk eof = rejected session error := by
  unfold sendBodyImpl sendBodyStep
  cases active : activeStream side session.streams with
  | none => exact ⟨_, rfl⟩
  | some stream => exact ⟨_, if_pos (other stream active)⟩

theorem sendBodyImpl_named_or_refused (side : Side) (handler : Callbacks) (session : Session)
    (streamId : UInt64) (chunk : Bytes) (eof : Bool) :
    (∃ stream, activeStream side session.streams = some stream ∧ streamId = stream.id.toUInt64) ∨
      ∃ error, sendBodyImpl side handler session streamId chunk eof = rejected session error := by
  by_cases named : ∃ stream, activeStream side session.streams = some stream ∧
      streamId = stream.id.toUInt64
  · exact Or.inl named
  · exact Or.inr (sendBodyImpl_refused side handler session streamId chunk eof
      fun stream active sameId => named ⟨stream, active, sameId⟩)

/-! ### Trailer -/

/-- `stream.flags.set(Stream::ZERO_CHUNK_SENT)`. -/
def Stream.markLastChunk (stream : Stream) : Stream :=
  { stream with flags := { stream.flags with zeroChunkSent := true } }

@[simp] theorem Stream.markLastChunk_id (stream : Stream) : stream.markLastChunk.id = stream.id :=
  rfl

@[simp] theorem Stream.markLastChunk_contentLength (stream : Stream) :
    stream.markLastChunk.contentLength = stream.contentLength := rfl

/-- The part of `send_trailer_impl` that writes the last chunk before the trailer. -/
def sendLastChunk (side : Side) (handler : Callbacks) (session : Session) (streamId : UInt32) :
    SendResult :=
  let body := sendBodyImpl side handler session streamId.toUInt64 [] false
  match body.status with
  | .error error => ⟨.error (.causedBy error), body.session, body.events⟩
  | status => ⟨status, body.session, body.events ++ [.output crlf]⟩

/-- The part of `send_trailer_impl` that writes the trailer and, at the end, removes the front
of the queue. -/
def finishTrailer (handler : Callbacks) (session : Session) (streamId : UInt32)
    (headers : Headers) (eof : Bool) : SendResult :=
  if eof then
    match session.streams with
    | [] => ⟨.undefinedBehavior, session, [.output headers.str, .output crlf]⟩
    | _ :: rest =>
      ⟨.ok, { session with streams := rest },
        [.output headers.str, .output crlf] ++
          raise handler.onStreamFinished (.streamFinished streamId.toUInt64)⟩
  else ⟨.ok, session, [.output headers.str]⟩

/-- `Http1Session::send_trailer_impl`. -/
def sendTrailerImpl (side : Side) (handler : Callbacks) (session : Session) (streamId : UInt32)
    (headers : Headers) (eof : Bool) : SendResult :=
  match session.streams with
  | [] => rejected session noActiveStreams
  | stream :: rest =>
    if streamId ≠ stream.id then
      rejected session (invalidStreamId streamId.toUInt64 stream.id)
    else
      let marked := { session with streams := stream.markLastChunk :: rest }
      if handler.onOutput then
        let last : SendResult := if stream.flags.zeroChunkSent then ⟨.ok, marked, []⟩
          else sendLastChunk side handler marked streamId
        if last.status = .ok then
          let written := finishTrailer handler last.session streamId headers eof
          ⟨written.status, written.session, last.events ++ written.events⟩
        else last
      else ⟨.ok, marked, []⟩

/-! ### Head -/

/-- How `send_response` reads the framing headers. The optional that it tests holds the
`bool` that says whether the number could be read, so it is never empty, and the length it
stores is that truth value. -/
def responseContentLength (headers : Headers) : ContentLength :=
  if iequals (headers.gets (ascii "Transfer-Encoding")) (ascii "chunked") then .chunked
  else
    let parsed : Option Bool :=
      some (toInteger 64 (headers.gets (ascii "Content-Length")) 10).isSome
    match parsed with
    | some value => .size value.toNat
    | none => .unset

/-- The statuses and requests for which `send_response` expects no body. -/
def cantHaveBody (statusCode : Int) (headRequest : Bool) : Bool :=
  statusCode.tdiv 100 = 1 || statusCode = 204 || statusCode = 205 || statusCode = 304 ||
    headRequest

/-- `is_upgrade` of `send_response`. -/
def isUpgrade (flags : Flags) (headers : Headers) : Bool :=
  flags.upgradeRequest &&
    (headers.gets (ascii "Upgrade") ≠ [] ||
      (ifind (headers.gets (ascii "Connection")) (ascii "upgrade")).isSome)

/-- `Http1Server::send_response`. -/
def sendResponse (handler : Callbacks) (session : Session) (streamId : UInt64)
    (response : Response) : SendResult :=
  match session.streams with
  | [] => rejected session noActiveStreams
  | stream :: rest =>
    if streamId ≠ stream.id.toUInt64 then rejected session (invalidStreamId streamId stream.id)
    else
      let answered :=
        { stream with contentLength := responseContentLength response.headers }
      let output := raise handler.onOutput (.output response.str)
      let emptyMsg := cantHaveBody response.statusCode stream.flags.headRequest ||
        answered.contentLength = .size 0
      if emptyMsg && !isUpgrade stream.flags response.headers && response.statusCode ≠ 100 &&
          response.statusCode ≠ 103 then
        ⟨.ok, { session with streams := rest },
          output ++ raise handler.onStreamFinished (.streamFinished streamId)⟩
      else ⟨.ok, { session with streams := answered :: rest }, output⟩

/-- How `send_request` reads the framing headers, with the same optional of a `bool` as
`responseContentLength`; a new stream has no content length. -/
def requestContentLength (headers : Headers) : ContentLength :=
  if iequals (headers.gets (ascii "Transfer-Encoding")) (ascii "chunked") then .chunked
  else
    match headers.get (ascii "Content-Length") with
    | some value =>
      let parsed : Option Bool := some (toInteger 64 value 10).isSome
      match parsed with
      | some read => .size read.toNat
      | none => .unset
    | none => .unset

/-- `Http1Client::send_request`; it returns the id of the new stream. -/
def sendRequest (handler : Callbacks) (session : Session) (request : Request) :
    UInt32 × Session × List Event :=
  let contentLength := requestContentLength request.headers
  let emptyMsg := request.method = ascii "HEAD" || contentLength = .unset ||
    contentLength = .size 0
  let stream : Stream :=
    { id := session.nextStreamId, flags := { reqSent := emptyMsg }, contentLength }
  (session.nextStreamId,
    { session with
      nextStreamId := session.nextStreamId + 1
      streams := session.streams ++ [stream] },
    raise handler.onOutput (.output request.str))

/-- `Http1Server::send_body`. -/
def Server.sendBody := sendBodyImpl .server

/-- `Http1Server::send_trailer`. -/
def Server.sendTrailer := sendTrailerImpl .server

/-- `Http1Client::send_body`. -/
def Client.sendBody := sendBodyImpl .client

/-- `Http1Client::send_trailer`. -/
def Client.sendTrailer := sendTrailerImpl .client

end NativeLibs.Http1
