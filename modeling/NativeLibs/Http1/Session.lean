/-
This file embeds the HTTP/1 sessions of `http/http1.cpp`: the queue of
streams, the callbacks the parser `llhttp` makes while it reads input, and
the calls with which the application sends a message.

The template argument of `Http1Session` is the side of the connection. The
application's handlers are a record that says which of them are set, and a
call of a handler is an event, so that every function returns its result, the
session after it, and the events it raised in order. Handlers do not call
back into the session. The parser is outside of the repository: what a
callback reads from it is an argument, and a phase says which callback it may
make next.
-/

import NativeLibs.Http.Message

namespace NativeLibs.Http1

open Http

/-! ### Data model -/

/-- The template argument `T` of `Http1Session`. -/
inductive Side where
  | server
  | client
  deriving DecidableEq

/-- `Http1Session::ContentLength`. -/
inductive ContentLength where
  | unset
  | chunked
  | size (remaining : Nat)
  deriving DecidableEq

/-- The bit set `EnumSet<Stream::Flags>`. -/
structure Flags where
  reqSent : Bool := false
  bodyDataStarted : Bool := false
  upgradeRequest : Bool := false
  headRequest : Bool := false
  hasBody : Bool := false
  intermediateResponse : Bool := false
  zeroChunkSent : Bool := false
  deriving DecidableEq

/-- `Http1Session::Stream`. -/
structure Stream where
  id : UInt32
  flags : Flags := {}
  contentLength : ContentLength := .unset
  deriving DecidableEq

/-- `Http1Session::ParserContext`. -/
structure ParserContext where
  path : Bytes := []
  statusString : Bytes := []
  headers : List (Bytes × Bytes) := []
  deriving DecidableEq

/-- `Http1Session`: the context of the message being received, the id of the next stream, and
the streams in the order in which they were opened. -/
structure Session where
  parserContext : Option ParserContext := none
  nextStreamId : UInt32 := 1
  streams : List Stream := []
  deriving DecidableEq

/-- `Callbacks` of the server and of the client: which handlers are not null. -/
structure Callbacks where
  onRequest : Bool := true
  onResponse : Bool := true
  onTrailerHeaders : Bool := true
  onBody : Bool := true
  onBodyFinished : Bool := true
  onStreamFinished : Bool := true
  onOutput : Bool := true
  deriving DecidableEq

/-- A call of one of the application's handlers. `on_stream_finished` always gets the error
code 0. -/
inductive Event where
  | request (streamId : UInt32) (request : Request)
  | response (streamId : UInt32) (response : Response)
  | trailerHeaders (streamId : UInt32) (headers : Headers)
  | body (streamId : UInt32) (chunk : Bytes)
  | bodyFinished (streamId : UInt32)
  | streamFinished (streamId : UInt64)
  | output (chunk : Bytes)
  deriving DecidableEq

/-- A handler call, if the handler is set. -/
def raise (isSet : Bool) (event : Event) : List Event := if isSet then [event] else []

/-- What the callbacks read from the parser once the head of a message is complete. The
method is its name as `llhttp_method_name` gives it. -/
structure Parser where
  httpMajor : UInt8 := 1
  httpMinor : UInt8 := 1
  method : Bytes := ascii "GET"
  statusCode : Nat := 0
  flagChunked : Bool := false
  flagContentLength : Bool := false
  contentLength : Nat := 0
  upgrade : Bool := false

/-! ### The queue of streams -/

/-- `Http1Session::active_stream`: the stream a callback of the parser works on. -/
def activeStream (side : Side) (streams : List Stream) : Option Stream :=
  match side with
  | .server => streams.getLast?
  | .client => streams.head?

/-- Writes through the reference `active_stream` returns. -/
def setActiveStream (side : Side) (streams : List Stream) (stream : Stream) : List Stream :=
  match side with
  | .server => streams.dropLast ++ [stream]
  | .client => stream :: streams.tail

@[simp] theorem activeStream_setActiveStream (side : Side) (streams : List Stream)
    (stream : Stream) : activeStream side (setActiveStream side streams stream) = some stream := by
  cases side with
  | server => exact List.getLast?_concat
  | client => rfl

@[simp] theorem setActiveStream_setActiveStream (side : Side) (streams : List Stream)
    (first second : Stream) :
    setActiveStream side (setActiveStream side streams first) second =
      setActiveStream side streams second := by
  cases side with
  | server => exact congrArg (· ++ [second]) List.dropLast_concat
  | client => rfl

theorem map_id_setActiveStream (side : Side) (streams : List Stream) (stream written : Stream)
    (active : activeStream side streams = some stream) (sameId : written.id = stream.id) :
    (setActiveStream side streams written).map Stream.id = streams.map Stream.id := by
  cases side with
  | server =>
    obtain ⟨front, rfl⟩ := List.getLast?_eq_some_iff.mp active
    simp [setActiveStream, sameId]
  | client =>
    obtain ⟨rest, rfl⟩ := List.head?_eq_some_iff.mp active
    simp [setActiveStream, sameId]

/-! ### Callbacks of the parser -/

/-- The return code of a callback with the session after it and the events it raised. -/
structure CallbackResult where
  code : Int
  session : Session
  events : List Event := []

/-- A callback that stops the parser and changes nothing. -/
def refuse (session : Session) : CallbackResult := ⟨-1, session, []⟩

/-- `Http1Session::on_message_begin`. -/
def onMessageBegin (side : Side) (session : Session) : CallbackResult :=
  match side with
  | .server =>
    ⟨0, { parserContext := some {}, nextStreamId := session.nextStreamId + 1,
          streams := session.streams ++ [{ id := session.nextStreamId }] }, []⟩
  | .client =>
    match activeStream .client session.streams with
    | none => refuse session
    | some stream =>
      let begun := { stream with
        flags := { stream.flags with hasBody := false, intermediateResponse := false } }
      ⟨0, { session with
            parserContext := some {}
            streams := setActiveStream .client session.streams begun }, []⟩

/-- The checks the remaining callbacks share: there is an active stream and a parser context. -/
def withContext (side : Side) (session : Session)
    (body : Stream → ParserContext → CallbackResult) : CallbackResult :=
  match activeStream side session.streams, session.parserContext with
  | some stream, some context => body stream context
  | _, _ => refuse session

/-- `Http1Session::on_url`. -/
def onUrl (side : Side) (session : Session) (path : Bytes) : CallbackResult :=
  match side with
  | .client => refuse session
  | .server => withContext side session fun _ context =>
      ⟨0, { session with parserContext := some { context with path := context.path ++ path } }, []⟩

/-- `Http1Session::on_status`. -/
def onStatus (side : Side) (session : Session) (status : Bytes) : CallbackResult :=
  match side with
  | .server => refuse session
  | .client => withContext side session fun _ context =>
      ⟨0, { session with
            parserContext := some { context with statusString := context.statusString ++ status } },
        []⟩

/-- How `on_header_field` adds a piece of a name. The piece starts a new field exactly when
there is no field yet or the value of the last one is not empty. -/
def addField (headers : List (Bytes × Bytes)) (field : Bytes) : List (Bytes × Bytes) :=
  match headers.getLast? with
  | none => headers ++ [(field, [])]
  | some (name, value) =>
    if value ≠ [] then headers ++ [(field, [])] else headers.dropLast ++ [(name ++ field, value)]

/-- How `on_header_value` adds a piece of a value; `none` when there is no field yet. -/
def addValue (headers : List (Bytes × Bytes)) (piece : Bytes) : Option (List (Bytes × Bytes)) :=
  headers.getLast?.map fun last => headers.dropLast ++ [(last.1, last.2 ++ piece)]

/-- `Http1Session::on_header_field`. -/
def onHeaderField (side : Side) (session : Session) (field : Bytes) : CallbackResult :=
  withContext side session fun _ context =>
    ⟨0, { session with
          parserContext := some { context with headers := addField context.headers field } }, []⟩

/-- `Http1Session::on_header_value`. -/
def onHeaderValue (side : Side) (session : Session) (value : Bytes) : CallbackResult :=
  withContext side session fun _ context =>
    match addValue context.headers value with
    | none => refuse session
    | some headers =>
      ⟨0, { session with parserContext := some { context with headers } }, []⟩

/-- The loop that moves the collected fields into a `Headers` object. -/
def takeHeaders (collected : List (Bytes × Bytes)) : Headers :=
  collected.foldl (fun headers field => headers.put field.1 field.2) {}

/-- `has_body` of a request. -/
def requestHasBody (parser : Parser) : Bool :=
  parser.flagChunked || (parser.flagContentLength && 0 < parser.contentLength)

/-- `has_body` of a response. -/
def responseHasBody (parser : Parser) : Bool :=
  (parser.statusCode ≠ 100 && parser.statusCode ≠ 103) &&
    (parser.flagChunked || !parser.flagContentLength || parser.contentLength ≠ 0)

/-- The head of a request is complete: the part of `on_headers_complete` for the server. The
results 0, 1 and 2 mean to go on, to skip the body, and to stop for an upgrade. -/
def onRequestHead (handler : Callbacks) (parser : Parser) (session : Session) (stream : Stream)
    (context : ParserContext) (version : Version) : CallbackResult :=
  let headers := { takeHeaders context.headers with hasBody := requestHasBody parser }
  let request : Request :=
    { version, method := parser.method, path := context.path, headers }
  let received := { stream with
    flags := { stream.flags with
      upgradeRequest := parser.upgrade
      headRequest := parser.method = ascii "HEAD"
      hasBody := headers.hasBody } }
  let code := if parser.upgrade then 2 else if headers.hasBody then 0 else 1
  ⟨code,
    { session with
      parserContext := some { context with headers := [], path := [] }
      streams := setActiveStream .server session.streams received },
    raise handler.onRequest (.request stream.id request)⟩

/-- The head of a response is complete: the part of `on_headers_complete` for the client. -/
def onResponseHead (handler : Callbacks) (parser : Parser) (session : Session) (stream : Stream)
    (context : ParserContext) (version : Version) : CallbackResult :=
  let headers := { takeHeaders context.headers with hasBody := responseHasBody parser }
  let response : Response :=
    { (((Response.make version parser.statusCode).setStatusCode parser.statusCode).setStatusString
        context.statusString) with headers }
  let received := { stream with
    flags := { stream.flags with
      hasBody := headers.hasBody
      intermediateResponse := parser.statusCode < 200 } }
  let pseudoHttp := !stream.flags.reqSent && parser.statusCode ≠ 100 && parser.statusCode ≠ 103
  let code := if parser.upgrade || pseudoHttp then 2 else if headers.hasBody then 0 else 1
  ⟨code,
    { session with
      parserContext := some { context with headers := [], statusString := [] }
      streams := setActiveStream .client session.streams received },
    raise handler.onResponse (.response stream.id response)⟩

/-- `Http1Session::on_headers_complete`. -/
def onHeadersComplete (side : Side) (handler : Callbacks) (session : Session) (parser : Parser) :
    CallbackResult :=
  withContext side session fun stream context =>
    match makeVersion parser.httpMajor parser.httpMinor with
    | none => refuse session
    | some version =>
      match side with
      | .server => onRequestHead handler parser session stream context version
      | .client => onResponseHead handler parser session stream context version

/-- `Http1Session::on_body`. -/
def onBody (side : Side) (handler : Callbacks) (session : Session) (chunk : Bytes) :
    CallbackResult :=
  match activeStream side session.streams with
  | none => refuse session
  | some stream =>
    let started := { stream with flags := { stream.flags with bodyDataStarted := true } }
    ⟨0, { session with streams := setActiveStream side session.streams started },
      raise handler.onBody (.body stream.id chunk)⟩

/-- The part of `on_message_complete` that reports the trailer and the end of the body. -/
def finishBody (handler : Callbacks) (session : Session) (stream : Stream) :
    Session × List Event :=
  if stream.flags.hasBody then
    let finished := raise handler.onBodyFinished (.bodyFinished stream.id)
    match session.parserContext with
    | some context =>
      if handler.onTrailerHeaders ∧ context.headers ≠ [] then
        ({ session with parserContext := some { context with headers := [] } },
          .trailerHeaders stream.id (takeHeaders context.headers) :: finished)
      else (session, finished)
    | none => (session, finished)
  else (session, [])

/-- `Http1Session::on_message_complete`. The client drops the stream with the last response
to its request. -/
def onMessageComplete (side : Side) (handler : Callbacks) (session : Session) : CallbackResult :=
  match activeStream side session.streams with
  | none => refuse session
  | some stream =>
    let (reported, events) := finishBody handler session stream
    if side = .client ∧ stream.flags.intermediateResponse = false then
      ⟨0, { reported with parserContext := none, streams := reported.streams.tail },
        events ++ raise handler.onStreamFinished (.streamFinished stream.id.toUInt64)⟩
    else ⟨0, reported, events⟩

/-- `Http1Session::reset_parser`. -/
def resetParser (session : Session) : Session := { session with parserContext := none }

/-- One callback of the parser with what it passes. -/
inductive Callback where
  | messageBegin
  | url (piece : Bytes)
  | status (piece : Bytes)
  | headerField (piece : Bytes)
  | headerValue (piece : Bytes)
  | headersComplete (parser : Parser)
  | body (chunk : Bytes)
  | messageComplete

/-- The parser makes one callback. -/
def onCallback (side : Side) (handler : Callbacks) (session : Session) :
    Callback → CallbackResult
  | .messageBegin => onMessageBegin side session
  | .url piece => onUrl side session piece
  | .status piece => onStatus side session piece
  | .headerField piece => onHeaderField side session piece
  | .headerValue piece => onHeaderValue side session piece
  | .headersComplete parser => onHeadersComplete side handler session parser
  | .body chunk => onBody side handler session chunk
  | .messageComplete => onMessageComplete side handler session

/-! ### The order of the parser's callbacks -/

/-- How far the parser is in a message. -/
inductive Phase where
  /-- between two messages -/
  | idle
  /-- the message has begun, and no header line yet -/
  | startLine
  /-- among the header lines of the head -/
  | headerLines
  /-- the head is complete and a body follows -/
  | body
  /-- among the header lines of the trailer section -/
  | trailerLines
  /-- the head is complete and no body follows -/
  | noBody
  /-- a callback refused, so the parser reports an error and waits to be reset -/
  | stopped
  deriving DecidableEq

/-- The next phase after a callback that had to return 0. -/
def Phase.proceed (phase : Phase) (code : Int) : Phase := if code = 0 then phase else .stopped

/-- The phase after a callback with this return code, or nothing if the parser does not make
this callback in this phase. A piece of a value comes after a piece of its name. -/
def Phase.next : Phase → Callback → Int → Option Phase
  | .idle, .messageBegin, code => some (Phase.proceed .startLine code)
  | .startLine, .url _, code => some (Phase.proceed .startLine code)
  | .startLine, .status _, code => some (Phase.proceed .startLine code)
  | .startLine, .headerField _, code => some (Phase.proceed .headerLines code)
  | .headerLines, .headerField _, code => some (Phase.proceed .headerLines code)
  | .headerLines, .headerValue _, code => some (Phase.proceed .headerLines code)
  | .startLine, .headersComplete _, code | .headerLines, .headersComplete _, code =>
    some (if code = 0 then .body else if code = 1 ∨ code = 2 then .noBody else .stopped)
  | .body, .body _, code => some (Phase.proceed .body code)
  | .body, .headerField _, code => some (Phase.proceed .trailerLines code)
  | .trailerLines, .headerField _, code => some (Phase.proceed .trailerLines code)
  | .trailerLines, .headerValue _, code => some (Phase.proceed .trailerLines code)
  | .body, .messageComplete, code | .trailerLines, .messageComplete, code
  | .noBody, .messageComplete, code => some (Phase.proceed .idle code)
  | _, _, _ => none

/-- The head of the current message has been handed over, and the message is not complete. -/
def Phase.pastHead (phase : Phase) : Prop :=
  phase = .body ∨ phase = .trailerLines ∨ phase = .noBody

instance (phase : Phase) : Decidable phase.pastHead :=
  inferInstanceAs (Decidable (phase = .body ∨ phase = .trailerLines ∨ phase = .noBody))

theorem Phase.pastHead_of_body {phase : Phase} (reading : phase = .body ∨ phase = .trailerLines) :
    phase.pastHead :=
  reading.elim Or.inl fun trailer => Or.inr (Or.inl trailer)

/-! The phases in which the parser makes a callback, and the phase after it. -/

section

variable {phase after : Phase} {code : Int}

theorem Phase.next_messageBegin (allowed : phase.next .messageBegin code = some after) :
    phase = .idle ∧ after = Phase.proceed .startLine code := by
  cases phase with
  | idle => exact ⟨rfl, (Option.some.inj allowed).symm⟩
  | _ => cases allowed

theorem Phase.next_url {piece : Bytes} (allowed : phase.next (.url piece) code = some after) :
    phase = .startLine ∧ after = Phase.proceed .startLine code := by
  cases phase with
  | startLine => exact ⟨rfl, (Option.some.inj allowed).symm⟩
  | _ => cases allowed

theorem Phase.next_status {piece : Bytes} (allowed : phase.next (.status piece) code = some after) :
    phase = .startLine ∧ after = Phase.proceed .startLine code := by
  cases phase with
  | startLine => exact ⟨rfl, (Option.some.inj allowed).symm⟩
  | _ => cases allowed

theorem Phase.next_headerField {piece : Bytes}
    (allowed : phase.next (.headerField piece) code = some after) :
    (phase = .startLine ∨ phase = .headerLines) ∧ after = Phase.proceed .headerLines code ∨
      (phase = .body ∨ phase = .trailerLines) ∧ after = Phase.proceed .trailerLines code := by
  cases phase with
  | startLine => exact .inl ⟨.inl rfl, (Option.some.inj allowed).symm⟩
  | headerLines => exact .inl ⟨.inr rfl, (Option.some.inj allowed).symm⟩
  | body => exact .inr ⟨.inl rfl, (Option.some.inj allowed).symm⟩
  | trailerLines => exact .inr ⟨.inr rfl, (Option.some.inj allowed).symm⟩
  | _ => cases allowed

theorem Phase.next_headerValue {piece : Bytes}
    (allowed : phase.next (.headerValue piece) code = some after) :
    (phase = .headerLines ∨ phase = .trailerLines) ∧ after = phase.proceed code := by
  cases phase with
  | headerLines => exact ⟨.inl rfl, (Option.some.inj allowed).symm⟩
  | trailerLines => exact ⟨.inr rfl, (Option.some.inj allowed).symm⟩
  | _ => cases allowed

theorem Phase.next_headersComplete {parser : Parser}
    (allowed : phase.next (.headersComplete parser) code = some after) :
    (phase = .startLine ∨ phase = .headerLines) ∧
      after = if code = 0 then .body else if code = 1 ∨ code = 2 then .noBody else .stopped := by
  cases phase with
  | startLine => exact ⟨.inl rfl, (Option.some.inj allowed).symm⟩
  | headerLines => exact ⟨.inr rfl, (Option.some.inj allowed).symm⟩
  | _ => cases allowed

theorem Phase.next_body {chunk : Bytes} (allowed : phase.next (.body chunk) code = some after) :
    phase = .body ∧ after = Phase.proceed .body code := by
  cases phase with
  | body => exact ⟨rfl, (Option.some.inj allowed).symm⟩
  | _ => cases allowed

theorem Phase.next_messageComplete (allowed : phase.next .messageComplete code = some after) :
    (phase = .body ∨ phase = .trailerLines ∨ phase = .noBody) ∧
      after = Phase.proceed .idle code := by
  cases phase with
  | body => exact ⟨.inl rfl, (Option.some.inj allowed).symm⟩
  | trailerLines => exact ⟨.inr (.inl rfl), (Option.some.inj allowed).symm⟩
  | noBody => exact ⟨.inr (.inr rfl), (Option.some.inj allowed).symm⟩
  | _ => cases allowed

end

end NativeLibs.Http1
