/-
This file says what the callbacks of the parser leave alone. A callback changes
the ids in the queue only where a server opens a stream and where a client has
received the last response to a request, and apart from the latter no callback
finishes a stream. Both sides of the connection share these facts.
-/

import NativeLibs.Http1.Session

namespace NativeLibs.Http1

open Http

/-! ### Finished streams -/

/-- The ids reported as finished, in order. -/
def finishedIds (events : List Event) : List UInt64 :=
  events.filterMap fun
    | .streamFinished streamId => some streamId
    | _ => none

@[simp] theorem finishedIds_nil : finishedIds [] = [] := rfl

@[simp] theorem finishedIds_output_cons (chunk : Bytes) (events : List Event) :
    finishedIds (.output chunk :: events) = finishedIds events := rfl

@[simp] theorem finishedIds_append (first second : List Event) :
    finishedIds (first ++ second) = finishedIds first ++ finishedIds second :=
  List.filterMap_append

/-- A stream is reported as finished if the application listens. -/
def reports (handler : Callbacks) (streamIds : List UInt64) : List UInt64 :=
  if handler.onStreamFinished then streamIds else []

@[simp] theorem finishedIds_raise_finished (handler : Callbacks) (streamId : UInt64) :
    finishedIds (raise handler.onStreamFinished (.streamFinished streamId)) =
      reports handler [streamId] := by
  unfold raise reports
  split <;> rfl

@[simp] theorem finishedIds_raise_output (isSet : Bool) (chunk : Bytes) :
    finishedIds (raise isSet (.output chunk)) = [] := by
  cases isSet <;> rfl

/-! ### The checks the callbacks share -/

/-- A callback that passes the checks has a stream and a context. -/
theorem withContext_of_active (side : Side) (session : Session) (stream : Stream)
    (context : ParserContext) (body : Stream → ParserContext → CallbackResult)
    (active : activeStream side session.streams = some stream)
    (present : session.parserContext = some context) :
    withContext side session body = body stream context := by
  unfold withContext
  rw [active, present]

theorem withContext_cases (side : Side) (session : Session)
    (body : Stream → ParserContext → CallbackResult) :
    withContext side session body = refuse session ∨
      ∃ stream context, activeStream side session.streams = some stream ∧
        session.parserContext = some context ∧
        withContext side session body = body stream context := by
  cases active : activeStream side session.streams with
  | none =>
    refine Or.inl ?_
    unfold withContext
    rw [active]
  | some stream =>
    cases present : session.parserContext with
    | none =>
      refine Or.inl ?_
      unfold withContext
      rw [active, present]
    | some context =>
      exact Or.inr ⟨stream, context, rfl, rfl,
        withContext_of_active side session stream context body active present⟩

/-! ### What a callback does to the queue -/

/-- A callback that opens, removes and finishes no stream. -/
structure QueueKept (session : Session) (result : CallbackResult) : Prop where
  ids : result.session.streams.map Stream.id = session.streams.map Stream.id
  nextId : result.session.nextStreamId = session.nextStreamId
  unfinished : finishedIds result.events = []

theorem QueueKept.refuse (session : Session) : QueueKept session (refuse session) :=
  ⟨rfl, rfl, rfl⟩

theorem QueueKept.withContext (side : Side) (session : Session)
    (body : Stream → ParserContext → CallbackResult)
    (kept : ∀ stream context, activeStream side session.streams = some stream →
      QueueKept session (body stream context)) :
    QueueKept session (withContext side session body) := by
  rcases withContext_cases side session body with
    refused | ⟨stream, context, active, -, passed⟩
  · rw [refused]
    exact QueueKept.refuse session
  · rw [passed]
    exact kept stream context active

theorem onBody_queueKept (side : Side) (handler : Callbacks) (session : Session) (chunk : Bytes) :
    QueueKept session (onBody side handler session chunk) := by
  unfold onBody
  cases active : activeStream side session.streams with
  | none => exact QueueKept.refuse session
  | some stream =>
    refine ⟨map_id_setActiveStream side _ stream _ active rfl, rfl, ?_⟩
    cases handler.onBody <;> rfl

theorem finishBody_kept (handler : Callbacks) (session : Session) (stream : Stream) :
    (finishBody handler session stream).1.streams = session.streams ∧
      (finishBody handler session stream).1.nextStreamId = session.nextStreamId ∧
      finishedIds (finishBody handler session stream).2 = [] := by
  have silent : finishedIds (raise handler.onBodyFinished (.bodyFinished stream.id)) = [] := by
    cases handler.onBodyFinished <;> rfl
  unfold finishBody
  split
  · dsimp only
    split
    · split
      · exact ⟨rfl, rfl, silent⟩
      · exact ⟨rfl, rfl, silent⟩
    · exact ⟨rfl, rfl, silent⟩
  · exact ⟨rfl, rfl, rfl⟩

theorem onMessageComplete_queueKept (handler : Callbacks) (session : Session) :
    QueueKept session (onMessageComplete .server handler session) := by
  unfold onMessageComplete
  cases activeStream .server session.streams with
  | none => exact QueueKept.refuse session
  | some stream =>
    obtain ⟨streams, nextId, unfinished⟩ := finishBody_kept handler session stream
    exact ⟨congrArg (List.map Stream.id) streams, nextId, unfinished⟩

theorem onRequestHead_queueKept (handler : Callbacks) (parser : Parser) (session : Session)
    (stream : Stream) (context : ParserContext) (version : Version)
    (active : activeStream .server session.streams = some stream) :
    QueueKept session (onRequestHead handler parser session stream context version) := by
  refine ⟨map_id_setActiveStream .server _ stream _ active rfl, rfl, ?_⟩
  cases listens : handler.onRequest <;> simp [onRequestHead, raise, listens, finishedIds]

theorem onResponseHead_queueKept (handler : Callbacks) (parser : Parser) (session : Session)
    (stream : Stream) (context : ParserContext) (version : Version)
    (active : activeStream .client session.streams = some stream) :
    QueueKept session (onResponseHead handler parser session stream context version) := by
  refine ⟨map_id_setActiveStream .client _ stream _ active rfl, rfl, ?_⟩
  cases listens : handler.onResponse <;> simp [onResponseHead, raise, listens, finishedIds]

theorem onHeadersComplete_queueKept (side : Side) (handler : Callbacks) (session : Session)
    (parser : Parser) : QueueKept session (onHeadersComplete side handler session parser) := by
  refine QueueKept.withContext side session _ fun stream context active => ?_
  cases makeVersion parser.httpMajor parser.httpMinor with
  | none => exact QueueKept.refuse session
  | some version =>
    cases side with
    | server => exact onRequestHead_queueKept _ _ _ _ _ _ active
    | client => exact onResponseHead_queueKept _ _ _ _ _ _ active

theorem onMessageBegin_client_queueKept (session : Session) :
    QueueKept session (onMessageBegin .client session) := by
  unfold onMessageBegin
  cases active : activeStream .client session.streams with
  | none => exact QueueKept.refuse session
  | some stream => exact ⟨map_id_setActiveStream .client _ stream _ active rfl, rfl, rfl⟩

theorem onCallback_queueKept (side : Side) (handler : Callbacks) (session : Session)
    (callback : Callback) (opens : side = .server → callback ≠ .messageBegin)
    (closes : side = .client → callback ≠ .messageComplete) :
    QueueKept session (onCallback side handler session callback) := by
  cases callback with
  | messageBegin =>
    cases side with
    | server => exact absurd rfl (opens rfl)
    | client => exact onMessageBegin_client_queueKept session
  | url piece =>
    cases side with
    | server => exact QueueKept.withContext .server session _ fun _ _ _ => ⟨rfl, rfl, rfl⟩
    | client => exact QueueKept.refuse session
  | status piece =>
    cases side with
    | server => exact QueueKept.refuse session
    | client => exact QueueKept.withContext .client session _ fun _ _ _ => ⟨rfl, rfl, rfl⟩
  | headerField piece =>
    exact QueueKept.withContext side session _ fun _ _ _ => ⟨rfl, rfl, rfl⟩
  | headerValue piece =>
    refine QueueKept.withContext side session _ fun _ context _ => ?_
    cases addValue context.headers piece with
    | none => exact QueueKept.refuse session
    | some headers => exact ⟨rfl, rfl, rfl⟩
  | headersComplete parser => exact onHeadersComplete_queueKept side handler session parser
  | body chunk => exact onBody_queueKept side handler session chunk
  | messageComplete =>
    cases side with
    | server => exact onMessageComplete_queueKept handler session
    | client => exact absurd rfl (closes rfl)

end NativeLibs.Http1
