/-
This file lets an HTTP/1 server run: the parser makes its callbacks, input that
could not be parsed resets it, and between the callbacks the application sends
responses, body chunks and trailers with any arguments. A phase says which
callback the parser may make next, and the world records, besides the session,
the events raised so far and the ids the requests were given in the order in
which they arrived.

The results hold in every state a run reaches: the queue holds the last of the
requests that arrived, the parser context is there while a message is read,
and exactly the calls that the front of the queue is for may be written.
-/

import NativeLibs.Http1.CallbackEffects
import NativeLibs.Http1.SendEffects
import NativeLibs.Library.Runs

namespace NativeLibs.Http1

open Http Library

/-! ### Runs of a server -/

/-- A server with what has happened so far. -/
structure ServerWorld where
  session : Session := {}
  phase : Phase := .idle
  /-- every handler call so far -/
  events : List Event := []
  /-- the ids of the requests that have begun to arrive -/
  begun : List UInt32 := []
  /-- the ids for which a response head was accepted -/
  answered : List UInt64 := []
  deriving DecidableEq

/-- One thing that may happen to a server. -/
inductive ServerInput where
  | callback (callback : Callback)
  | resetParser
  | sendResponse (streamId : UInt64) (response : Response)
  | sendBody (streamId : UInt64) (chunk : Bytes) (eof : Bool)
  | sendTrailer (streamId : UInt32) (headers : Headers) (eof : Bool)

/-- The ids of the requests after a callback. -/
def begunAfter (session : Session) (begun : List UInt32) : Callback → List UInt32
  | .messageBegin => begun ++ [session.nextStreamId]
  | _ => begun

/-- The world after a call of the application; a call with undefined behaviour has none. -/
def ServerWorld.afterCall (world : ServerWorld) (result : SendResult) : Option ServerWorld :=
  if result.status = .undefinedBehavior then none
  else some { world with session := result.session, events := world.events ++ result.events }

theorem ServerWorld.afterCall_isSome (world : ServerWorld) (result : SendResult)
    (defined : result.status ≠ .undefinedBehavior) : (world.afterCall result).isSome = true := by
  rw [afterCall, if_neg defined]
  rfl

theorem ServerWorld.afterCall_eq_some {world next : ServerWorld} {result : SendResult}
    (called : world.afterCall result = some next) :
    result.status ≠ .undefinedBehavior ∧ next = { world with
      session := result.session, events := world.events ++ result.events } := by
  unfold afterCall at called
  split at called
  · cases called
  · exact ⟨‹_›, (Option.some.inj called).symm⟩

/-- One step of a server. -/
def serverStep (handler : Callbacks) (world : ServerWorld) : ServerInput → Option ServerWorld
  | .callback callback =>
    let result := onCallback .server handler world.session callback
    (world.phase.next callback result.code).map fun phase =>
      { world with
        session := result.session
        phase
        events := world.events ++ result.events
        begun := begunAfter world.session world.begun callback }
  | .resetParser => some { world with session := resetParser world.session, phase := .idle }
  | .sendResponse streamId response =>
    let result := sendResponse handler world.session streamId response
    let answered := if result.status = .ok then world.answered ++ [streamId] else world.answered
    ({ world with answered }).afterCall result
  | .sendBody streamId chunk eof =>
    world.afterCall (Server.sendBody handler world.session streamId chunk eof)
  | .sendTrailer streamId headers eof =>
    world.afterCall (Server.sendTrailer handler world.session streamId headers eof)

/-- What a step of a server can be. -/
theorem serverStep_cases (handler : Callbacks) (world next : ServerWorld) (input : ServerInput)
    (stepped : serverStep handler world input = some next) :
    (∃ callback phase,
      input = .callback callback ∧
      world.phase.next callback (onCallback .server handler world.session callback).code =
        some phase ∧
      next = { world with
        session := (onCallback .server handler world.session callback).session
        phase
        events := world.events ++ (onCallback .server handler world.session callback).events
        begun := begunAfter world.session world.begun callback }) ∨
    (input = .resetParser ∧
      next = { world with session := resetParser world.session, phase := .idle }) ∨
    ∃ result answered, result.status ≠ .undefinedBehavior ∧
      SentThrough world.session result.session ∧ OnlySends result.events ∧
      ((∃ streamId response, input = .sendResponse streamId response ∧
          result = sendResponse handler world.session streamId response) ∨
        (∃ streamId chunk eof, input = .sendBody streamId chunk eof ∧
          result = Server.sendBody handler world.session streamId chunk eof) ∨
        (∃ streamId headers eof, input = .sendTrailer streamId headers eof ∧
          result = Server.sendTrailer handler world.session streamId headers eof)) ∧
      next = { world with
        session := result.session, events := world.events ++ result.events, answered } := by
  cases input with
  | callback callback =>
    obtain ⟨phase, allowed, rfl⟩ := Option.map_eq_some_iff.mp stepped
    exact Or.inl ⟨callback, phase, rfl, allowed, rfl⟩
  | resetParser => exact Or.inr (Or.inl ⟨rfl, (Option.some.inj stepped).symm⟩)
  | sendResponse streamId response =>
    have through : SentThrough world.session
        (sendResponse handler world.session streamId response).session := by
      rcases sendResponse_effect handler world.session streamId response with
        ⟨error, refused⟩ | ⟨front, rest, -, -, -, through, -⟩
      · rw [refused]
        exact SentThrough.refl _
      · exact through
    obtain ⟨defined, rfl⟩ := ServerWorld.afterCall_eq_some stepped
    exact Or.inr (Or.inr ⟨_, _, defined, through, sendResponse_onlySends _ _ _ _,
      Or.inl ⟨streamId, response, rfl, rfl⟩, rfl⟩)
  | sendBody streamId chunk eof =>
    obtain ⟨defined, rfl⟩ := ServerWorld.afterCall_eq_some stepped
    exact Or.inr (Or.inr ⟨_, world.answered, defined, sendBodyImpl_sentThrough _ _ _ _ _ _,
      sendBodyImpl_onlySends _ _ _ _ _ _, Or.inr (Or.inl ⟨streamId, chunk, eof, rfl, rfl⟩), rfl⟩)
  | sendTrailer streamId headers eof =>
    obtain ⟨defined, rfl⟩ := ServerWorld.afterCall_eq_some stepped
    exact Or.inr (Or.inr ⟨_, world.answered, defined, sendTrailerImpl_sentThrough _ _ _ _ _ _,
      sendTrailerImpl_onlySends _ _ _ _ _ _, Or.inr (Or.inr ⟨streamId, headers, eof, rfl, rfl⟩),
      rfl⟩)

/-! ### What holds in every state of a run -/

/-- The ids under which requests were handed to the application. -/
def requestIds (events : List Event) : List UInt32 :=
  events.filterMap fun
    | .request streamId _ => some streamId
    | _ => none

/-- What the parser context holds in a phase: nothing is collected before a section of header
lines, and something within it. -/
def ContextFits (phase : Phase) (context : Option ParserContext) : Prop :=
  match phase with
  | .idle | .stopped => True
  | .startLine => ∃ current, context = some current
  | .headerLines | .trailerLines => ∃ current, context = some current ∧ current.headers ≠ []
  | .body | .noBody => ∃ current, context = some current ∧ current.headers = []

/-- What the receiving side of a server relies on. -/
structure Receiving (handler : Callbacks) (world : ServerWorld) : Prop where
  /-- streams are only ever removed from the front -/
  queue : world.session.streams.map Stream.id <:+ world.begun
  context : ContextFits world.phase world.session.parserContext
  begun : world.phase ≠ .idle → world.begun ≠ []
  /-- a body is read only for a request that announced one -/
  hasBody : world.phase = .body ∨ world.phase = .trailerLines →
    ∀ last, world.session.streams.getLast? = some last → last.flags.hasBody = true
  /-- the current request was handed over under the id it was given -/
  handedOver : world.phase.pastHead → handler.onRequest = true →
    (requestIds world.events).getLast? = world.begun.getLast?

theorem getLast?_begun (streams : List Stream) (begun : List UInt32)
    (queue : streams.map Stream.id <:+ begun) (last : Stream)
    (found : streams.getLast? = some last) : begun.getLast? = some last.id := by
  obtain ⟨removed, rfl⟩ := queue
  obtain ⟨before, rfl⟩ := List.getLast?_eq_some_iff.mp found
  rw [List.map_append, ← List.append_assoc]
  exact List.getLast?_concat

theorem SentThrough.last {before after : Session} (sent : SentThrough before after)
    (last : Stream) (found : after.streams.getLast? = some last) :
    ∃ earlier, before.streams.getLast? = some earlier ∧ receiveView last = receiveView earlier := by
  obtain ⟨removed, queue⟩ := sent.queue
  obtain ⟨kept, streams⟩ := List.getLast?_eq_some_iff.mp found
  have views : (before.streams.map receiveView).getLast? = some (receiveView last) := by
    rw [← queue, streams, List.map_append, ← List.append_assoc]
    exact List.getLast?_concat
  rw [List.getLast?_map] at views
  obtain ⟨earlier, there, same⟩ := Option.map_eq_some_iff.mp views
  exact ⟨earlier, there, same.symm⟩

@[simp] theorem requestIds_append (first second : List Event) :
    requestIds (first ++ second) = requestIds first ++ requestIds second :=
  List.filterMap_append

theorem OnlySends.requestIds {events : List Event} (sends : OnlySends events) :
    requestIds events = [] := by
  refine List.filterMap_eq_nil_iff.mpr fun event member => ?_
  rcases sends event member with ⟨chunk, rfl⟩ | ⟨streamId, rfl⟩ <;> rfl

theorem Receiving.initial (handler : Callbacks) : Receiving handler {} := by
  refine ⟨List.suffix_rfl, trivial, fun started => absurd rfl started, ?_, ?_⟩
  · exact fun reading => absurd reading (by decide)
  · exact fun past => absurd past (by decide)

/-- The invariant after a callback within a message, from what the callback did. -/
theorem Receiving.proceed {handler : Callbacks} {world : ServerWorld}
    (receiving : Receiving handler world) (started : world.phase ≠ .idle)
    (result : CallbackResult) (after : Phase) (kept : QueueKept world.session result)
    (context : ContextFits after result.session.parserContext)
    (hasBody : after = .body ∨ after = .trailerLines →
      ∀ last, result.session.streams.getLast? = some last → last.flags.hasBody = true)
    (handedOver : after.pastHead → handler.onRequest = true →
      (requestIds (world.events ++ result.events)).getLast? = world.begun.getLast?) :
    Receiving handler { world with
      session := result.session, phase := after, events := world.events ++ result.events } where
  queue := by
    rw [kept.ids]
    exact receiving.queue
  context := context
  begun := fun _ => receiving.begun started
  hasBody := hasBody
  handedOver := handedOver

/-- Outside a body and its trailer section the parser context is all there is to look at. -/
theorem Receiving.proceedOutside {handler : Callbacks} {world : ServerWorld}
    (receiving : Receiving handler world) (started : world.phase ≠ .idle)
    (result : CallbackResult) (after : Phase) (kept : QueueKept world.session result)
    (context : ContextFits after result.session.parserContext) (outside : ¬after.pastHead) :
    Receiving handler { world with
      session := result.session, phase := after, events := world.events ++ result.events } :=
  receiving.proceed started result after kept context
    (fun reading => absurd (Phase.pastHead_of_body reading) outside)
    fun past => absurd past outside

/-- A callback that refuses stops the parser. -/
theorem Receiving.refused {handler : Callbacks} {world : ServerWorld}
    (receiving : Receiving handler world) (started : world.phase ≠ .idle) :
    Receiving handler { world with
      session := (refuse world.session).session
      phase := .stopped
      events := world.events ++ (refuse world.session).events } :=
  receiving.proceedOutside started _ .stopped (QueueKept.refuse world.session) trivial (by decide)

/-- A request begins. -/
theorem Receiving.begin {handler : Callbacks} {world : ServerWorld}
    (receiving : Receiving handler world) :
    Receiving handler { world with
      session := (onMessageBegin .server world.session).session
      phase := .startLine
      events := world.events ++ (onMessageBegin .server world.session).events
      begun := world.begun ++ [world.session.nextStreamId] } where
  queue := by
    obtain ⟨removed, ids⟩ := receiving.queue
    refine ⟨removed, ?_⟩
    simp only [onMessageBegin, List.map_append, List.map_cons, List.map_nil]
    rw [← List.append_assoc, ids]
  context := ⟨{}, rfl⟩
  begun := fun _ => by simp
  hasBody := fun reading =>
    absurd (Phase.pastHead_of_body reading) (by decide : ¬Phase.pastHead .startLine)
  handedOver := fun past => absurd past (by decide : ¬Phase.pastHead .startLine)

/-- The application's calls keep the invariant. -/
theorem Receiving.sent {handler : Callbacks} {world : ServerWorld}
    (receiving : Receiving handler world) (result : SendResult) (answered : List UInt64)
    (through : SentThrough world.session result.session) (sends : OnlySends result.events) :
    Receiving handler { world with
      session := result.session, events := world.events ++ result.events, answered } where
  queue := through.ids.trans receiving.queue
  context := by
    show ContextFits world.phase result.session.parserContext
    rw [through.context]
    exact receiving.context
  begun := receiving.begun
  hasBody := by
    intro reading last found
    obtain ⟨earlier, there, same⟩ := through.last last found
    exact (congrArg ReceiveView.hasBody same).trans (receiving.hasBody reading earlier there)
  handedOver := by
    intro past listens
    show (requestIds (world.events ++ result.events)).getLast? = _
    rw [requestIds_append, sends.requestIds, List.append_nil]
    exact receiving.handedOver past listens

/-- The world after a callback with this result, when the parser goes on in this phase. -/
def ServerWorld.received (world : ServerWorld) (result : CallbackResult) (after : Phase) :
    ServerWorld :=
  { world with
    session := result.session, phase := after, events := world.events ++ result.events }

/-- For a callback with the shared checks it is enough to look at what follows them. -/
theorem Receiving.withContext {handler : Callbacks} {world : ServerWorld}
    (receiving : Receiving handler world) (started : world.phase ≠ .idle)
    (body : Stream → ParserContext → CallbackResult) (after : Int → Phase)
    (stops : after (-1) = .stopped)
    (passes : ∀ stream context, activeStream .server world.session.streams = some stream →
      world.session.parserContext = some context →
      Receiving handler (world.received (body stream context) (after (body stream context).code))) :
    Receiving handler (world.received (withContext .server world.session body)
      (after (withContext .server world.session body).code)) := by
  rcases withContext_cases .server world.session body with
    refused | ⟨stream, context, active, present, passed⟩
  · rw [refused]
    show Receiving handler (world.received (refuse world.session) (after (-1)))
    rw [stops]
    exact receiving.refused started
  · rw [passed]
    exact passes stream context active present

theorem Receiving.headComplete {handler : Callbacks} {world : ServerWorld}
    (receiving : Receiving handler world) (started : world.phase ≠ .idle) (parser : Parser) :
    let result := onHeadersComplete .server handler world.session parser
    Receiving handler (world.received result
      (if result.code = 0 then .body else if result.code = 1 ∨ result.code = 2 then .noBody
        else .stopped)) := by
  refine receiving.withContext started _
    (fun code => if code = 0 then .body else if code = 1 ∨ code = 2 then .noBody else .stopped)
    rfl fun stream context active present => ?_
  cases makeVersion parser.httpMajor parser.httpMinor with
  | none => exact receiving.refused started
  | some version =>
    have kept := onRequestHead_queueKept handler parser world.session stream context version active
    have given := getLast?_begun _ _ receiving.queue stream active
    refine receiving.proceed started _ _ kept ?_ ?_ ?_
    · -- whichever way the head ends, the collected lines were moved out of the context
      dsimp only
      split
      · exact ⟨_, rfl, rfl⟩
      · split
        · exact ⟨_, rfl, rfl⟩
        · trivial
    · intro reading last found
      have lastStream := activeStream_setActiveStream .server world.session.streams
      simp only [onRequestHead] at found reading ⊢
      obtain rfl := Option.some.inj ((lastStream _).symm.trans found)
      by_contra noBody
      cases upgrade : parser.upgrade <;> simp_all
    · intro _ listens
      simp [onRequestHead, raise, listens, requestIds, given]

theorem addField_ne_nil (headers : List (Bytes × Bytes)) (piece : Bytes) :
    addField headers piece ≠ [] := by
  unfold addField
  split
  · simp
  · split <;> simp

/-- A piece of a name, in the head or in the trailer section. -/
theorem Receiving.field {handler : Callbacks} {world : ServerWorld}
    (receiving : Receiving handler world) (started : world.phase ≠ .idle) (piece : Bytes)
    (lines : Phase) (place : lines = .headerLines ∨
      (world.phase = .body ∨ world.phase = .trailerLines) ∧ lines = .trailerLines) :
    let result := onHeaderField .server world.session piece
    Receiving handler (world.received result (lines.proceed result.code)) := by
  refine receiving.withContext started _ lines.proceed rfl fun stream context active present => ?_
  refine receiving.proceed started _ _ ⟨rfl, rfl, rfl⟩ ?_ ?_ ?_
  · have collected : ∃ current : ParserContext,
        some { context with headers := addField context.headers piece } = some current ∧
          current.headers ≠ [] := ⟨_, rfl, addField_ne_nil _ _⟩
    rcases place with rfl | ⟨-, rfl⟩
    · exact collected
    · exact collected
  · intro reading
    rcases place with rfl | ⟨inBody, rfl⟩
    · exact absurd (Phase.pastHead_of_body reading) (by decide : ¬Phase.pastHead .headerLines)
    · exact receiving.hasBody inBody
  · intro past listens
    rw [requestIds_append]
    show (requestIds world.events ++ []).getLast? = _
    rw [List.append_nil]
    rcases place with rfl | ⟨inBody, rfl⟩
    · exact absurd past (by decide : ¬Phase.pastHead .headerLines)
    · exact receiving.handedOver (Phase.pastHead_of_body inBody) listens

theorem addValue_of_ne_nil (headers : List (Bytes × Bytes)) (piece : Bytes)
    (nonempty : headers ≠ []) :
    ∃ longer, addValue headers piece = some longer ∧ longer ≠ [] := by
  unfold addValue
  rw [List.getLast?_eq_some_getLast nonempty]
  exact ⟨_, rfl, by simp⟩

/-- A piece of a value, in the head or in the trailer section. -/
theorem Receiving.value {handler : Callbacks} {world : ServerWorld}
    (receiving : Receiving handler world) (piece : Bytes)
    (place : world.phase = .headerLines ∨ world.phase = .trailerLines) :
    let result := onHeaderValue .server world.session piece
    Receiving handler (world.received result (world.phase.proceed result.code)) := by
  have started : world.phase ≠ .idle := by
    rcases place with found | found <;> rw [found] <;> decide
  have collected : ∃ current, world.session.parserContext = some current ∧
      current.headers ≠ [] := by
    have fits := receiving.context
    rcases place with found | found <;> rwa [found] at fits
  refine receiving.withContext started _ world.phase.proceed rfl
    fun stream context active present => ?_
  obtain ⟨current, there, nonempty⟩ := collected
  obtain rfl := Option.some.inj (present.symm.trans there)
  obtain ⟨longer, added, stillNonempty⟩ := addValue_of_ne_nil context.headers piece nonempty
  rw [added]
  refine receiving.proceed started _ _ ⟨rfl, rfl, rfl⟩ ?_ receiving.hasBody ?_
  · show ContextFits world.phase (some { context with headers := longer })
    rcases place with found | found <;> rw [found] <;> exact ⟨_, rfl, stillNonempty⟩
  · intro past listens
    show (requestIds (world.events ++ [])).getLast? = _
    rw [List.append_nil]
    exact receiving.handedOver past listens

theorem Receiving.bodyChunk {handler : Callbacks} {world : ServerWorld}
    (receiving : Receiving handler world) (inBody : world.phase = .body) (chunk : Bytes) :
    let result := onBody .server handler world.session chunk
    Receiving handler (world.received result (Phase.proceed .body result.code)) := by
  have started : world.phase ≠ .idle := by
    rw [inBody]
    decide
  have kept := onBody_queueKept .server handler world.session chunk
  unfold onBody at kept ⊢
  cases active : activeStream .server world.session.streams with
  | none => exact receiving.refused started
  | some stream =>
    rw [active] at kept
    refine receiving.proceed started _ _ kept ?_ ?_ ?_
    · have fits := receiving.context
      rw [inBody] at fits
      exact fits
    · intro _ last found
      have lastStream := activeStream_setActiveStream .server world.session.streams
      obtain rfl := Option.some.inj ((lastStream _).symm.trans found)
      exact receiving.hasBody (Or.inl inBody) stream active
    · intro _ listens
      have none : requestIds (raise handler.onBody (.body stream.id chunk)) = [] := by
        cases handler.onBody <;> rfl
      rw [requestIds_append, none, List.append_nil]
      exact receiving.handedOver (Or.inl inBody) listens

/-- The invariant between two messages asks for the queue only. -/
theorem Receiving.idle {handler : Callbacks} {world : ServerWorld}
    (receiving : Receiving handler world) (session : Session) (events : List Event)
    (ids : session.streams.map Stream.id = world.session.streams.map Stream.id) :
    Receiving handler { world with session, events, phase := .idle } := by
  refine ⟨?_, trivial, fun started => absurd rfl started, ?_, ?_⟩
  · rw [ids]
    exact receiving.queue
  · exact fun reading => absurd (Phase.pastHead_of_body reading) (by decide : ¬Phase.pastHead .idle)
  · exact fun past => absurd past (by decide : ¬Phase.pastHead .idle)

theorem Receiving.complete {handler : Callbacks} {world : ServerWorld}
    (receiving : Receiving handler world) (started : world.phase ≠ .idle) :
    let result := onMessageComplete .server handler world.session
    Receiving handler (world.received result (Phase.proceed .idle result.code)) := by
  have kept := onMessageComplete_queueKept handler world.session
  cases active : activeStream .server world.session.streams with
  | none =>
    have refused : onMessageComplete .server handler world.session = refuse world.session := by
      unfold onMessageComplete
      rw [active]
    rw [refused]
    exact receiving.refused started
  | some stream =>
    have handled : (onMessageComplete .server handler world.session).code = 0 := by
      unfold onMessageComplete
      rw [active]
      simp
    dsimp only
    rw [handled]
    exact receiving.idle _ _ kept.ids

/-- Every callback the parser may make keeps the invariant. -/
theorem Receiving.callback {handler : Callbacks} {world : ServerWorld}
    (receiving : Receiving handler world) (callback : Callback) (after : Phase)
    (allowed : world.phase.next callback (onCallback .server handler world.session callback).code =
      some after) :
    Receiving handler { world with
      session := (onCallback .server handler world.session callback).session
      phase := after
      events := world.events ++ (onCallback .server handler world.session callback).events
      begun := begunAfter world.session world.begun callback } := by
  have started : callback ≠ .messageBegin → world.phase ≠ .idle := by
    intro other idle
    rw [idle] at allowed
    cases callback <;> simp_all [Phase.next]
  cases callback with
  | messageBegin =>
    obtain ⟨-, rfl⟩ := Phase.next_messageBegin allowed
    exact receiving.begin
  | url piece =>
    obtain ⟨-, rfl⟩ := Phase.next_url allowed
    refine receiving.withContext (started Callback.noConfusion) _ (Phase.proceed .startLine) rfl
      fun stream context active present => ?_
    exact receiving.proceedOutside (started Callback.noConfusion) _ _ ⟨rfl, rfl, rfl⟩ ⟨_, rfl⟩
      (by decide : ¬Phase.pastHead .startLine)
  | status piece =>
    obtain ⟨-, rfl⟩ := Phase.next_status allowed
    exact receiving.refused (started Callback.noConfusion)
  | headerField piece =>
    rcases Phase.next_headerField allowed with ⟨-, rfl⟩ | ⟨inBody, rfl⟩
    · exact receiving.field (started Callback.noConfusion) piece .headerLines (Or.inl rfl)
    · exact receiving.field (started Callback.noConfusion) piece .trailerLines (Or.inr ⟨inBody, rfl⟩)
  | headerValue piece =>
    obtain ⟨place, rfl⟩ := Phase.next_headerValue allowed
    exact receiving.value piece place
  | headersComplete parser =>
    obtain ⟨-, rfl⟩ := Phase.next_headersComplete allowed
    exact receiving.headComplete (started Callback.noConfusion) parser
  | body chunk =>
    obtain ⟨inBody, rfl⟩ := Phase.next_body allowed
    exact receiving.bodyChunk inBody chunk
  | messageComplete =>
    obtain ⟨-, rfl⟩ := Phase.next_messageComplete allowed
    exact receiving.complete (started Callback.noConfusion)

theorem serverStep_receiving (handler : Callbacks) (world : ServerWorld) (input : ServerInput)
    (next : ServerWorld) (receiving : Receiving handler world)
    (stepped : serverStep handler world input = some next) : Receiving handler next := by
  rcases serverStep_cases handler world next input stepped with
    ⟨callback, after, -, allowed, rfl⟩ | ⟨-, rfl⟩ | ⟨result, answered, -, through, sends, -, rfl⟩
  · exact receiving.callback callback after allowed
  · exact receiving.idle _ _ rfl
  · exact receiving.sent result answered through sends

theorem serverRun_receiving (handler : Callbacks) (inputs : List ServerInput) (world : ServerWorld)
    (reached : run (serverStep handler) {} inputs = some world) : Receiving handler world :=
  run_invariant (fun state input next => serverStep_receiving handler state input next)
    (Receiving.initial handler) reached

/-! ### Answering while a request is still received -/

/-- What a callback after the head of a request reports for the stream with this id. -/
def tailEvents (handler : Callbacks) (streamId : UInt32) (hasBody : Bool)
    (headers : List (Bytes × Bytes)) : Callback → List Event
  | .body chunk => raise handler.onBody (.body streamId chunk)
  | .messageComplete =>
    if hasBody then
      (if headers = [] then []
        else raise handler.onTrailerHeaders (.trailerHeaders streamId (takeHeaders headers))) ++
        raise handler.onBodyFinished (.bodyFinished streamId)
    else []
  | _ => []

/-- On a session with a stream and a context, a callback after the head is handled and reports
under the id of the last stream. -/
theorem onCallback_tail (handler : Callbacks) (session : Session) (phase after : Phase)
    (callback : Callback) (past : phase.pastHead) (allowed : phase.next callback 0 = some after)
    (last : Stream) (active : activeStream .server session.streams = some last)
    (context : ParserContext) (present : session.parserContext = some context)
    (collected : phase = .trailerLines → context.headers ≠ []) :
    (onCallback .server handler session callback).code = 0 ∧
      (onCallback .server handler session callback).events =
        tailEvents handler last.id last.flags.hasBody context.headers callback := by
  cases callback with
  | messageBegin =>
    obtain ⟨rfl, -⟩ := Phase.next_messageBegin allowed
    exact absurd past (by decide)
  | url piece =>
    obtain ⟨rfl, -⟩ := Phase.next_url allowed
    exact absurd past (by decide)
  | status piece =>
    obtain ⟨rfl, -⟩ := Phase.next_status allowed
    exact absurd past (by decide)
  | headersComplete parser =>
    obtain ⟨rfl | rfl, -⟩ := Phase.next_headersComplete allowed
    · exact absurd past (by decide)
    · exact absurd past (by decide)
  | headerField piece =>
    simp only [onCallback, onHeaderField]
    rw [withContext_of_active .server session last context _ active present]
    exact ⟨rfl, rfl⟩
  | headerValue piece =>
    have inTrailer : phase = .trailerLines := by
      rcases (Phase.next_headerValue allowed).1 with rfl | trailer
      · exact absurd past (by decide)
      · exact trailer
    obtain ⟨longer, added, -⟩ := addValue_of_ne_nil context.headers piece (collected inTrailer)
    simp only [onCallback, onHeaderValue]
    rw [withContext_of_active .server session last context _ active present, added]
    exact ⟨rfl, rfl⟩
  | body chunk =>
    simp only [onCallback, onBody, active]
    exact ⟨trivial, rfl⟩
  | messageComplete =>
    simp only [onCallback, onMessageComplete, active, finishBody, present, tailEvents, reduceCtorEq,
      false_and, if_false, true_and]
    cases last.flags.hasBody with
    | false => rfl
    | true =>
      cases handler.onTrailerHeaders <;> by_cases empty : context.headers = [] <;>
        simp [raise, empty]

theorem onCallback_tail_refused (handler : Callbacks) (session : Session) (callback : Callback)
    (other : callback ≠ .messageBegin) (gone : session.streams = []) :
    onCallback .server handler session callback = refuse session := by
  have noStream : activeStream .server session.streams = none := by
    rw [gone]
    rfl
  cases callback with
  | messageBegin => exact absurd rfl other
  | status piece => rfl
  | _ =>
    simp only [onCallback, onUrl, onHeaderField, onHeaderValue, onHeadersComplete, onBody,
      onMessageComplete, withContext, noStream]

/-- In every run of a server, whatever the application sends and when: after the head of a
request was handed over, each callback of that request is handled with 0 and reported under
the request's own id as long as its stream is pending; once its answer was completed and the
stream removed, each is refused and reports nothing. -/
theorem serverRun_tail_handled (handler : Callbacks) (inputs : List ServerInput)
    (world : ServerWorld) (reached : run (serverStep handler) {} inputs = some world)
    (past : world.phase.pastHead) (callback : Callback) (after : Phase)
    (allowed : world.phase.next callback 0 = some after) :
    ∃ current, world.begun.getLast? = some current ∧
      (handler.onRequest = true → (requestIds world.events).getLast? = some current) ∧
      if world.session.streams = [] then
        onCallback .server handler world.session callback = refuse world.session
      else
        ∃ before last context, world.session.streams = before ++ [last] ∧ last.id = current ∧
          world.session.parserContext = some context ∧
          (world.phase = .body → last.flags.hasBody = true ∧ context.headers = []) ∧
          (world.phase = .trailerLines → last.flags.hasBody = true ∧ context.headers ≠ []) ∧
          (onCallback .server handler world.session callback).code = 0 ∧
          (onCallback .server handler world.session callback).events =
            tailEvents handler current last.flags.hasBody context.headers callback := by
  have receiving := serverRun_receiving handler inputs world reached
  have started : world.phase ≠ .idle := by
    rcases past with found | found | found <;> rw [found] <;> decide
  obtain ⟨context, present, bodyEmpty, trailerFilled⟩ : ∃ context,
      world.session.parserContext = some context ∧
      (world.phase = .body → context.headers = []) ∧
      (world.phase = .trailerLines → context.headers ≠ []) := by
    have fits := receiving.context
    rcases past with found | found | found <;> rw [found] at fits ⊢ <;>
      obtain ⟨context, present, collected⟩ := fits
    · exact ⟨context, present, fun _ => collected, nofun⟩
    · exact ⟨context, present, nofun, fun _ => collected⟩
    · exact ⟨context, present, nofun, nofun⟩
  have given := List.getLast?_eq_some_getLast (receiving.begun started)
  refine ⟨_, given, fun listens => (receiving.handedOver past listens).trans given, ?_⟩
  split
  · rename_i gone
    refine onCallback_tail_refused handler world.session callback ?_ gone
    rintro rfl
    exact started (Phase.next_messageBegin allowed).1
  · rename_i pending
    obtain ⟨before, last, streams⟩ := List.eq_nil_or_concat world.session.streams
      |>.resolve_left pending
    rw [List.concat_eq_append] at streams
    have active : activeStream .server world.session.streams = some last := by
      rw [streams]
      exact List.getLast?_concat
    have ownId : last.id = world.begun.getLast (receiving.begun started) := by
      have found := getLast?_begun _ _ receiving.queue last active
      exact Option.some.inj (found.symm.trans given)
    obtain ⟨handled, reported⟩ := onCallback_tail handler world.session world.phase after callback
      past allowed last active context present trailerFilled
    rw [ownId] at reported
    exact ⟨before, last, context, streams, ownId, present,
      fun inBody => ⟨receiving.hasBody (Or.inl inBody) last active, bodyEmpty inBody⟩,
      fun inTrailer => ⟨receiving.hasBody (Or.inr inTrailer) last active, trailerFilled inTrailer⟩,
      handled, reported⟩

/-- A request that announces four bytes and is answered before they arrive. -/
def earlyRequest : List ServerInput :=
  [.callback .messageBegin, .callback (.url (ascii "/")),
    .callback (.headerField (ascii "Content-Length")), .callback (.headerValue (ascii "4")),
    .callback (.headersComplete
      { method := ascii "POST", flagContentLength := true, contentLength := 4 })]

theorem serverRun_tail_handled_pending :
    ∃ world, run (serverStep {}) {} earlyRequest = some world ∧ world.phase.pastHead ∧
      (onCallback .server {} world.session (.body (ascii "data"))).code = 0 := by
  refine ⟨_, rfl, Or.inl rfl, ?_⟩
  obtain ⟨current, -, -, outcome⟩ := serverRun_tail_handled {} earlyRequest _ rfl (Or.inl rfl)
    (.body (ascii "data")) .body rfl
  rw [if_neg (by decide)] at outcome
  obtain ⟨before, last, context, -, -, -, -, -, handled, -⟩ := outcome
  exact handled

/-- The answer 413 without a content length finishes the stream, and the body is refused. -/
theorem earlyAnswer_refused :
    ∃ world, run (serverStep {}) {}
        (earlyRequest ++ [.sendResponse 1 (Response.make http11 413)]) = some world ∧
      world.phase.next (.body (ascii "data")) 0 = some .body ∧
      (onCallback .server {} world.session (.body (ascii "data"))).code = -1 :=
  ⟨_, rfl, rfl, rfl⟩

end NativeLibs.Http1
