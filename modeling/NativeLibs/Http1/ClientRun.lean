/-
This file lets an HTTP/1 client run: the application sends requests, body chunks
and trailers with any arguments, and the parser makes the callbacks of the
responses in between. The world records the ids of the requests in the order
in which they were sent, how many final responses were received completely,
and under which ids the application was told of them.

A response is final when its status is 200 or more. The queue is then what is
left of the requests after one was taken off the front for each final response,
in every run in which no trailer ends a request: `send_trailer_impl` is shared
with the server, and at the end of a trailer it removes the stream.
-/

import NativeLibs.Http1.CallbackEffects
import NativeLibs.Http1.SendEffects
import NativeLibs.Library.Runs

namespace NativeLibs.Http1

open Http Library

/-! ### Runs of a client -/

/-- The ids under which responses were handed to the application. -/
def responseIds (events : List Event) : List UInt32 :=
  events.filterMap fun
    | .response streamId _ => some streamId
    | _ => none

/-- A client with what has happened so far. -/
structure ClientWorld where
  session : Session := {}
  phase : Phase := .idle
  /-- every handler call so far -/
  events : List Event := []
  /-- the ids of the requests sent -/
  sent : List UInt32 := []
  /-- the status of the last response head -/
  status : Nat := 0
  /-- the ids under which that head was handed over -/
  handed : List UInt32 := []
  /-- how many final responses were received completely -/
  finals : Nat := 0
  /-- the ids under which these were handed over -/
  answers : List UInt32 := []
  deriving DecidableEq

/-- One thing that may happen to a client. -/
inductive ClientInput where
  | callback (callback : Callback)
  | resetParser
  | sendRequest (request : Request)
  | sendBody (streamId : UInt64) (chunk : Bytes) (eof : Bool)
  | sendTrailer (streamId : UInt32) (headers : Headers) (eof : Bool)

/-- The world after a callback: a head is noted with its status, and the end of a message whose
status is final counts. -/
def ClientWorld.received (world : ClientWorld) (callback : Callback) (result : CallbackResult)
    (phase : Phase) : ClientWorld :=
  let next := { world with
    session := result.session, phase, events := world.events ++ result.events }
  match callback with
  | .headersComplete parser =>
    { next with status := parser.statusCode, handed := responseIds result.events }
  | .messageComplete =>
    if result.code = 0 ∧ 200 ≤ world.status then
      { next with finals := world.finals + 1, answers := world.answers ++ world.handed }
    else next
  | _ => next

/-- The world after a call of the application; a call with undefined behaviour has none. -/
def ClientWorld.afterCall (world : ClientWorld) (result : SendResult) : Option ClientWorld :=
  if result.status = .undefinedBehavior then none
  else some { world with session := result.session, events := world.events ++ result.events }

/-- One step of a client. -/
def clientStep (handler : Callbacks) (world : ClientWorld) : ClientInput → Option ClientWorld
  | .callback callback =>
    let result := onCallback .client handler world.session callback
    (world.phase.next callback result.code).map (world.received callback result)
  | .resetParser => some { world with session := resetParser world.session, phase := .idle }
  | .sendRequest request =>
    let (streamId, session, raised) := sendRequest handler world.session request
    some { world with session, events := world.events ++ raised, sent := world.sent ++ [streamId] }
  | .sendBody streamId chunk eof =>
    world.afterCall (Client.sendBody handler world.session streamId chunk eof)
  | .sendTrailer streamId headers eof =>
    world.afterCall (Client.sendTrailer handler world.session streamId headers eof)

/-- No trailer ends the request at the front of the queue. The condition is on the state before
the call. -/
def KeepsRequest (handler : Callbacks) (world : ClientWorld) : ClientInput → Prop
  | .sendTrailer streamId _ eof => ∀ front rest, world.session.streams = front :: rest →
      streamId = front.id → handler.onOutput = true → eof = false
  | _ => True

/-! ### The calls of the application -/

/-- A call that leaves what the callbacks see of the queue and finishes nothing. -/
structure ViewKept (session : Session) (result : SendResult) : Prop where
  defined : result.status ≠ .undefinedBehavior
  views : result.session.streams.map receiveView = session.streams.map receiveView
  unfinished : finishedIds result.events = []

theorem ViewKept.rejected (session : Session) (error : Http1Error) :
    ViewKept session (rejected session error) :=
  ⟨nofun, rfl, rfl⟩

theorem SentThrough.views {before after : Session} (sent : SentThrough before after)
    (ids : after.streams.map Stream.id = before.streams.map Stream.id) :
    after.streams.map receiveView = before.streams.map receiveView := by
  have length := congrArg List.length ids
  refine sent.queue.eq_of_length ?_
  rw [List.length_map, List.length_map] at length ⊢
  exact length

theorem sendBody_viewKept (handler : Callbacks) (session : Session) (streamId : UInt64)
    (chunk : Bytes) (eof : Bool) :
    ViewKept session (Client.sendBody handler session streamId chunk eof) := by
  rcases sendBodyImpl_named_or_refused .client handler session streamId chunk eof with
    ⟨stream, active, sameId⟩ | ⟨error, refused⟩
  · have through := sendBodyImpl_sentThrough .client handler session streamId chunk eof
    have written := writtenStream_id handler stream chunk eof
    have ids := map_id_setActiveStream .client session.streams stream
      (writtenStream handler stream chunk eof) active written
    rw [Client.sendBody]
    rw [sendBodyImpl_active .client handler session streamId chunk eof stream active sameId]
      at through ⊢
    refine ⟨nofun, through.views ?_, ?_⟩
    · simp only [settle]
      split
      · simp only [finishSending, setActiveStream_setActiveStream]
        exact map_id_setActiveStream .client session.streams stream _ active written
      · exact ids
    · simp only [settle]
      split <;> simp [finishSending]
  · rw [Client.sendBody, refused]
    exact ViewKept.rejected session error

theorem map_receiveView_id (streams : List Stream) :
    (streams.map receiveView).map ReceiveView.id = streams.map Stream.id := by
  rw [List.map_map]
  rfl

/-- A trailer call of a client that is not the end of the request, before the last chunk: the
body call it makes writes that chunk, and no stream is removed. -/
theorem sendTrailer_client_open (handler : Callbacks) (session : Session) (front : Stream)
    (rest : List Stream) (streams : session.streams = front :: rest) (headers : Headers)
    (writes : handler.onOutput = true) (lastChunk : front.flags.zeroChunkSent = false) :
    let result := sendTrailerImpl .client handler session front.id headers false
    result.status = .ok ∧
      result.session.streams.map Stream.id = session.streams.map Stream.id ∧
      finishedIds result.events = [] := by
  have body := sendBody_viewKept handler { session with streams := front.markLastChunk :: rest }
    front.id.toUInt64 [] false
  have accepted : (Client.sendBody handler
      { session with streams := front.markLastChunk :: rest } front.id.toUInt64 [] false).status =
        .ok := by
    have active := sendBodyImpl_active .client handler
      { session with streams := front.markLastChunk :: rest } front.id.toUInt64 [] false
      front.markLastChunk rfl rfl
    rw [Client.sendBody, active]
  have ids := congrArg (List.map ReceiveView.id) body.views
  rw [map_receiveView_id, map_receiveView_id] at ids
  have unfinished := body.unfinished
  rw [Client.sendBody] at accepted ids unfinished
  simp only [sendTrailerImpl, streams, ne_eq, not_true_eq_false, if_false, writes, if_true,
    lastChunk, Bool.false_eq_true, sendLastChunk, accepted, finishTrailer]
  refine ⟨trivial, ids, ?_⟩
  rw [finishedIds_append, finishedIds_append, unfinished]
  rfl

/-- Under the condition, a trailer call of a client removes no stream. -/
theorem sendTrailer_viewKept (handler : Callbacks) (session : Session) (streamId : UInt32)
    (headers : Headers) (eof : Bool)
    (keeps : ∀ front rest, session.streams = front :: rest → streamId = front.id →
      handler.onOutput = true → eof = false) :
    ViewKept session (Client.sendTrailer handler session streamId headers eof) := by
  have through := sendTrailerImpl_sentThrough .client handler session streamId headers eof
  rw [Client.sendTrailer]
  rcases sendTrailerImpl_named_or_refused .client handler session streamId headers eof with
    ⟨front, rest, streams, rfl⟩ | ⟨error, refused⟩
  · cases writes : handler.onOutput with
    | false =>
      obtain ⟨accepted, silent, ids⟩ :=
        sendTrailerImpl_silent handler session front rest streams headers eof .client writes
      exact ⟨by rw [accepted]; nofun, through.views ids, by rw [silent]; rfl⟩
    | true =>
      obtain rfl := keeps front rest streams rfl writes
      cases lastChunk : front.flags.zeroChunkSent with
      | true =>
        obtain ⟨accepted, outcome⟩ := sendTrailerImpl_afterLastChunk handler session front rest
          streams headers false .client writes lastChunk
        rw [if_neg Bool.false_ne_true] at outcome
        exact ⟨by rw [accepted]; nofun, through.views outcome.1, outcome.2⟩
      | false =>
        obtain ⟨accepted, ids, unfinished⟩ :=
          sendTrailer_client_open handler session front rest streams headers writes lastChunk
        exact ⟨by rw [accepted]; nofun, through.views ids, unfinished⟩
  · rw [refused]
    exact ViewKept.rejected session error

/-! ### What holds in every state of a run -/

/-- The requests of a client were answered in the order in which they were sent, and the queue
holds those that were not answered yet. -/
structure Answering (handler : Callbacks) (world : ClientWorld) : Prop where
  count : world.finals ≤ world.sent.length
  queue : world.session.streams.map Stream.id = world.sent.drop world.finals
  finished : finishedIds world.events =
    reports handler ((world.sent.take world.finals).map UInt32.toUInt64)
  answers : handler.onResponse = true → world.answers = world.sent.take world.finals
  /-- past a head, the front stream knows whether the response is final, and the application was
  told under its id -/
  head : world.phase.pastHead → ∃ front rest, world.session.streams = front :: rest ∧
    front.flags.intermediateResponse = decide (world.status < 200) ∧
    (handler.onResponse = true → world.handed = [front.id])

theorem Answering.initial (handler : Callbacks) : Answering handler {} := by
  refine ⟨le_rfl, rfl, ?_, fun _ => rfl, ?_⟩
  · unfold reports
    split <;> rfl
  · exact fun past => absurd past (by decide)

/-- One more element from a list of which a part was taken already. -/
theorem take_succ_of_drop {Element : Type*} (elements : List Element) (count : Nat)
    (first : Element) (rest : List Element) (left : elements.drop count = first :: rest) :
    elements.take (count + 1) = elements.take count ++ [first] ∧
      elements.drop (count + 1) = rest ∧ count + 1 ≤ elements.length := by
  have inside : count < elements.length := by
    by_contra outside
    rw [List.drop_eq_nil_of_le (not_lt.mp outside)] at left
    cases left
  rw [List.drop_eq_getElem_cons inside] at left
  obtain ⟨rfl, rfl⟩ := List.cons.inj left
  exact ⟨List.take_succ_eq_append_getElem inside, rfl, inside⟩

/-- The invariant after a step that sends no request and finishes no stream. -/
theorem Answering.kept {handler : Callbacks} {world : ClientWorld}
    (answering : Answering handler world) (next : ClientWorld) (raised : List Event)
    (ids : next.session.streams.map Stream.id = world.session.streams.map Stream.id)
    (events : next.events = world.events ++ raised) (unfinished : finishedIds raised = [])
    (sent : next.sent = world.sent) (finals : next.finals = world.finals)
    (answers : next.answers = world.answers)
    (head : next.phase.pastHead → ∃ front rest, next.session.streams = front :: rest ∧
      front.flags.intermediateResponse = decide (next.status < 200) ∧
      (handler.onResponse = true → next.handed = [front.id])) :
    Answering handler next := by
  refine ⟨?_, ?_, ?_, ?_, head⟩
  · rw [finals, sent]
    exact answering.count
  · rw [ids, sent, finals]
    exact answering.queue
  · rw [events, finishedIds_append, unfinished, List.append_nil, sent, finals]
    exact answering.finished
  · rw [answers, sent, finals]
    exact answering.answers

/-- A call that keeps what the callbacks see keeps the invariant. -/
theorem Answering.sent {handler : Callbacks} {world : ClientWorld}
    (answering : Answering handler world) (result : SendResult)
    (kept : ViewKept world.session result) :
    Answering handler { world with
      session := result.session, events := world.events ++ result.events } := by
  have ids := congrArg (List.map ReceiveView.id) kept.views
  rw [map_receiveView_id, map_receiveView_id] at ids
  refine answering.kept _ result.events ids rfl kept.unfinished rfl rfl rfl fun past => ?_
  obtain ⟨front, rest, streams, flag, handed⟩ := answering.head past
  have views := kept.views
  rw [streams, List.map_cons] at views
  obtain ⟨first, others, now, same, -⟩ := List.map_eq_cons_iff.mp views
  refine ⟨first, others, now, ?_, fun listens => ?_⟩
  · exact (congrArg ReceiveView.intermediateResponse same).trans flag
  · rw [handed listens, show first.id = front.id from congrArg ReceiveView.id same]

theorem Answering.request {handler : Callbacks} {world : ClientWorld}
    (answering : Answering handler world) (request : Request) :
    let (streamId, session, raised) := sendRequest handler world.session request
    Answering handler { world with
      session, events := world.events ++ raised, sent := world.sent ++ [streamId] } := by
  have count := answering.count
  refine ⟨?_, ?_, ?_, ?_, ?_⟩
  · rw [List.length_append]
    exact Nat.le_add_right_of_le count
  · show List.map Stream.id (world.session.streams ++ [_]) = _
    rw [List.map_append, answering.queue, List.drop_append_of_le_length count]
    rfl
  · show finishedIds (world.events ++ raise handler.onOutput (.output request.str)) = _
    rw [finishedIds_append, finishedIds_raise_output, List.append_nil,
      List.take_append_of_le_length count]
    exact answering.finished
  · rw [List.take_append_of_le_length count]
    exact answering.answers
  · intro past
    obtain ⟨front, rest, streams, flag, handed⟩ := answering.head past
    exact ⟨front, _, congrArg (fun queue => queue ++ _) streams, flag, handed⟩

/-! ### The callbacks -/

/-- A callback after which no head is pending keeps the invariant, if it keeps the queue. -/
theorem Answering.outside {handler : Callbacks} {world : ClientWorld}
    (answering : Answering handler world) (session : Session) (phase : Phase)
    (raised : List Event) (status : Nat) (handed : List UInt32)
    (ids : session.streams.map Stream.id = world.session.streams.map Stream.id)
    (unfinished : finishedIds raised = []) (outside : ¬phase.pastHead) :
    Answering handler { world with
      session, phase, events := world.events ++ raised, status, handed } :=
  answering.kept _ raised ids rfl unfinished rfl rfl rfl fun past => absurd past outside

/-- The head of a response is complete: the front stream is told whether it is final. -/
theorem Answering.headComplete {handler : Callbacks} {world : ClientWorld}
    (answering : Answering handler world) (parser : Parser) (phase : Phase)
    (past : phase.pastHead → (onHeadersComplete .client handler world.session parser).code ≠ -1) :
    let result := onHeadersComplete .client handler world.session parser
    Answering handler (world.received (.headersComplete parser) result phase) := by
  have kept := onHeadersComplete_queueKept .client handler world.session parser
  refine answering.kept _ _ kept.ids rfl kept.unfinished rfl rfl rfl fun after => ?_
  have accepted := past after
  simp only [ClientWorld.received]
  unfold onHeadersComplete at accepted ⊢
  rcases withContext_cases .client world.session _ with
    refused | ⟨stream, context, active, present, passed⟩
  · rw [refused] at accepted
    exact absurd rfl accepted
  · rw [passed] at accepted ⊢
    cases version : makeVersion parser.httpMajor parser.httpMinor with
    | none =>
      rw [version] at accepted
      exact absurd rfl accepted
    | some known =>
      refine ⟨_, world.session.streams.tail, rfl, rfl, fun listens => ?_⟩
      simp [onResponseHead, raise, listens, responseIds]

/-- The end of a response: with a final one the front stream is removed and reported. -/
theorem onMessageComplete_client (handler : Callbacks) (session : Session) (front : Stream)
    (rest : List Stream) (streams : session.streams = front :: rest) :
    let result := onMessageComplete .client handler session
    result.code = 0 ∧
      if front.flags.intermediateResponse then
        result.session.streams = session.streams ∧ finishedIds result.events = []
      else
        result.session.streams = rest ∧
          finishedIds result.events = reports handler [front.id.toUInt64] := by
  have active : activeStream .client session.streams = some front := by
    rw [streams]
    rfl
  obtain ⟨same, -, unfinished⟩ := finishBody_kept handler session front
  simp only [onMessageComplete, active]
  cases front.flags.intermediateResponse with
  | true =>
    simp only [Bool.true_eq_false, and_false, if_false, if_true]
    exact ⟨trivial, same, unfinished⟩
  | false =>
    simp only [and_self, if_true, Bool.false_eq_true, if_false]
    refine ⟨trivial, ?_, ?_⟩
    · rw [same, streams]
      rfl
    · rw [finishedIds_append, unfinished, finishedIds_raise_finished, List.nil_append]

/-- Past a head the end of a response is handled, and takes the front stream off the queue
exactly when its status is final. -/
theorem Answering.messageComplete {handler : Callbacks} {world : ClientWorld}
    (answering : Answering handler world) (past : world.phase.pastHead) :
    let result := onMessageComplete .client handler world.session
    ∃ front rest, world.session.streams = front :: rest ∧
      (handler.onResponse = true → world.handed = [front.id]) ∧ result.code = 0 ∧
      if 200 ≤ world.status then
        result.session.streams = rest ∧
          finishedIds result.events = reports handler [front.id.toUInt64]
      else result.session.streams = world.session.streams ∧ finishedIds result.events = [] := by
  obtain ⟨front, rest, streams, flag, handed⟩ := answering.head past
  obtain ⟨handled, outcome⟩ := onMessageComplete_client handler world.session front rest streams
  refine ⟨front, rest, streams, handed, handled, ?_⟩
  by_cases final : 200 ≤ world.status
  · rw [flag, decide_eq_false (not_lt.mpr final), if_neg Bool.false_ne_true] at outcome
    rw [if_pos final]
    exact outcome
  · rw [flag, decide_eq_true (not_le.mp final), if_pos rfl] at outcome
    rw [if_neg final]
    exact outcome

theorem Answering.complete {handler : Callbacks} {world : ClientWorld}
    (answering : Answering handler world) (past : world.phase.pastHead) :
    let result := onMessageComplete .client handler world.session
    Answering handler (world.received .messageComplete result (Phase.proceed .idle result.code)) :=
    by
  obtain ⟨front, rest, streams, handed, handled, outcome⟩ := answering.messageComplete past
  have outside : ¬Phase.pastHead (Phase.proceed .idle 0) := by decide
  simp only [ClientWorld.received]
  rw [handled]
  by_cases final : 200 ≤ world.status
  · rw [if_pos ⟨rfl, final⟩]
    rw [if_pos final] at outcome
    obtain ⟨removed, reported⟩ := outcome
    have left := answering.queue
    rw [streams, List.map_cons] at left
    obtain ⟨taken, remaining, count⟩ := take_succ_of_drop _ _ _ _ left.symm
    refine ⟨count, ?_, ?_, fun listens => ?_, fun after => absurd after outside⟩
    · rw [removed]
      exact remaining.symm
    · rw [finishedIds_append, answering.finished, reported, taken, List.map_append]
      unfold reports
      split <;> rfl
    · rw [answering.answers listens, handed listens]
      exact taken.symm
  · rw [if_neg fun both => final both.2]
    rw [if_neg final] at outcome
    exact answering.outside _ _ _ world.status world.handed
      (congrArg (List.map Stream.id) outcome.1) outcome.2 outside

theorem not_pastHead_proceed (phase : Phase) (code : Int) (outside : ¬phase.pastHead) :
    ¬(phase.proceed code).pastHead := by
  unfold Phase.proceed
  split
  · exact outside
  · decide

theorem onHeaderField_streams (side : Side) (session : Session) (piece : Bytes) :
    (onHeaderField side session piece).session.streams = session.streams := by
  unfold onHeaderField
  rcases withContext_cases side session _ with refused | ⟨stream, context, -, -, passed⟩
  · rw [refused]
    rfl
  · rw [passed]

theorem onHeaderValue_streams (side : Side) (session : Session) (piece : Bytes) :
    (onHeaderValue side session piece).session.streams = session.streams := by
  unfold onHeaderValue
  rcases withContext_cases side session _ with refused | ⟨stream, context, -, -, passed⟩
  · rw [refused]
    rfl
  · rw [passed]
    split <;> rfl

/-- A callback that leaves the streams alone keeps what is known past a head. -/
theorem Answering.sameStreams {handler : Callbacks} {world : ClientWorld}
    (answering : Answering handler world) (session : Session) (phase : Phase)
    (raised : List Event) (streams : session.streams = world.session.streams)
    (unfinished : finishedIds raised = []) (past : world.phase.pastHead) :
    Answering handler { world with session, phase, events := world.events ++ raised } := by
  refine answering.kept _ raised (congrArg (List.map Stream.id) streams) rfl unfinished rfl rfl
    rfl fun _ => ?_
  obtain ⟨front, rest, before, known⟩ := answering.head past
  exact ⟨front, rest, streams.trans before, known⟩

/-- A piece of the body of a response. -/
theorem Answering.bodyChunk {handler : Callbacks} {world : ClientWorld}
    (answering : Answering handler world) (past : world.phase.pastHead) (chunk : Bytes)
    (phase : Phase) :
    Answering handler (world.received (.body chunk) (onBody .client handler world.session chunk)
      phase) := by
  have kept := onBody_queueKept .client handler world.session chunk
  refine answering.kept _ _ kept.ids rfl kept.unfinished rfl rfl rfl fun _ => ?_
  obtain ⟨front, rest, streams, flag, handed⟩ := answering.head past
  have active : activeStream .client world.session.streams = some front := by
    rw [streams]
    rfl
  simp only [ClientWorld.received, onBody, active]
  exact ⟨_, _, rfl, flag, handed⟩

/-- Every callback the parser may make keeps the invariant. -/
theorem Answering.callback {handler : Callbacks} {world : ClientWorld}
    (answering : Answering handler world) (callback : Callback) (after : Phase)
    (allowed : world.phase.next callback (onCallback .client handler world.session callback).code =
      some after) :
    Answering handler
      (world.received callback (onCallback .client handler world.session callback) after) := by
  have kept := fun closes => onCallback_queueKept .client handler world.session callback nofun closes
  have startLine : ¬Phase.pastHead .startLine := by decide
  have headerLines : ¬Phase.pastHead .headerLines := by decide
  cases callback with
  | messageBegin =>
    obtain ⟨-, rfl⟩ := Phase.next_messageBegin allowed
    exact answering.outside _ _ _ _ _ (kept nofun).ids (kept nofun).unfinished
      (not_pastHead_proceed _ _ startLine)
  | url piece =>
    obtain ⟨-, rfl⟩ := Phase.next_url allowed
    exact answering.outside _ _ _ _ _ (kept nofun).ids (kept nofun).unfinished
      (not_pastHead_proceed _ _ startLine)
  | status piece =>
    obtain ⟨-, rfl⟩ := Phase.next_status allowed
    exact answering.outside _ _ _ _ _ (kept nofun).ids (kept nofun).unfinished
      (not_pastHead_proceed _ _ startLine)
  | headerField piece =>
    rcases Phase.next_headerField allowed with ⟨-, rfl⟩ | ⟨inBody, rfl⟩
    · exact answering.outside _ _ _ _ _ (kept nofun).ids (kept nofun).unfinished
        (not_pastHead_proceed _ _ headerLines)
    · exact answering.sameStreams _ _ _ (onHeaderField_streams .client _ piece)
        (kept nofun).unfinished (Phase.pastHead_of_body inBody)
  | headerValue piece =>
    obtain ⟨inHead | inTrailer, rfl⟩ := Phase.next_headerValue allowed
    · refine answering.outside _ _ _ _ _ (kept nofun).ids (kept nofun).unfinished
        (not_pastHead_proceed _ _ ?_)
      rw [inHead]
      exact headerLines
    · exact answering.sameStreams _ _ _ (onHeaderValue_streams .client _ piece)
        (kept nofun).unfinished (Or.inr (Or.inl inTrailer))
  | headersComplete parser =>
    obtain ⟨-, rfl⟩ := Phase.next_headersComplete allowed
    refine answering.headComplete parser _ fun past refused => ?_
    have stopped : ¬Phase.pastHead .stopped := by decide
    have code : (onCallback .client handler world.session (.headersComplete parser)).code = -1 :=
      refused
    rw [code] at past
    exact stopped past
  | body chunk =>
    obtain ⟨inBody, rfl⟩ := Phase.next_body allowed
    exact answering.bodyChunk (Or.inl inBody) chunk _
  | messageComplete =>
    obtain ⟨past, rfl⟩ := Phase.next_messageComplete allowed
    exact answering.complete past

/-! ### Answers in the order of the requests -/

/-- A step that removes no stream and finishes none, or that is the end of a final response,
removes the front stream and reports it. -/
def FinishesAnswered (handler : Callbacks) (world : ClientWorld) (input : ClientInput)
    (next : ClientWorld) : Prop :=
  ∃ raised, next.events = world.events ++ raised ∧
    ((finishedIds raised = [] ∧ next.finals = world.finals ∧
        world.session.streams.map Stream.id <+: next.session.streams.map Stream.id) ∨
      (input = .callback .messageComplete ∧ 200 ≤ world.status ∧
        next.finals = world.finals + 1 ∧
        ∃ front rest, world.session.streams = front :: rest ∧ next.session.streams = rest ∧
          finishedIds raised = reports handler [front.id.toUInt64]))

theorem received_finishesAnswered (handler : Callbacks) (world : ClientWorld)
    (callback : Callback) (phase : Phase) (other : callback ≠ .messageComplete) :
    FinishesAnswered handler world (.callback callback)
      (world.received callback (onCallback .client handler world.session callback) phase) := by
  have kept := onCallback_queueKept .client handler world.session callback nofun fun _ => other
  refine ⟨(onCallback .client handler world.session callback).events, ?_,
    Or.inl ⟨kept.unfinished, ?_, ?_⟩⟩
  · cases callback <;> first | rfl | exact absurd rfl other
  · cases callback <;> first | rfl | exact absurd rfl other
  · rw [← kept.ids]
    cases callback <;> first | exact List.prefix_rfl | exact absurd rfl other

theorem complete_finishesAnswered (handler : Callbacks) (world : ClientWorld)
    (answering : Answering handler world) (past : world.phase.pastHead) (phase : Phase) :
    FinishesAnswered handler world (.callback .messageComplete)
      (world.received .messageComplete (onMessageComplete .client handler world.session) phase) := by
  obtain ⟨front, rest, streams, -, handled, outcome⟩ := answering.messageComplete past
  refine ⟨(onMessageComplete .client handler world.session).events, ?_, ?_⟩
  · simp only [ClientWorld.received]
    split <;> rfl
  · simp only [ClientWorld.received]
    by_cases final : 200 ≤ world.status
    · rw [if_pos ⟨handled, final⟩]
      rw [if_pos final] at outcome
      exact Or.inr ⟨trivial, final, rfl, front, rest, streams, outcome⟩
    · rw [if_neg fun both => final both.2]
      rw [if_neg final] at outcome
      refine Or.inl ⟨outcome.2, rfl, ?_⟩
      rw [outcome.1]

/-- One step of a client, under the condition. -/
theorem clientStep_answering (handler : Callbacks) (world : ClientWorld) (input : ClientInput)
    (answering : Answering handler world) (keeps : KeepsRequest handler world input) :
    ((∀ callback, input ≠ .callback callback) → (clientStep handler world input).isSome = true) ∧
      ∀ next, clientStep handler world input = some next →
        Answering handler next ∧ FinishesAnswered handler world input next := by
  -- A call that keeps what the callbacks see: its next state, the invariant, and no removal.
  have called : ∀ result, ViewKept world.session result →
      (world.afterCall result).isSome = true ∧ ∀ next, world.afterCall result = some next →
        Answering handler next ∧ FinishesAnswered handler world input next := by
    intro result kept
    unfold ClientWorld.afterCall
    rw [if_neg kept.defined]
    refine ⟨rfl, ?_⟩
    rintro _ ⟨⟩
    have ids := congrArg (List.map ReceiveView.id) kept.views
    rw [map_receiveView_id, map_receiveView_id] at ids
    refine ⟨answering.sent result kept, result.events, rfl, Or.inl ⟨kept.unfinished, rfl, ?_⟩⟩
    rw [ids]
  cases input with
  | callback callback =>
    refine ⟨fun call => absurd rfl (call callback), fun next stepped => ?_⟩
    obtain ⟨phase, allowed, rfl⟩ := Option.map_eq_some_iff.mp stepped
    refine ⟨answering.callback callback phase allowed, ?_⟩
    by_cases other : callback = .messageComplete
    · subst other
      obtain ⟨past, -⟩ := Phase.next_messageComplete allowed
      exact complete_finishesAnswered handler world answering past phase
    · exact received_finishesAnswered handler world callback phase other
  | resetParser =>
    refine ⟨fun _ => rfl, ?_⟩
    rintro _ ⟨⟩
    refine ⟨?_, [], (List.append_nil _).symm, Or.inl ⟨rfl, rfl, List.prefix_rfl⟩⟩
    exact answering.kept _ [] rfl (List.append_nil _).symm rfl rfl rfl rfl fun past =>
      absurd past (by decide : ¬Phase.pastHead .idle)
  | sendRequest request =>
    refine ⟨fun _ => rfl, ?_⟩
    rintro _ ⟨⟩
    refine ⟨answering.request request, _, rfl,
      Or.inl ⟨finishedIds_raise_output _ _, rfl, ?_⟩⟩
    show _ <+: List.map Stream.id (world.session.streams ++ [_])
    rw [List.map_append]
    exact List.prefix_append _ _
  | sendBody streamId chunk eof =>
    obtain ⟨defined, next⟩ := called _ (sendBody_viewKept handler world.session streamId chunk eof)
    exact ⟨fun _ => defined, next⟩
  | sendTrailer streamId headers eof =>
    obtain ⟨defined, next⟩ := called _
      (sendTrailer_viewKept handler world.session streamId headers eof keeps)
    exact ⟨fun _ => defined, next⟩

/-- In every run of a client in which no trailer ends the request at the front, and in every
state it reaches: the streams of the first requests were removed and reported in order, one
for each final response that was received completely, and that response was handed over under
the id of its request; the other requests are in the queue; and a further step that meets the
condition removes a stream only as the end of a final response. -/
theorem clientRun_answers_in_order (handler : Callbacks) (inputs : List ClientInput)
    (world : ClientWorld) (keeps : Along (clientStep handler) (KeepsRequest handler) {} inputs)
    (reached : run (clientStep handler) {} inputs = some world) :
    world.finals ≤ world.sent.length ∧
      world.session.streams.map Stream.id = world.sent.drop world.finals ∧
      finishedIds world.events =
        reports handler ((world.sent.take world.finals).map UInt32.toUInt64) ∧
      (handler.onResponse = true → world.answers = world.sent.take world.finals) ∧
      ∀ input, KeepsRequest handler world input →
        ((∀ callback, input ≠ .callback callback) →
          (clientStep handler world input).isSome = true) ∧
        ∀ next, clientStep handler world input = some next →
          FinishesAnswered handler world input next := by
  have answering : Answering handler world :=
    run_invariant_along (fun state input next kept condition stepped =>
      ((clientStep_answering handler state input kept condition).2 next stepped).1)
      (Answering.initial handler) keeps reached
  refine ⟨answering.count, answering.queue, answering.finished, answering.answers,
    fun input condition => ?_⟩
  obtain ⟨defined, stepped⟩ := clientStep_answering handler world input answering condition
  exact ⟨defined, fun next step => (stepped next step).2⟩

/-- A request whose body is sent in chunks. -/
def chunkedRequest : Request :=
  { version := http11, method := ascii "POST", path := ascii "/",
    headers := Headers.put {} (ascii "Transfer-Encoding") (ascii "chunked") }

/-- A final response without a body. -/
def emptyAnswer : List ClientInput :=
  [.callback .messageBegin,
    .callback (.headersComplete { statusCode := 204, flagContentLength := true }),
    .callback .messageComplete]

/-- Two pipelined requests with their bodies, and their answers. -/
def answeredRequests : List ClientInput :=
  [.sendRequest chunkedRequest, .sendBody 1 (ascii "x") true, .sendRequest chunkedRequest,
    .sendBody 2 (ascii "y") true] ++ (emptyAnswer ++ emptyAnswer)

theorem clientRun_answers_in_order_answered :
    ∃ world, run (clientStep {}) {} answeredRequests = some world ∧
      world.sent = [1, 2] ∧ world.finals = 2 ∧ finishedIds world.events = [1, 2] ∧
      world.answers = [1, 2] := by
  have keeps : Along (clientStep {}) (KeepsRequest {}) {} answeredRequests :=
    .cons rfl trivial <| .cons rfl trivial <| .cons rfl trivial <| .cons rfl trivial <|
      .cons rfl trivial <| .cons rfl trivial <| .cons rfl trivial <| .cons rfl trivial <|
      .cons rfl trivial <| .cons rfl trivial trivial
  obtain ⟨-, -, finished, answers, -⟩ :=
    clientRun_answers_in_order {} answeredRequests _ keeps rfl
  exact ⟨_, rfl, by decide, by decide, finished.trans (by decide), (answers rfl).trans (by decide)⟩

/-- A trailer that ends a request finishes its stream before any response was received. -/
theorem clientTrailer_finishes_unanswered :
    ∃ world, run (clientStep {}) {}
        [.sendRequest chunkedRequest, .sendTrailer 1 (Headers.put {} (ascii "A") (ascii "b")) true] =
          some world ∧
      world.finals = 0 ∧ world.session.streams = [] ∧ finishedIds world.events = [1] :=
  ⟨_, rfl, by decide, by decide, by decide⟩

end NativeLibs.Http1
