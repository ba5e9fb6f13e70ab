/-
This file is about responses that have no body whatever their headers say: those
to a `HEAD` request, and those with an informational status or the status 204 or
304. It lets a client run and keeps, beside the queue of streams, the queue of
the requests they stand for, so that the request a response answers is known.

The client does not remember the method of a request, and it looks at two
statuses only. It hands over such a response as one without a body exactly when
the status is one of these two or the headers say so.
-/

import NativeLibs.Http1.ClientRun

namespace NativeLibs.Http1

open Http Library

/-! ### Runs with the requests of the queue -/

/-- A client with the requests whose streams are in its queue. -/
structure RequestedWorld where
  world : ClientWorld := {}
  pending : List Request := []
  deriving DecidableEq

/-- The requests with the one a step opens a stream for. -/
def openedBy (pending : List Request) : ClientInput → List Request
  | .sendRequest request => pending ++ [request]
  | _ => pending

/-- One step of a client. Streams leave the queue at its front only, and so do the requests. -/
def requestedStep (handler : Callbacks) (before : RequestedWorld) (input : ClientInput) :
    Option RequestedWorld :=
  (clientStep handler before.world input).map fun next =>
    let opened := openedBy before.pending input
    { world := next, pending := opened.drop (opened.length - next.session.streams.length) }

/-- There is a request for every stream, and the parser is inside a head only with a context. -/
structure Tracked (reached : RequestedWorld) : Prop where
  aligned : reached.pending.length = reached.world.session.streams.length
  context : reached.world.phase = .startLine ∨ reached.world.phase = .headerLines →
    reached.world.session.parserContext.isSome = true

theorem Tracked.initial : Tracked {} := ⟨rfl, by decide⟩

/-! ### The queue gets longer by requests only -/

theorem onCallback_client_length (handler : Callbacks) (session : Session) (callback : Callback) :
    (onCallback .client handler session callback).session.streams.length ≤
      session.streams.length := by
  by_cases closes : callback = .messageComplete
  · rw [closes, onCallback]
    cases streams : session.streams with
    | nil => simp [onMessageComplete, activeStream, streams, refuse]
    | cons front rest =>
      have outcome := (onMessageComplete_client handler session front rest streams).2
      split at outcome
      · rw [outcome.1, streams]
      · rw [outcome.1]
        exact Nat.le_succ _
  · have kept := onCallback_queueKept .client handler session callback
      Side.noConfusion fun _ => closes
    have lengths := congrArg List.length kept.ids
    rw [List.length_map, List.length_map] at lengths
    exact lengths.le

theorem SentThrough.length_le {before after : Session} (sent : SentThrough before after) :
    after.streams.length ≤ before.streams.length := by
  have lengths := sent.ids.length_le
  rwa [List.length_map, List.length_map] at lengths

theorem received_session (world : ClientWorld) (callback : Callback) (result : CallbackResult)
    (phase : Phase) :
    (world.received callback result phase).session = result.session ∧
      (world.received callback result phase).phase = phase := by
  simp only [ClientWorld.received]
  split
  · exact ⟨rfl, rfl⟩
  · split
    · exact ⟨rfl, rfl⟩
    · exact ⟨rfl, rfl⟩
  · exact ⟨rfl, rfl⟩

theorem afterCall_session {world next : ClientWorld} {result : SendResult}
    (called : world.afterCall result = some next) :
    next.session = result.session ∧ next.phase = world.phase := by
  unfold ClientWorld.afterCall at called
  split at called
  · cases called
  · rw [← Option.some.inj called]
    exact ⟨rfl, rfl⟩

/-- What a step of a client can be: a callback, a reset of the parser, a request, or a call that
only sends. -/
theorem clientStep_cases {handler : Callbacks} {world next : ClientWorld} {input : ClientInput}
    (stepped : clientStep handler world input = some next) :
    (∃ callback, input = .callback callback ∧
      world.phase.next callback (onCallback .client handler world.session callback).code =
        some next.phase ∧
      next.session = (onCallback .client handler world.session callback).session) ∨
    (input = .resetParser ∧ next.phase = .idle ∧ next.session = resetParser world.session) ∨
    (∃ request, input = .sendRequest request ∧ next.phase = world.phase ∧
      next.session = (sendRequest handler world.session request).2.1) ∨
    (∀ pending, openedBy pending input = pending) ∧ next.phase = world.phase ∧
      SentThrough world.session next.session := by
  cases input with
  | callback callback =>
    obtain ⟨phase, allowed, rfl⟩ := Option.map_eq_some_iff.mp stepped
    obtain ⟨session, reached⟩ := received_session world callback
      (onCallback .client handler world.session callback) phase
    refine Or.inl ⟨callback, rfl, ?_, session⟩
    rw [reached]
    exact allowed
  | resetParser =>
    rw [← Option.some.inj stepped]
    exact Or.inr (Or.inl ⟨rfl, rfl, rfl⟩)
  | sendRequest request =>
    rw [← Option.some.inj stepped]
    exact Or.inr (Or.inr (Or.inl ⟨request, rfl, rfl, rfl⟩))
  | sendBody streamId chunk eof =>
    obtain ⟨session, phase⟩ := afterCall_session stepped
    refine Or.inr (Or.inr (Or.inr ⟨fun _ => rfl, phase, ?_⟩))
    rw [session]
    exact sendBodyImpl_sentThrough .client handler _ _ _ _
  | sendTrailer streamId headers eof =>
    obtain ⟨session, phase⟩ := afterCall_session stepped
    refine Or.inr (Or.inr (Or.inr ⟨fun _ => rfl, phase, ?_⟩))
    rw [session]
    exact sendTrailerImpl_sentThrough .client handler _ _ _ _

/-- Only a request makes the queue longer, by one. -/
theorem clientStep_length {handler : Callbacks} {world next : ClientWorld} {input : ClientInput}
    (stepped : clientStep handler world input = some next) {pending : List Request}
    (aligned : pending.length = world.session.streams.length) :
    next.session.streams.length ≤ (openedBy pending input).length := by
  rcases clientStep_cases stepped with ⟨callback, rfl, -, session⟩ | ⟨rfl, -, session⟩ |
    ⟨request, rfl, -, session⟩ | ⟨same, -, sent⟩
  · show _ ≤ pending.length
    rw [session, aligned]
    exact onCallback_client_length handler world.session callback
  · show _ ≤ pending.length
    rw [session, aligned]
    rfl
  · have opened : next.session.streams.length = world.session.streams.length + 1 := by
      rw [session]
      exact List.length_append
    show _ ≤ (pending ++ [request]).length
    rw [opened, List.length_append, aligned]
    rfl
  · rw [same, aligned]
    exact sent.length_le

/-! ### Inside a head the parser has a context -/

/-- A callback that is made with a context and is not refused leaves one. -/
theorem withContext_isSome {session : Session} {body : Stream → ParserContext → CallbackResult}
    (keeps : ∀ stream context, session.parserContext = some context →
      (body stream context).session.parserContext.isSome = true)
    (accepted : (withContext .client session body).code = 0) :
    (withContext .client session body).session.parserContext.isSome = true := by
  rcases withContext_cases .client session body with refused | ⟨stream, context, -, present, passed⟩
  · rw [refused] at accepted
    cases accepted
  · rw [passed]
    exact keeps stream context present

theorem onMessageBegin_isSome {session : Session}
    (accepted : (onMessageBegin .client session).code = 0) :
    (onMessageBegin .client session).session.parserContext.isSome = true := by
  unfold onMessageBegin at accepted ⊢
  cases active : activeStream .client session.streams with
  | none =>
    rw [active] at accepted
    cases accepted
  | some stream => rfl

theorem onHeaderValue_isSome {session : Session} {piece : Bytes}
    (accepted : (onHeaderValue .client session piece).code = 0) :
    (onHeaderValue .client session piece).session.parserContext.isSome = true := by
  refine withContext_isSome (fun stream context present => ?_) accepted
  cases addValue context.headers piece with
  | none => exact Option.isSome_iff_exists.mpr ⟨context, present⟩
  | some headers => rfl

theorem Phase.proceed_eq {phase after : Phase} {code : Int} (reached : phase.proceed code = after)
    (goesOn : after ≠ .stopped) : code = 0 ∧ phase = after := by
  unfold Phase.proceed at reached
  split at reached
  · rename_i zero
    exact ⟨zero, reached⟩
  · exact absurd reached.symm goesOn

/-- After a callback the parser is inside a head only with a context. -/
theorem callback_context {handler : Callbacks} {session : Session} {phase after : Phase}
    {callback : Callback}
    (allowed : phase.next callback (onCallback .client handler session callback).code = some after)
    (inside : after = .startLine ∨ after = .headerLines) :
    (onCallback .client handler session callback).session.parserContext.isSome = true := by
  have goesOn : after ≠ .stopped := by
    rintro rfl
    exact absurd inside (by decide)
  cases callback with
  | messageBegin =>
    have accepted := (Phase.proceed_eq (Phase.next_messageBegin allowed).2.symm goesOn).1
    exact onMessageBegin_isSome accepted
  | url piece =>
    have accepted := (Phase.proceed_eq (Phase.next_url allowed).2.symm goesOn).1
    cases accepted
  | status piece =>
    have accepted := (Phase.proceed_eq (Phase.next_status allowed).2.symm goesOn).1
    exact withContext_isSome (fun _ _ _ => rfl) accepted
  | headerField piece =>
    have accepted : (onHeaderField .client session piece).code = 0 := by
      rcases Phase.next_headerField allowed with ⟨-, same⟩ | ⟨-, same⟩
      · exact (Phase.proceed_eq same.symm goesOn).1
      · exact (Phase.proceed_eq same.symm goesOn).1
    exact withContext_isSome (fun _ _ _ => rfl) accepted
  | headerValue piece =>
    have accepted := (Phase.proceed_eq (Phase.next_headerValue allowed).2.symm goesOn).1
    exact onHeaderValue_isSome accepted
  | headersComplete parser =>
    have outside := (Phase.next_headersComplete allowed).2
    rw [outside] at inside
    split_ifs at inside <;> exact absurd inside (by decide)
  | body chunk =>
    have reading := (Phase.proceed_eq (Phase.next_body allowed).2.symm goesOn).2
    rw [← reading] at inside
    exact absurd inside (by decide)
  | messageComplete =>
    have idle := (Phase.proceed_eq (Phase.next_messageComplete allowed).2.symm goesOn).2
    rw [← idle] at inside
    exact absurd inside (by decide)

theorem Tracked.step {handler : Callbacks} {before : RequestedWorld} {input : ClientInput}
    {next : RequestedWorld} (tracked : Tracked before)
    (stepped : requestedStep handler before input = some next) : Tracked next := by
  obtain ⟨world, called, rfl⟩ := Option.map_eq_some_iff.mp stepped
  have bounded := clientStep_length called tracked.aligned
  refine ⟨?_, fun inside => ?_⟩
  · rw [List.length_drop]
    exact Nat.sub_sub_self bounded
  · dsimp only at inside ⊢
    rcases clientStep_cases called with ⟨callback, -, allowed, session⟩ | ⟨-, idle, -⟩ |
      ⟨request, -, phase, session⟩ | ⟨-, phase, sent⟩
    · rw [session]
      exact callback_context allowed inside
    · rw [idle] at inside
      exact absurd inside (by decide)
    · rw [phase] at inside
      rw [session]
      exact tracked.context inside
    · rw [phase] at inside
      rw [sent.context]
      exact tracked.context inside

/-! ### Responses without a body -/

/-- A status with which no response has a body. -/
def bodilessStatus (statusCode : Nat) : Bool :=
  statusCode / 100 = 1 || statusCode = 204 || statusCode = 304

/-- The head that is now complete is that of a response without a body: it answers a `HEAD`
request, or its status says so. -/
def AnswersBodiless (reached : RequestedWorld) (parser : Parser) : Prop :=
  (reached.world.phase = .startLine ∨ reached.world.phase = .headerLines) ∧
    ∃ request others, reached.pending = request :: others ∧
      (request.method = ascii "HEAD" ∨ bodilessStatus parser.statusCode = true)

/-- The response is handed over as one without a body, and the parser is told to expect none. -/
def DeliversBodiless (handler : Callbacks) (world : ClientWorld) (parser : Parser) : Prop :=
  let result := onHeadersComplete .client handler world.session parser
  (∃ streamId response, result.events = [.response streamId response] ∧
      response.headers.hasBody = false) ∧
    world.phase.next (.headersComplete parser) result.code = some .noBody

/-- The head is one the client takes for a response without a body: its status is 100 or 103, or
the message is not chunked and announces the length 0. -/
def AnnouncesNothing (parser : Parser) : Prop :=
  parser.statusCode = 100 ∨ parser.statusCode = 103 ∨
    parser.flagChunked = false ∧ parser.flagContentLength = true ∧ parser.contentLength = 0

theorem responseHasBody_eq_false_iff (parser : Parser) :
    responseHasBody parser = false ↔ AnnouncesNothing parser := by
  unfold responseHasBody AnnouncesNothing
  cases parser.flagChunked <;> cases parser.flagContentLength <;>
    simp only [Bool.and_eq_false_iff, decide_eq_false_iff_not, Bool.or_eq_false_iff, ne_eq,
      not_not] <;> tauto

theorem Phase.next_noBody {phase : Phase} (inside : phase = .startLine ∨ phase = .headerLines)
    {code : Int} (told : code = 1 ∨ code = 2) (parser : Parser) :
    phase.next (.headersComplete parser) code = some .noBody := by
  rcases inside with rfl | rfl
  · rcases told with rfl | rfl
    · rfl
    · rfl
  · rcases told with rfl | rfl
    · rfl
    · rfl

theorem onHeadersComplete_client (handler : Callbacks) {session : Session} {front : Stream}
    (active : activeStream .client session.streams = some front)
    (context : session.parserContext.isSome = true) (parser : Parser) :
    let result := onHeadersComplete .client handler session parser
    (∃ response, result.events = raise handler.onResponse (.response front.id response) ∧
      response.headers.hasBody = responseHasBody parser) ∧
    (responseHasBody parser = false → result.code = 1 ∨ result.code = 2) := by
  obtain ⟨current, present⟩ := Option.isSome_iff_exists.mp context
  obtain ⟨version, made⟩ :=
    Option.isSome_iff_exists.mp (makeVersion_isSome parser.httpMajor parser.httpMinor)
  have head : onHeadersComplete .client handler session parser =
      onResponseHead handler parser session front current version := by
    rw [onHeadersComplete, withContext_of_active .client session front current _ active present]
    simp only [made]
  rw [head]
  refine ⟨⟨_, rfl, rfl⟩, fun bodiless => ?_⟩
  simp only [onResponseHead, bodiless]
  split
  · exact Or.inr rfl
  · exact Or.inl rfl

/-- For every run of a client and every head of a response without a body: it is handed over as one
without a body, and the parser is told so, if and only if there is a handler for responses and the
head announces no body. -/
theorem bodilessResponse_delivered_iff (handler : Callbacks) (inputs : List ClientInput)
    (reached : RequestedWorld) (ran : run (requestedStep handler) {} inputs = some reached)
    (parser : Parser) (bodiless : AnswersBodiless reached parser) :
    DeliversBodiless handler reached.world parser ↔
      handler.onResponse = true ∧ AnnouncesNothing parser := by
  have tracked : Tracked reached :=
    run_invariant (fun _ _ _ before stepped => before.step stepped) Tracked.initial ran
  obtain ⟨inside, request, others, pending, -⟩ := bodiless
  -- the request in front has a stream, which is the active one
  obtain ⟨front, active⟩ : ∃ front,
      activeStream .client reached.world.session.streams = some front := by
    have aligned := tracked.aligned
    rw [pending] at aligned
    cases streams : reached.world.session.streams with
    | nil =>
      rw [streams] at aligned
      cases aligned
    | cons front rest => exact ⟨front, rfl⟩
  obtain ⟨⟨response, events, hasBody⟩, code⟩ :=
    onHeadersComplete_client handler active (tracked.context inside) parser
  rw [← responseHasBody_eq_false_iff]
  constructor
  · intro ⟨⟨streamId, delivered, raised, empty⟩, _⟩
    rw [events] at raised
    cases listens : handler.onResponse with
    | false =>
      rw [listens] at raised
      cases raised
    | true =>
      rw [listens] at raised
      cases raised
      exact ⟨rfl, hasBody.symm.trans empty⟩
  · intro ⟨listens, empty⟩
    rw [listens] at events
    exact ⟨⟨front.id, response, events, hasBody.trans empty⟩,
      Phase.next_noBody inside (code empty) parser⟩

/-- A `HEAD` request that is sent, and the begin of the response to it. -/
def answeredHead : List ClientInput :=
  [.sendRequest { method := ascii "HEAD", path := ascii "/" }, .callback .messageBegin]

/-- The response announces the length 0. -/
theorem bodilessResponse_delivered_iff_empty :
    ∃ reached, run (requestedStep {}) {} answeredHead = some reached ∧
      DeliversBodiless {} reached.world { statusCode := 200, flagContentLength := true } := by
  refine ⟨_, rfl, ?_⟩
  refine (bodilessResponse_delivered_iff {} answeredHead _ rfl
    { statusCode := 200, flagContentLength := true } ⟨Or.inl rfl, _, _, rfl, Or.inl rfl⟩).mpr ?_
  exact ⟨rfl, Or.inr (Or.inr ⟨rfl, rfl, rfl⟩)⟩

/-- The response to a `HEAD` request announces the length of what a `GET` would give, and a response
with the status 204 announces nothing: the client waits for a body. -/
theorem bodilessResponse_takenForBody :
    ∃ reached, run (requestedStep {}) {} answeredHead = some reached ∧
      ∀ parser, parser = { statusCode := 200, flagContentLength := true, contentLength := 5 } ∨
          parser = { statusCode := 204 } →
        AnswersBodiless reached parser ∧
        (onHeadersComplete .client {} reached.world.session parser).code = 0 ∧
        ¬DeliversBodiless {} reached.world parser := by
  refine ⟨_, rfl, fun parser known => ?_⟩
  refine ⟨⟨Or.inl rfl, _, _, rfl, Or.inl rfl⟩, ?_⟩
  rcases known with rfl | rfl
  · exact ⟨rfl, fun delivered => nomatch delivered.2⟩
  · exact ⟨rfl, fun delivered => nomatch delivered.2⟩

end NativeLibs.Http1
