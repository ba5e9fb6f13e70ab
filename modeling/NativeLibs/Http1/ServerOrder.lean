/-
This file is about which stream of a server is written and which one is
finished. The functions that send a response head or a trailer work on the
front of the queue, `send_body_impl` looks at its back, and when it completes a
message it removes the front nevertheless. With one pending request the two
ends are the same stream. With more they are not, and this file says exactly
what is left: which calls are accepted, and under which condition on the calls
streams are finished once each, in the order in which they were opened.
-/

import NativeLibs.Http1.ServerRun

namespace NativeLibs.Http1

open Http Library

/-! ### Which stream may be written -/

/-- Both sending functions take this id, whatever they are given to send. -/
def Accepts (handler : Callbacks) (session : Session) (streamId : UInt32) : Prop :=
  (∀ chunk eof,
    (Server.sendBody handler session streamId.toUInt64 chunk eof).status = .ok) ∧
  ∀ headers eof, (Server.sendTrailer handler session streamId headers eof).status = .ok

/-- A call that ends with an error and writes nothing to the peer. -/
def FailsQuietly (result : SendResult) : Prop :=
  (∃ error, result.status = .error error) ∧ ∀ chunk, Event.output chunk ∉ result.events

/-- Both sending functions turn this id down. -/
def Rejects (handler : Callbacks) (session : Session) (streamId : UInt32) : Prop :=
  (∀ chunk eof,
    FailsQuietly (Server.sendBody handler session streamId.toUInt64 chunk eof)) ∧
  ∀ headers eof, FailsQuietly (Server.sendTrailer handler session streamId headers eof)

/-- The front stream may be written, and no stream behind it. -/
def OnlyFrontWritable (handler : Callbacks) (session : Session) (front : Stream)
    (rest : List Stream) : Prop :=
  Accepts handler session front.id ∧ ∀ other ∈ rest, Rejects handler session other.id

/-- A trailer call on this stream writes the last chunk through a body call, which finds the
content length used up and finishes the stream on its own. -/
def TrailerFinishesTwice (handler : Callbacks) (front : Stream) : Prop :=
  handler.onOutput = true ∧ front.flags.zeroChunkSent = false ∧ front.contentLength = .size 0

/-- With a second stream in the queue, the front is turned down, or shares its id with a
stream that should be. -/
theorem not_onlyFrontWritable (handler : Callbacks) (session : Session) (front : Stream)
    (rest : List Stream) (streams : session.streams = front :: rest) (nonempty : rest ≠ []) :
    ¬OnlyFrontWritable handler session front rest := by
  rintro ⟨⟨accepted, -⟩, rejected⟩
  obtain ⟨before, last, rfl⟩ := List.eq_nil_or_concat rest |>.resolve_left nonempty
  rw [List.concat_eq_append] at streams rejected
  have accepts := accepted [] false
  by_cases same : last.id = front.id
  · obtain ⟨⟨error, failed⟩, -⟩ := (rejected last (by simp)).1 [] false
    rw [same, accepts] at failed
    cases failed
  · obtain ⟨error, refused⟩ := sendBodyImpl_refused .server handler session front.id.toUInt64 []
      false (by
        intro stream active sameId
        have found : stream = last := by
          simpa [activeStream, streams, List.getLast?_cons] using active.symm
        exact same (found ▸ (UInt32.toUInt64_inj.mp sameId).symm))
    rw [Server.sendBody, refused] at accepts
    cases accepts

theorem sendBody_alone (handler : Callbacks) (session : Session) (front : Stream)
    (streams : session.streams = [front]) (chunk : Bytes) (eof : Bool) :
    (Server.sendBody handler session front.id.toUInt64 chunk eof).status = .ok :=
  (sendBodyImpl_server_effect handler session _ chunk eof front [] streams rfl).1

/-- A stream that is alone in the queue takes every trailer call, unless that would finish it
twice. -/
theorem sendTrailer_alone_iff (handler : Callbacks) (session : Session) (front : Stream)
    (streams : session.streams = [front]) :
    (∀ headers eof, (Server.sendTrailer handler session front.id headers eof).status = .ok) ↔
      ¬TrailerFinishesTwice handler front := by
  constructor
  · rintro accepted ⟨writes, lastChunk, usedUp⟩
    have single := sendTrailerImpl_single handler session front [] streams {} true writes
      lastChunk rfl
    rw [if_pos usedUp, if_pos rfl] at single
    have accepts := accepted {} true
    rw [Server.sendTrailer, single] at accepts
    cases accepts
  · intro once headers eof
    cases writes : handler.onOutput with
    | false => exact (sendTrailerImpl_silent handler session front [] streams headers eof _ writes).1
    | true =>
      cases lastChunk : front.flags.zeroChunkSent with
      | true =>
        exact (sendTrailerImpl_afterLastChunk handler session front [] streams headers eof _ writes
          lastChunk).1
      | false =>
        have single := sendTrailerImpl_single handler session front [] streams headers eof writes
          lastChunk rfl
        rw [if_neg fun usedUp => once ⟨writes, lastChunk, usedUp⟩] at single
        exact single.1

/-- In every state of a run whose front stream has an accepted response head that is not
finished: the front stream, and only it, may be written exactly when no request is pending
behind it and a trailer does not finish it twice. -/
theorem serverRun_onlyFrontWritable_iff (handler : Callbacks) (inputs : List ServerInput)
    (world : ServerWorld) (_reached : run (serverStep handler) {} inputs = some world)
    (front : Stream) (rest : List Stream) (streams : world.session.streams = front :: rest)
    (_answered : front.id.toUInt64 ∈ world.answered) :
    OnlyFrontWritable handler world.session front rest ↔
      rest = [] ∧ ¬TrailerFinishesTwice handler front := by
  constructor
  · intro only
    have alone : rest = [] := by
      by_contra nonempty
      exact not_onlyFrontWritable handler world.session front rest streams nonempty only
    subst alone
    exact ⟨rfl, (sendTrailer_alone_iff handler world.session front streams).mp only.1.2⟩
  · rintro ⟨rfl, once⟩
    refine ⟨⟨sendBody_alone handler world.session front streams, ?_⟩, fun other member => ?_⟩
    · exact (sendTrailer_alone_iff handler world.session front streams).mpr once
    · exact absurd member List.not_mem_nil

/-- A request without a body, from its begin to its end. -/
def plainRequest : List ServerInput :=
  [.callback .messageBegin, .callback (.url (ascii "/")), .callback (.headersComplete {}),
    .callback .messageComplete]

/-- A response whose body is sent in chunks. -/
def chunkedResponse : Response :=
  { Response.make http11 200 with
    headers := Headers.put {} (ascii "Transfer-Encoding") (ascii "chunked") }

theorem serverRun_onlyFrontWritable_alone :
    ∃ world front, run (serverStep {}) {} (plainRequest ++ [.sendResponse 1 chunkedResponse]) =
        some world ∧
      world.session.streams = [front] ∧ OnlyFrontWritable {} world.session front [] := by
  refine ⟨_, _, rfl, rfl, ?_⟩
  refine (serverRun_onlyFrontWritable_iff {} (plainRequest ++ [.sendResponse 1 chunkedResponse]) _
    rfl _ [] rfl (by decide)).mpr ⟨rfl, ?_⟩
  rintro ⟨-, -, usedUp⟩
  cases usedUp

/-- Two pipelined requests: the answer to the first is accepted, and its body is not. -/
theorem pipelinedBody_rejected :
    ∃ world front rest, run (serverStep {}) {}
        (plainRequest ++ plainRequest ++ [.sendResponse 1 chunkedResponse]) = some world ∧
      world.session.streams = front :: rest ∧ front.id.toUInt64 ∈ world.answered ∧
      (Server.sendBody {} world.session front.id.toUInt64 (ascii "x") false).status =
        .error (.message "Invalid stream ID (1), expected 2") := by
  refine ⟨_, _, _, rfl, rfl, by decide, by decide⟩

/-! ### The order in which streams are finished -/

/-- A step of a run keeps to the order of the queue. The conditions are on the state before
the step: there are ids left for a new stream; a body call that completes the message of the
last stream finds no other stream before it; a trailer call does not finish its stream twice. -/
def Orderly (handler : Callbacks) (world : ServerWorld) : ServerInput → Prop
  | .callback .messageBegin => world.begun.length < 2 ^ 32
  | .sendBody streamId chunk eof => ∀ front last, world.session.streams = front ++ [last] →
      streamId = last.id.toUInt64 → completesBody last.contentLength chunk eof = true → front = []
  | .sendTrailer streamId _ eof => ∀ front, world.session.streams = [front] →
      streamId = front.id → eof = true → ¬TrailerFinishesTwice handler front
  | _ => True

/-- A call that has defined behaviour and finishes no stream, or removes the front stream, which
is the one it reports. -/
structure FrontEffect (handler : Callbacks) (session : Session) (result : SendResult) : Prop where
  defined : result.status ≠ .undefinedBehavior
  effect : (finishedIds result.events = [] ∧
      result.session.streams.map Stream.id = session.streams.map Stream.id) ∨
    ∃ front rest, session.streams = front :: rest ∧
      finishedIds result.events = reports handler [front.id.toUInt64] ∧
      result.session.streams.map Stream.id = rest.map Stream.id

theorem FrontEffect.rejected (handler : Callbacks) (session : Session) (error : Http1Error) :
    FrontEffect handler session (rejected session error) :=
  ⟨nofun, Or.inl ⟨rfl, rfl⟩⟩

theorem FrontEffect.unfinished {handler : Callbacks} {session : Session} {result : SendResult}
    (defined : result.status ≠ .undefinedBehavior) (silent : result.events = [])
    (ids : result.session.streams.map Stream.id = session.streams.map Stream.id) :
    FrontEffect handler session result := by
  refine ⟨defined, Or.inl ⟨?_, ids⟩⟩
  rw [silent]
  rfl

/-- A call that succeeds and, at its end, removes and reports the front stream. -/
theorem FrontEffect.of_outcome {handler : Callbacks} {session : Session} {result : SendResult}
    {front : Stream} {rest : List Stream} {eof : Bool} (streams : session.streams = front :: rest)
    (accepted : result.status = .ok)
    (outcome : if eof then
        result.session.streams.map Stream.id = rest.map Stream.id ∧
          finishedIds result.events = reports handler [front.id.toUInt64]
      else
        result.session.streams.map Stream.id = session.streams.map Stream.id ∧
          finishedIds result.events = []) :
    FrontEffect handler session result := by
  refine ⟨by rw [accepted]; nofun, ?_⟩
  split at outcome
  · exact Or.inr ⟨front, rest, streams, outcome.2, outcome.1⟩
  · exact Or.inl ⟨outcome.2, outcome.1⟩

theorem sendResponse_frontEffect (handler : Callbacks) (session : Session) (streamId : UInt64)
    (response : Response) :
    FrontEffect handler session (sendResponse handler session streamId response) := by
  rcases sendResponse_effect handler session streamId response with
    ⟨error, refused⟩ | ⟨front, rest, streams, rfl, accepted, -, outcome⟩
  · rw [refused]
    exact FrontEffect.rejected handler session error
  · refine ⟨by rw [accepted]; nofun, ?_⟩
    rcases outcome with ⟨ids, unfinished⟩ | ⟨popped, finished⟩
    · exact Or.inl ⟨unfinished, ids⟩
    · exact Or.inr ⟨front, rest, streams, finished, by rw [popped]⟩

theorem sendBody_frontEffect (handler : Callbacks) (session : Session) (streamId : UInt64)
    (chunk : Bytes) (eof : Bool)
    (orderly : ∀ front last, session.streams = front ++ [last] → streamId = last.id.toUInt64 →
      completesBody last.contentLength chunk eof = true → front = []) :
    FrontEffect handler session (Server.sendBody handler session streamId chunk eof) := by
  rcases sendBodyImpl_named_or_refused .server handler session streamId chunk eof with
    ⟨last, active, rfl⟩ | ⟨error, refused⟩
  · obtain ⟨front, streams⟩ := List.getLast?_eq_some_iff.mp active
    obtain ⟨accepted, outcome⟩ :=
      sendBodyImpl_server_effect handler session _ chunk eof last front streams rfl
    refine ⟨by rw [Server.sendBody, accepted]; nofun, ?_⟩
    split at outcome
    · rename_i complete
      obtain rfl := orderly front last streams rfl complete
      refine Or.inr ⟨last, [], streams, outcome.2, outcome.1.trans ?_⟩
      rw [streams]
      rfl
    · exact Or.inl ⟨outcome.2, outcome.1⟩
  · rw [Server.sendBody, refused]
    exact FrontEffect.rejected handler session error

/-- A trailer call for the only stream, before its last chunk. -/
theorem sendTrailer_frontEffect_alone {handler : Callbacks} {session : Session} {front : Stream}
    (streams : session.streams = [front]) (headers : Headers) (eof : Bool)
    (writes : handler.onOutput = true) (lastChunk : front.flags.zeroChunkSent = false)
    (orderly : eof = true → ¬TrailerFinishesTwice handler front) :
    FrontEffect handler session (sendTrailerImpl .server handler session front.id headers eof) := by
  have single := sendTrailerImpl_single handler session front [] streams headers eof writes
    lastChunk rfl
  by_cases usedUp : front.contentLength = .size 0
  · cases eof with
    | true => exact absurd ⟨writes, lastChunk, usedUp⟩ (orderly rfl)
    | false =>
      rw [if_pos usedUp, if_neg Bool.false_ne_true] at single
      obtain ⟨accepted, ids, finished⟩ := single
      exact ⟨by rw [accepted]; nofun, Or.inr ⟨front, [], streams, finished, ids⟩⟩
  · rw [if_neg usedUp] at single
    exact FrontEffect.of_outcome streams single.1 single.2

/-- The trailer call by its cases: silent, after the last chunk, blocked by a stream behind, or
alone in the queue. Distinct ids are what keeps a blocked call from finishing anything. -/
theorem sendTrailer_frontEffect (handler : Callbacks) (session : Session) (streamId : UInt32)
    (headers : Headers) (eof : Bool) (distinct : (session.streams.map Stream.id).Nodup)
    (orderly : ∀ front, session.streams = [front] → streamId = front.id → eof = true →
      ¬TrailerFinishesTwice handler front) :
    FrontEffect handler session (Server.sendTrailer handler session streamId headers eof) := by
  rw [Server.sendTrailer]
  rcases sendTrailerImpl_named_or_refused .server handler session streamId headers eof with
    ⟨front, rest, streams, rfl⟩ | ⟨error, refused⟩
  · cases writes : handler.onOutput with
    | false =>
      obtain ⟨accepted, silent, ids⟩ :=
        sendTrailerImpl_silent handler session front rest streams headers eof .server writes
      exact FrontEffect.unfinished (by rw [accepted]; nofun) silent ids
    | true =>
      cases lastChunk : front.flags.zeroChunkSent with
      | true =>
        obtain ⟨accepted, outcome⟩ := sendTrailerImpl_afterLastChunk handler session front rest
          streams headers eof .server writes lastChunk
        exact FrontEffect.of_outcome streams accepted outcome
      | false =>
        by_cases alone : rest = []
        · subst alone
          exact sendTrailer_frontEffect_alone streams headers eof writes lastChunk
            (orderly front streams rfl)
        · have behind : ∀ last ∈ rest.getLast?, last.id ≠ front.id := by
            intro last found same
            rw [streams, List.map_cons, List.nodup_cons] at distinct
            exact distinct.1 (same ▸ List.mem_map_of_mem (List.mem_of_getLast? found))
          obtain ⟨⟨error, failed⟩, silent, ids⟩ := sendTrailerImpl_blocked handler session front
            rest streams headers eof writes lastChunk behind alone
          exact FrontEffect.unfinished (by rw [failed]; nofun) silent ids
  · rw [refused]
    exact FrontEffect.rejected handler session error

/-- The id of a stream by the number of streams before it. -/
def givenId (index : Nat) : UInt32 := UInt32.ofNat (index + 1)

theorem nodup_givenIds (count : Nat) (bound : count ≤ 2 ^ 32) :
    ((List.range count).map givenId).Nodup := by
  refine List.Nodup.map_on ?_ List.nodup_range
  intro first inFirst second inSecond same
  rw [List.mem_range] at inFirst inSecond
  have values : (first + 1) % 2 ^ 32 = (second + 1) % 2 ^ 32 := congrArg UInt32.toNat same
  omega

/-- The streams of a server were opened with consecutive ids; a first part of them is removed
and was reported in that order, and the rest is the queue. -/
structure InOrder (handler : Callbacks) (world : ServerWorld) : Prop where
  bound : world.begun.length ≤ 2 ^ 32
  given : world.begun = (List.range world.begun.length).map givenId
  nextId : world.session.nextStreamId = givenId world.begun.length
  removed : ∃ removed, world.begun = removed ++ world.session.streams.map Stream.id ∧
    finishedIds world.events = reports handler (removed.map UInt32.toUInt64)

theorem InOrder.initial (handler : Callbacks) : InOrder handler {} := by
  refine ⟨by decide, rfl, rfl, [], rfl, ?_⟩
  unfold reports
  split <;> rfl

theorem InOrder.nodup {handler : Callbacks} {world : ServerWorld} (order : InOrder handler world) :
    world.begun.Nodup := by
  rw [order.given]
  exact nodup_givenIds _ order.bound

theorem InOrder.distinct {handler : Callbacks} {world : ServerWorld}
    (order : InOrder handler world) : (world.session.streams.map Stream.id).Nodup := by
  obtain ⟨removed, begun, -⟩ := order.removed
  have all := order.nodup
  rw [begun] at all
  exact all.of_append_right

theorem reports_append (handler : Callbacks) (first second : List UInt64) :
    reports handler (first ++ second) = reports handler first ++ reports handler second := by
  unfold reports
  split <;> rfl

/-- The invariant after a step that opens no stream and raises no finished stream. -/
theorem InOrder.kept {handler : Callbacks} {world : ServerWorld} (order : InOrder handler world)
    (next : ServerWorld) (raised : List Event) (begun : next.begun = world.begun)
    (nextId : next.session.nextStreamId = world.session.nextStreamId)
    (ids : next.session.streams.map Stream.id = world.session.streams.map Stream.id)
    (events : next.events = world.events ++ raised) (unfinished : finishedIds raised = []) :
    InOrder handler next := by
  obtain ⟨removed, split, finished⟩ := order.removed
  refine ⟨begun ▸ order.bound, begun ▸ order.given, ?_, removed, ?_, ?_⟩
  · rw [nextId, begun]
    exact order.nextId
  · rw [begun, ids]
    exact split
  · rw [events, finishedIds_append, unfinished, List.append_nil]
    exact finished

/-- The invariant after a call of the application that keeps to the front of the queue. -/
theorem InOrder.sent {handler : Callbacks} {world : ServerWorld} (order : InOrder handler world)
    (result : SendResult) (answered : List UInt64)
    (through : SentThrough world.session result.session)
    (front : FrontEffect handler world.session result) :
    InOrder handler { world with
      session := result.session, events := world.events ++ result.events, answered } := by
  rcases front.effect with ⟨unfinished, ids⟩ | ⟨first, rest, streams, finished, ids⟩
  · exact order.kept _ result.events rfl through.nextId ids rfl unfinished
  · obtain ⟨removed, split, reported⟩ := order.removed
    refine ⟨order.bound, order.given, through.nextId.trans order.nextId, removed ++ [first.id],
      ?_, ?_⟩
    · rw [split, streams, ids, List.map_cons, List.append_assoc]
      rfl
    · rw [finishedIds_append, reported, finished, List.map_append, reports_append]
      rfl

/-- The invariant after a request has begun. -/
theorem InOrder.begin {handler : Callbacks} {world : ServerWorld} (order : InOrder handler world)
    (room : world.begun.length < 2 ^ 32) (phase : Phase) :
    InOrder handler { world with
      session := (onMessageBegin .server world.session).session
      phase
      events := world.events ++ (onMessageBegin .server world.session).events
      begun := world.begun ++ [world.session.nextStreamId] } := by
  obtain ⟨removed, split, finished⟩ := order.removed
  have length : (world.begun ++ [world.session.nextStreamId]).length = world.begun.length + 1 :=
    List.length_append
  refine ⟨?_, ?_, ?_, removed, ?_, ?_⟩
  · rw [length]
    exact room
  · rw [length, List.range_succ, List.map_append, ← order.given, order.nextId]
    rfl
  · rw [length]
    show world.session.nextStreamId + 1 = givenId (world.begun.length + 1)
    rw [order.nextId, givenId, givenId, UInt32.ofNat_add (world.begun.length + 1)]
    rfl
  · show _ = removed ++ List.map Stream.id
      (world.session.streams ++ [{ id := world.session.nextStreamId }])
    rw [List.map_append, ← List.append_assoc, ← split]
    rfl
  · show finishedIds (world.events ++ []) = _
    rw [List.append_nil]
    exact finished

theorem begunAfter_of_ne (session : Session) (begun : List UInt32) (callback : Callback)
    (other : callback ≠ .messageBegin) : begunAfter session begun callback = begun := by
  cases callback with
  | messageBegin => exact absurd rfl other
  | _ => rfl

/-- Under the condition, every call of the application keeps to the front of the queue. -/
theorem InOrder.frontEffect {handler : Callbacks} {world : ServerWorld}
    (order : InOrder handler world) (input : ServerInput) (result : SendResult)
    (orderly : Orderly handler world input)
    (call : (∃ streamId response, input = .sendResponse streamId response ∧
        result = sendResponse handler world.session streamId response) ∨
      (∃ streamId chunk eof, input = .sendBody streamId chunk eof ∧
        result = Server.sendBody handler world.session streamId chunk eof) ∨
      ∃ streamId headers eof, input = .sendTrailer streamId headers eof ∧
        result = Server.sendTrailer handler world.session streamId headers eof) :
    FrontEffect handler world.session result := by
  rcases call with ⟨streamId, response, rfl, rfl⟩ | ⟨streamId, chunk, eof, rfl, rfl⟩ |
    ⟨streamId, headers, eof, rfl, rfl⟩
  · exact sendResponse_frontEffect handler world.session streamId response
  · exact sendBody_frontEffect handler world.session streamId chunk eof orderly
  · exact sendTrailer_frontEffect handler world.session streamId headers eof order.distinct orderly

/-- A step that raises no finished stream and removes none, or removes the front stream and
reports it. -/
def FinishesOnlyFront (handler : Callbacks) (world next : ServerWorld) : Prop :=
  ∃ raised, next.events = world.events ++ raised ∧
    ((finishedIds raised = [] ∧
        world.session.streams.map Stream.id <+: next.session.streams.map Stream.id) ∨
      ∃ front rest, world.session.streams = front :: rest ∧
        finishedIds raised = reports handler [front.id.toUInt64] ∧
        next.session.streams.map Stream.id = rest.map Stream.id)

theorem serverStep_inOrder (handler : Callbacks) (world : ServerWorld) (input : ServerInput)
    (next : ServerWorld) (order : InOrder handler world) (orderly : Orderly handler world input)
    (stepped : serverStep handler world input = some next) :
    InOrder handler next ∧ FinishesOnlyFront handler world next := by
  rcases serverStep_cases handler world next input stepped with
    ⟨callback, phase, rfl, -, rfl⟩ | ⟨-, rfl⟩ | ⟨result, answered, -, through, -, call, rfl⟩
  · by_cases first : callback = .messageBegin
    · subst first
      refine ⟨order.begin orderly phase, [], rfl, Or.inl ⟨rfl, ?_⟩⟩
      show _ <+: List.map Stream.id
        (world.session.streams ++ [{ id := world.session.nextStreamId }])
      rw [List.map_append]
      exact List.prefix_append _ _
    · have kept := onCallback_queueKept .server handler world.session callback
        (fun _ => first) nofun
      have begun := begunAfter_of_ne world.session world.begun callback first
      refine ⟨order.kept _ _ begun kept.nextId kept.ids rfl kept.unfinished, _, rfl,
        Or.inl ⟨kept.unfinished, ?_⟩⟩
      rw [kept.ids]
  · refine ⟨order.kept _ [] rfl rfl rfl (List.append_nil _).symm rfl, [],
      (List.append_nil _).symm, Or.inl ⟨rfl, List.prefix_rfl⟩⟩
  · have front := order.frontEffect input result orderly call
    refine ⟨order.sent result answered through front, result.events, rfl, ?_⟩
    rcases front.effect with ⟨unfinished, ids⟩ | removed
    · refine Or.inl ⟨unfinished, ?_⟩
      rw [ids]
    · exact Or.inr removed

/-- An orderly call of the application never reaches undefined behaviour. -/
theorem serverStep_isSome (handler : Callbacks) (world : ServerWorld) (input : ServerInput)
    (order : InOrder handler world) (orderly : Orderly handler world input)
    (call : ∀ callback, input ≠ .callback callback) :
    (serverStep handler world input).isSome = true := by
  cases input with
  | callback callback => exact absurd rfl (call callback)
  | resetParser => rfl
  | sendResponse streamId response =>
    exact ServerWorld.afterCall_isSome _ _
      (sendResponse_frontEffect handler world.session streamId response).defined
  | sendBody streamId chunk eof =>
    exact world.afterCall_isSome _
      (sendBody_frontEffect handler world.session streamId chunk eof orderly).defined
  | sendTrailer streamId headers eof =>
    exact world.afterCall_isSome _ (sendTrailer_frontEffect handler world.session streamId headers
      eof order.distinct orderly).defined

theorem InOrder.finished {handler : Callbacks} {world : ServerWorld}
    (order : InOrder handler world) :
    (finishedIds world.events).Nodup ∧
      finishedIds world.events <+: world.begun.map UInt32.toUInt64 := by
  obtain ⟨removed, begun, finished⟩ := order.removed
  have all := order.nodup
  rw [begun] at all
  rw [finished, begun, List.map_append]
  unfold reports
  split
  · refine ⟨all.of_append_left.map ?_, List.prefix_append _ _⟩
    intro first second same
    exact UInt32.toUInt64_inj.mp same
  · exact ⟨List.nodup_nil, List.nil_prefix⟩

/-- In every run of a server whose steps are all orderly, and in every state it reaches: no
stream is reported as finished twice, the reports come in the order of the requests, a further
orderly step removes a stream only from the front and with its report, and no orderly call of
the application reaches undefined behaviour. -/
theorem serverRun_finishes_in_order (handler : Callbacks) (inputs : List ServerInput)
    (world : ServerWorld) (orderly : Along (serverStep handler) (Orderly handler) {} inputs)
    (reached : run (serverStep handler) {} inputs = some world) :
    (finishedIds world.events).Nodup ∧
      finishedIds world.events <+: world.begun.map UInt32.toUInt64 ∧
      ∀ input, Orderly handler world input →
        ((∀ callback, input ≠ .callback callback) →
          (serverStep handler world input).isSome = true) ∧
        ∀ next, serverStep handler world input = some next →
          FinishesOnlyFront handler world next := by
  have order : InOrder handler world :=
    run_invariant_along (fun state input next kept condition stepped =>
      (serverStep_inOrder handler state input next kept condition stepped).1)
      (InOrder.initial handler) orderly reached
  refine ⟨order.finished.1, order.finished.2, fun input condition => ⟨?_, fun next stepped => ?_⟩⟩
  · exact serverStep_isSome handler world input order condition
  · exact (serverStep_inOrder handler world input next order condition stepped).2

/-- Two pipelined requests that are answered in their order. -/
def answeredPair : List ServerInput :=
  plainRequest ++ plainRequest ++
    [.sendResponse 1 (Response.make http11 204), .sendResponse 2 (Response.make http11 204)]

theorem serverRun_finishes_in_order_answered :
    ∃ world, run (serverStep {}) {} answeredPair = some world ∧
      finishedIds world.events = [1, 2] ∧ (finishedIds world.events).Nodup ∧
      finishedIds world.events <+: world.begun.map UInt32.toUInt64 := by
  have orderly : Along (serverStep {}) (Orderly {}) {} answeredPair :=
    .cons rfl (by decide : 0 < 2 ^ 32) <| .cons rfl trivial <| .cons rfl trivial <|
      .cons rfl trivial <| .cons rfl (by decide : 1 < 2 ^ 32) <| .cons rfl trivial <|
      .cons rfl trivial <| .cons rfl trivial <| .cons rfl trivial <| .cons rfl trivial trivial
  obtain ⟨distinct, ordered, -⟩ := serverRun_finishes_in_order {} answeredPair _ orderly rfl
  exact ⟨_, rfl, by decide, distinct, ordered⟩

/-- Two pipelined requests: a body that completes the second answer removes the first stream
from the queue and reports the second. -/
theorem pipelinedBody_finishes_other :
    ∃ world, run (serverStep {}) {}
        (plainRequest ++ plainRequest ++ [.sendBody 2 (ascii "x") true]) = some world ∧
      world.begun = [1, 2] ∧ finishedIds world.events = [2] ∧
      world.session.streams.map Stream.id = [2] ∧
      ¬finishedIds world.events <+: world.begun.map UInt32.toUInt64 :=
  ⟨_, rfl, by decide, by decide, by decide, by decide⟩

end NativeLibs.Http1
