/-
This file is about the calls with which the application sends and that return an
error. A failed call raises nothing, and it leaves the queue of streams alone with
one exception: a trailer for the first of several requests marks its stream and
then fails in the body call it makes, which looks at the last request.
-/

import NativeLibs.Http1.ServerOrder

namespace NativeLibs.Http1

open Http Library

/-! ### The calls of an endpoint -/

/-- A call with which the application sends. Only a server sends responses. -/
inductive SendCall : Side → Type where
  | response (streamId : UInt64) (response : Response) : SendCall .server
  | body {side : Side} (streamId : UInt64) (chunk : Bytes) (eof : Bool) : SendCall side
  | trailer {side : Side} (streamId : UInt32) (headers : Headers) (eof : Bool) : SendCall side

/-- The call on a session. -/
def SendCall.perform (handler : Callbacks) (session : Session) : {side : Side} → SendCall side →
    SendResult
  | _, .response streamId message => sendResponse handler session streamId message
  | side, .body streamId chunk eof => sendBodyImpl side handler session streamId chunk eof
  | side, .trailer streamId headers eof =>
    sendTrailerImpl side handler session streamId headers eof

/-- If the call fails, the queue is as before and no handler was called. -/
def FailsClean {side : Side} (handler : Callbacks) (session : Session) (call : SendCall side) :
    Prop :=
  ∀ error, (call.perform handler session).status = .error error →
    (call.perform handler session).session.streams = session.streams ∧
      (call.perform handler session).events = []

/-- A trailer of a server for the first request, before its last chunk, while the last request has
another id. -/
def TrailerBlocked (handler : Callbacks) (session : Session) : {side : Side} → SendCall side → Prop
  | .server, .trailer streamId _ _ =>
    handler.onOutput = true ∧ ∃ front rest, session.streams = front :: rest ∧
      streamId = front.id ∧ front.flags.zeroChunkSent = false ∧
      (front :: rest).getLast?.map Stream.id ≠ some front.id
  | _, _ => False

/-! ### Which calls fail -/

theorem FailsClean.of_rejected {side : Side} {handler : Callbacks} {session : Session}
    {call : SendCall side} {error : Http1Error}
    (refused : call.perform handler session = rejected session error) :
    FailsClean handler session call := by
  intro _ _
  rw [refused]
  exact ⟨rfl, rfl⟩

theorem FailsClean.of_noError {side : Side} {handler : Callbacks} {session : Session}
    {call : SendCall side}
    (succeeds : ∀ error, (call.perform handler session).status ≠ .error error) :
    FailsClean handler session call :=
  fun error failed => absurd failed (succeeds error)

theorem sendBodyImpl_ok {side : Side} {handler : Callbacks} {session : Session} {stream : Stream}
    (active : activeStream side session.streams = some stream) (chunk : Bytes) (eof : Bool) :
    (sendBodyImpl side handler session stream.id.toUInt64 chunk eof).status = .ok := by
  rw [sendBodyImpl_active side handler session _ chunk eof stream active rfl]

theorem failsClean_body {side : Side} (handler : Callbacks) (session : Session)
    (streamId : UInt64) (chunk : Bytes) (eof : Bool) :
    FailsClean handler session (.body streamId chunk eof : SendCall side) := by
  rcases sendBodyImpl_named_or_refused side handler session streamId chunk eof with
    ⟨stream, active, rfl⟩ | ⟨error, refused⟩
  · refine FailsClean.of_noError fun error failed => ?_
    cases (sendBodyImpl_ok active chunk eof).symm.trans failed
  · exact FailsClean.of_rejected refused

theorem failsClean_response (handler : Callbacks) (session : Session) (streamId : UInt64)
    (response : Response) : FailsClean handler session (.response streamId response) := by
  rcases sendResponse_effect handler session streamId response with
    ⟨error, refused⟩ | ⟨front, rest, -, -, accepted, -⟩
  · exact FailsClean.of_rejected refused
  · refine FailsClean.of_noError fun error failed => ?_
    cases accepted.symm.trans failed

theorem finishTrailer_noError (handler : Callbacks) (session : Session) (streamId : UInt32)
    (headers : Headers) (eof : Bool) (error : Http1Error) :
    (finishTrailer handler session streamId headers eof).status ≠ .error error := by
  unfold finishTrailer
  split
  · split
    · nofun
    · nofun
  · nofun

section

variable (side : Side) {handler : Callbacks} {session : Session} {front : Stream}
  {rest : List Stream} (streams : session.streams = front :: rest) (headers : Headers) (eof : Bool)

include streams

/-- A trailer call for the first stream succeeds if it does not have to write the last chunk, or
if the body call that writes it names the active stream. -/
theorem sendTrailerImpl_noError
    (writable : handler.onOutput = true → front.flags.zeroChunkSent = false →
      (activeStream side (front.markLastChunk :: rest)).map Stream.id = some front.id)
    (error : Http1Error) :
    (sendTrailerImpl side handler session front.id headers eof).status ≠ .error error := by
  cases writes : handler.onOutput with
  | false => simp [sendTrailerImpl, streams, writes]
  | true =>
    cases lastChunk : front.flags.zeroChunkSent with
    | true =>
      simp only [sendTrailerImpl, streams, writes, lastChunk, ne_eq, not_true_eq_false, if_false,
        if_true]
      exact finishTrailer_noError _ _ _ _ _ error
    | false =>
      obtain ⟨stream, active, sameId⟩ := Option.map_eq_some_iff.mp (writable writes lastChunk)
      have written : (sendBodyImpl side handler
          { session with streams := front.markLastChunk :: rest } front.id.toUInt64 [] false).status =
            .ok := by
        rw [← sameId]
        exact sendBodyImpl_ok active [] false
      simp only [sendTrailerImpl, streams, writes, lastChunk, ne_eq, not_true_eq_false, if_false,
        if_true, Bool.false_eq_true, sendLastChunk, written]
      exact finishTrailer_noError _ _ _ _ _ error

/-- A blocked trailer call fails with its stream marked. -/
theorem sendTrailerImpl_marks (writes : handler.onOutput = true)
    (lastChunk : front.flags.zeroChunkSent = false)
    (blocked : (activeStream side (front.markLastChunk :: rest)).map Stream.id ≠ some front.id) :
    ∃ error, sendTrailerImpl side handler session front.id headers eof =
      ⟨.error error, { session with streams := front.markLastChunk :: rest }, []⟩ := by
  obtain ⟨error, refused⟩ := sendBodyImpl_refused side handler
    { session with streams := front.markLastChunk :: rest } front.id.toUInt64 [] false (by
      intro stream active sameId
      refine blocked ?_
      rw [active, Option.map_some, UInt32.toUInt64_inj.mp sameId])
  refine ⟨.causedBy error, ?_⟩
  simp only [sendTrailerImpl, streams, writes, lastChunk, ne_eq, not_true_eq_false, if_false,
    if_true, Bool.false_eq_true, sendLastChunk, refused, rejected, reduceCtorEq]

end

theorem lastId_marked (front : Stream) (rest : List Stream) :
    (activeStream .server (front.markLastChunk :: rest)).map Stream.id =
      (front :: rest).getLast?.map Stream.id := by
  show (front.markLastChunk :: rest).getLast?.map Stream.id = _
  rw [← List.getLast?_map, ← List.getLast?_map]
  rfl

theorem markLastChunk_ne {stream : Stream} (unmarked : stream.flags.zeroChunkSent = false) :
    stream.markLastChunk ≠ stream := by
  intro same
  rw [← same] at unmarked
  cases unmarked

/-- A blocked trailer call does not fail clean: the queue has a mark it did not have. -/
theorem not_failsClean_of_blocked {handler : Callbacks} {session : Session}
    {call : SendCall .server} (blocked : TrailerBlocked handler session call) :
    ¬FailsClean handler session call := by
  intro clean
  cases call with
  | response streamId message => exact blocked
  | body streamId chunk eof => exact blocked
  | trailer streamId headers eof =>
    obtain ⟨writes, front, rest, streams, rfl, lastChunk, other⟩ := blocked
    rw [← lastId_marked] at other
    obtain ⟨error, failed⟩ :=
      sendTrailerImpl_marks .server streams headers eof writes lastChunk other
    have kept := (clean error (congrArg SendResult.status failed)).1
    rw [streams] at kept
    have marked := congrArg (fun result => result.session.streams) failed
    exact markLastChunk_ne lastChunk (List.cons.inj (marked.symm.trans kept)).1

theorem failsClean_trailer {side : Side} {handler : Callbacks} {session : Session}
    {streamId : UInt32} {headers : Headers} {eof : Bool}
    (unblocked : ¬TrailerBlocked handler session (.trailer streamId headers eof : SendCall side)) :
    FailsClean handler session (.trailer streamId headers eof : SendCall side) := by
  rcases sendTrailerImpl_named_or_refused side handler session streamId headers eof with
    ⟨front, rest, streams, rfl⟩ | ⟨error, refused⟩
  · refine FailsClean.of_noError fun error => ?_
    refine sendTrailerImpl_noError side streams headers eof (fun writes lastChunk => ?_) error
    cases side with
    | client => rfl
    | server =>
      rw [lastId_marked]
      by_contra other
      exact unblocked ⟨writes, front, rest, streams, rfl, lastChunk, other⟩
  · exact FailsClean.of_rejected refused

/-- For every session of either side and every sending call: if the call fails, the queue is as
before and nothing was written, unless it is a trailer of a server for the first request, before
its last chunk and with an output handler, while the last request has another id. -/
theorem failedSend_clean_iff (side : Side) (handler : Callbacks) (session : Session)
    (call : SendCall side) :
    FailsClean handler session call ↔ ¬TrailerBlocked handler session call := by
  constructor
  · intro clean blocked
    cases side with
    | server => exact not_failsClean_of_blocked blocked clean
    | client => cases call <;> exact blocked
  · intro unblocked
    cases call with
    | response streamId message => exact failsClean_response handler session streamId message
    | body streamId chunk eof => exact failsClean_body handler session streamId chunk eof
    | trailer streamId headers eof => exact failsClean_trailer unblocked

/-- A trailer that names no stream of the queue. -/
theorem failedSend_clean_iff_unknown :
    ∃ world, run (serverStep {}) {} (plainRequest ++ plainRequest) = some world ∧
      FailsClean {} world.session (.trailer 7 {} true : SendCall .server) := by
  refine ⟨_, rfl, (failedSend_clean_iff .server {} _ _).mpr ?_⟩
  rintro ⟨-, front, rest, streams, unknown, -⟩
  obtain ⟨rfl, -⟩ := List.cons.inj streams
  cases unknown

/-- Two pipelined requests: a trailer for the first fails and leaves its stream marked. -/
theorem pipelinedTrailer_failsMarked :
    ∃ world error, run (serverStep {}) {} (plainRequest ++ plainRequest) = some world ∧
      (Server.sendTrailer {} world.session 1 {} true).status = .error error ∧
      world.session.streams.map (fun stream => stream.flags.zeroChunkSent) = [false, false] ∧
      (Server.sendTrailer {} world.session 1 {} true).session.streams.map
        (fun stream => stream.flags.zeroChunkSent) = [true, false] ∧
      ¬FailsClean {} world.session (.trailer 1 {} true : SendCall .server) := by
  refine ⟨_, .causedBy (.message "Invalid stream ID (1), expected 2"), rfl, by decide +kernel,
    by decide +kernel, by decide +kernel, fun clean => ?_⟩
  have kept := clean (.causedBy (.message "Invalid stream ID (1), expected 2")) (by decide +kernel)
  exact absurd kept.1 (by decide +kernel)

end NativeLibs.Http1
