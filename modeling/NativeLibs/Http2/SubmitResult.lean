/-
This file is about the result of `submit_body`. The call pushes its chunk into the
buffer of the stream and sets `HAS_EOF` before it schedules the data, and it does
not take that back when scheduling fails. Data that was scheduled before is
resumed, and nghttp2 refuses to resume a stream whose data is not deferred.

What nghttp2 knows of the stream is one bit: the read callback has returned
`NGHTTP2_ERR_DEFERRED` since the data was submitted or last resumed. Whether
`evbuffer_add` succeeds and what `nghttp2_submit_data` returns are arguments of
the call.
-/

import NativeLibs.Http2.Body

namespace NativeLibs.Http2

open Http Library

variable {endpoint : Endpoint}

/-! ### The call with its errors -/

/-- `NGHTTP2_ERR_INVALID_ARGUMENT`, for a stream without deferred data. -/
def errInvalidArgument : ℤ := -501

/-- The status of `schedule_send`. -/
def scheduleStatus (stream : Stream endpoint) (deferred : Bool) (submitStatus : ℤ) : ℤ :=
  if stream.flags.scheduled then if deferred then 0 else errInvalidArgument else submitStatus

/-- The errors of `submit_body_impl` with "Couldn't push data in buffer". -/
inductive BodyError where
  | couldntPush
  | submit (error : SubmitError)
  deriving DecidableEq

/-- `Http2Session::submit_body_impl` with an `evbuffer_add` that may fail: then nothing is added,
but there is a buffer and `HAS_EOF` is set. -/
def submitBody (session : Session endpoint) (streamId : UInt32) (chunk : Bytes) (eof added : Bool)
    (deferred : Bool) (submitStatus : ℤ) : Option BodyError × Session endpoint :=
  match session.streams.lookup streamId with
  | none => (some (.submit .streamNotFound), session)
  | some stream =>
    if added then
      let (error, session) := submitBodyImpl session streamId chunk eof
        (scheduleStatus stream deferred submitStatus)
      (error.map .submit, session)
    else (some .couldntPush, session.setStream streamId (pushData stream [] eof))

/-! ### Runs -/

/-- The calls that move the body of a stream. -/
inductive SubmitCall where
  | submitBody (chunk : Bytes) (eof added : Bool) (submitStatus : ℤ)
  | dataSourceRead (length : ℕ)

/-- A session and what happened to the body of one of its streams. -/
structure SubmitWorld (endpoint : Endpoint) where
  session : Session endpoint
  /-- The read callback has deferred since the data was submitted or last resumed. -/
  deferred : Bool := false
  /-- The chunks of the calls that succeeded. -/
  accepted : Bytes := []
  returned : Bytes := []

/-- One call for a stream. -/
def submitStep (handler : Handler) (streamId : UInt32) (world : SubmitWorld endpoint) :
    SubmitCall → Option (SubmitWorld endpoint)
  | .submitBody chunk eof added submitStatus =>
    let (error, session) :=
      submitBody world.session streamId chunk eof added world.deferred submitStatus
    let scheduled := (world.session.streams.lookup streamId).isSome && added
    some { world with
      session
      deferred := world.deferred && !scheduled
      accepted := world.accepted ++ if error = none then chunk else [] }
  | .dataSourceRead length =>
    (onDataSourceRead handler world.session streamId length).map fun outcome =>
      { world with
        session := outcome.2.1
        deferred := world.deferred || outcome.1 = .deferred
        returned := world.returned ++ outcome.1.bytes }

/-- The bytes in the buffer of a stream. -/
def pendingBytes (session : Session endpoint) (streamId : UInt32) : Bytes :=
  ((session.streams.lookup streamId).bind fun stream => stream.dataSource.buffer).getD []

/-- The flag `HAS_EOF` of a stream. -/
def pendingEof (session : Session endpoint) (streamId : UInt32) : Option Bool :=
  (session.streams.lookup streamId).map fun stream => stream.flags.hasEof

/-- A submission that returns an error leaves the buffer and `HAS_EOF` as they were. -/
def Truthful (streamId : UInt32) (world : SubmitWorld endpoint) : SubmitCall → Prop
  | .submitBody chunk eof added submitStatus =>
    let (error, session) :=
      submitBody world.session streamId chunk eof added world.deferred submitStatus
    error ≠ none → pendingBytes session streamId = pendingBytes world.session streamId ∧
      pendingEof session streamId = pendingEof world.session streamId
  | .dataSourceRead _ => True

/-- The stream is unknown; or the chunk can be added and scheduled, that is, nghttp2 takes the data
the first time, and later the read callback has deferred; or the call has nothing to add and does
not change the end. The condition is on the state before the call. -/
def Schedulable (streamId : UInt32) (world : SubmitWorld endpoint) : SubmitCall → Prop
  | .submitBody chunk eof added submitStatus =>
    ∀ stream, world.session.streams.lookup streamId = some stream →
      added = true ∧ (if stream.flags.scheduled then world.deferred = true else submitStatus = 0) ∨
      (added = true → chunk = []) ∧ eof = stream.flags.hasEof
  | .dataSourceRead _ => True

/-! ### One call -/

theorem scheduleStatus_eq_zero_iff (stream : Stream endpoint) (deferred : Bool)
    (submitStatus : ℤ) :
    scheduleStatus stream deferred submitStatus = 0 ↔
      if stream.flags.scheduled then deferred = true else submitStatus = 0 := by
  unfold scheduleStatus
  split
  · cases deferred with
    | true => exact iff_of_true rfl rfl
    | false => exact iff_of_false (by decide) Bool.false_ne_true
  · exact Iff.rfl

section

variable {session : Session endpoint} {streamId : UInt32} {stream : Stream endpoint}
  (found : session.streams.lookup streamId = some stream)

include found

theorem pendingBytes_found :
    pendingBytes session streamId = stream.dataSource.buffer.getD [] := by
  rw [pendingBytes, found, Option.bind_some]

theorem pendingEof_found : pendingEof session streamId = some stream.flags.hasEof := by
  rw [pendingEof, found, Option.map_some]

/-- A call on a stream of the session pushes what is added and sets the flag. -/
theorem submitBody_pushes (chunk : Bytes) (eof added deferred : Bool) (submitStatus : ℤ) :
    ∃ pushed : Stream endpoint,
      (submitBody session streamId chunk eof added deferred submitStatus).2 =
        session.setStream streamId pushed ∧
      pushed.dataSource.buffer =
        some (stream.dataSource.buffer.getD [] ++ if added then chunk else []) ∧
      pushed.flags.hasEof = eof := by
  cases added with
  | false =>
    refine ⟨pushData stream [] eof, ?_, rfl, rfl⟩
    simp only [submitBody, found, Bool.false_eq_true, if_false]
  | true =>
    refine ⟨scheduleSend (pushData stream chunk eof), ?_, rfl, rfl⟩
    simp only [submitBody, submitBodyImpl, found, if_true]
    split
    · rfl
    · rfl

theorem submitBody_succeeds_iff (chunk : Bytes) (eof added deferred : Bool) (submitStatus : ℤ) :
    (submitBody session streamId chunk eof added deferred submitStatus).1 = none ↔
      added = true ∧ scheduleStatus stream deferred submitStatus = 0 := by
  cases added with
  | false =>
    simp only [submitBody, found, Bool.false_eq_true, if_false, false_and]
    exact iff_of_false (Option.some_ne_none _) id
  | true =>
    simp only [submitBody, submitBodyImpl, found, if_true, true_and]
    by_cases zero : scheduleStatus stream deferred submitStatus = 0
    · simp only [zero, ne_eq, not_true_eq_false, if_false]
      exact iff_of_true rfl trivial
    · simp only [zero, ne_eq, not_false_eq_true, if_true]
      exact iff_of_false (Option.some_ne_none _) id

theorem submitBody_found (chunk : Bytes) (eof added deferred : Bool) (submitStatus : ℤ) :
    let result := submitBody session streamId chunk eof added deferred submitStatus
    pendingBytes result.2 streamId =
        stream.dataSource.buffer.getD [] ++ (if added then chunk else []) ∧
      pendingEof result.2 streamId = some eof := by
  obtain ⟨pushed, result, buffer, flag⟩ :=
    submitBody_pushes found chunk eof added deferred submitStatus
  have known := Session.lookup_setStream session streamId pushed
  dsimp only
  rw [result, pendingBytes_found known, pendingEof_found known, buffer, flag]
  exact ⟨rfl, rfl⟩

end

/-- A call for an unknown stream fails and does nothing. -/
theorem submitBody_unknown {session : Session endpoint} {streamId : UInt32}
    (unknown : session.streams.lookup streamId = none) (chunk : Bytes) (eof added deferred : Bool)
    (submitStatus : ℤ) :
    submitBody session streamId chunk eof added deferred submitStatus =
      (some (.submit .streamNotFound), session) := by
  rw [submitBody, unknown]

/-- A call that succeeds adds its chunk to the buffer. -/
theorem pendingBytes_succeeded {session : Session endpoint} {streamId : UInt32} {chunk : Bytes}
    {eof added deferred : Bool} {submitStatus : ℤ}
    (succeeded : (submitBody session streamId chunk eof added deferred submitStatus).1 = none) :
    pendingBytes (submitBody session streamId chunk eof added deferred submitStatus).2 streamId =
      pendingBytes session streamId ++ chunk := by
  cases found : session.streams.lookup streamId with
  | none =>
    rw [submitBody_unknown found] at succeeded
    cases succeeded
  | some stream =>
    have whole := ((submitBody_succeeds_iff found _ _ _ _ _).mp succeeded).1
    have bytes := (submitBody_found found chunk eof added deferred submitStatus).1
    rw [bytes, if_pos whole, pendingBytes_found found]

theorem truthful_iff_schedulable (streamId : UInt32) (world : SubmitWorld endpoint)
    (call : SubmitCall) : Truthful streamId world call ↔ Schedulable streamId world call := by
  cases call with
  | dataSourceRead length => exact Iff.rfl
  | submitBody chunk eof added submitStatus =>
    cases found : world.session.streams.lookup streamId with
    | none =>
      refine iff_of_true ?_ fun stream known => ?_
      · simp only [Truthful, submitBody_unknown found]
        exact fun _ => ⟨trivial, trivial⟩
      · cases found.symm.trans known
    | some stream =>
      obtain ⟨bytes, flag⟩ :=
        submitBody_found found chunk eof added world.deferred submitStatus
      simp only [Truthful, Schedulable, found, Option.some.injEq, forall_eq']
      rw [bytes, flag, pendingBytes_found found, pendingEof_found found, ne_eq,
        submitBody_succeeds_iff found, scheduleStatus_eq_zero_iff, or_iff_not_imp_left]
      refine imp_congr_right fun _ => and_congr ?_ Option.some_inj
      rw [List.append_right_eq_self]
      cases added with
      | true => simp
      | false => simp

theorem onDataSourceRead_bytes {handler : Handler} {session next : Session endpoint}
    {streamId : UInt32} {length : ℕ} {result : DataSourceRead} {events : List (Event endpoint)}
    (read : onDataSourceRead handler session streamId length = some (result, next, events)) :
    result.bytes ++ pendingBytes next streamId = pendingBytes session streamId := by
  unfold onDataSourceRead at read
  cases found : session.streams.lookup streamId with
  | none =>
    simp only [found] at read
    cases read
    rfl
  | some stream =>
    simp only [found] at read
    obtain ⟨buffer, source, read⟩ := Option.bind_eq_some_iff.mp read
    have pending : pendingBytes session streamId = buffer := by
      rw [pendingBytes_found found, source, Option.getD_some]
    rw [pending]
    split at read
    · cases read
      exact pending
    · cases read
      rw [pendingBytes_found (Session.lookup_setStream session streamId _)]
      exact List.take_append_drop length buffer

/-! ### Whole runs -/

/-- What was returned to nghttp2 and what is buffered are the chunks of the calls that succeeded. -/
def OnlyAccepted (streamId : UInt32) (world : SubmitWorld endpoint) : Prop :=
  world.returned ++ pendingBytes world.session streamId = world.accepted

/-- A truthful call hands over only what was accepted. -/
theorem OnlyAccepted.step {handler : Handler} {streamId : UInt32} {world next : SubmitWorld endpoint}
    {call : SubmitCall} (only : OnlyAccepted streamId world) (truthful : Truthful streamId world call)
    (stepped : submitStep handler streamId world call = some next) :
    OnlyAccepted streamId next := by
  unfold OnlyAccepted at only ⊢
  cases call with
  | submitBody chunk eof added submitStatus =>
    simp only [submitStep, Option.some.injEq] at stepped
    simp only [Truthful] at truthful
    rw [← stepped]
    dsimp only
    by_cases succeeded : (submitBody world.session streamId chunk eof added world.deferred
        submitStatus).1 = none
    · rw [if_pos succeeded, pendingBytes_succeeded succeeded, ← List.append_assoc, only]
    · rw [if_neg succeeded, List.append_nil, (truthful succeeded).1, only]
  | dataSourceRead length =>
    obtain ⟨⟨result, session, events⟩, read, rfl⟩ := Option.map_eq_some_iff.mp stepped
    dsimp only
    rw [List.append_assoc, onDataSourceRead_bytes read, only]

/-- For every stream and every interleaving of submissions and reads: every submission that returns
an error leaves the buffer and `HAS_EOF` as they were if and only if every submission for a known
stream can be scheduled or changes nothing. In such a run only the chunks of the calls that
succeeded are handed to nghttp2. -/
theorem submitBody_truthful_iff (handler : Handler) (streamId : UInt32)
    (start : SubmitWorld endpoint) (calls : List SubmitCall) :
    (Along (submitStep handler streamId) (Truthful streamId) start calls ↔
      Along (submitStep handler streamId) (Schedulable streamId) start calls) ∧
    (Along (submitStep handler streamId) (Truthful streamId) start calls →
      OnlyAccepted streamId start →
      ∀ final, run (submitStep handler streamId) start calls = some final →
        OnlyAccepted streamId final) := by
  have same : (Truthful streamId : SubmitWorld endpoint → SubmitCall → Prop) =
      Schedulable streamId :=
    funext fun world => funext fun call => propext (truthful_iff_schedulable streamId world call)
  refine ⟨by rw [same], fun truthful only final ran => ?_⟩
  exact run_invariant_along (fun _ _ _ kept meets stepped => kept.step meets stepped) only truthful
    ran

/-- A read that defers stands between two submissions. -/
theorem submitBody_truthful_iff_deferred :
    Along (submitStep everyCallback 1) (Truthful 1)
      ({ session := bodySession } : SubmitWorld .server)
      [.submitBody [1] false true 0, .dataSourceRead 5, .dataSourceRead 5,
        .submitBody [2] true true 0] := by
  refine (submitBody_truthful_iff everyCallback 1 _ _).1.mpr ?_
  refine .cons rfl (fun stream found => ?_) ?_
  · cases found
    exact Or.inl ⟨rfl, rfl⟩
  · refine .cons rfl trivial (.cons rfl trivial (.cons rfl (fun stream found => ?_) trivial))
    cases found
    exact Or.inl ⟨rfl, rfl⟩

/-- Two submissions without a read between them: the second returns an error, and the next read
returns both chunks. -/
theorem refusedChunk_handedOver :
    ∃ first second third,
      submitStep everyCallback 1 ({ session := bodySession } : SubmitWorld .server)
        (.submitBody [1] false true 0) = some first ∧
      (submitBody first.session 1 [2] false true first.deferred 0).1 =
        some (.submit (.couldntSchedule errInvalidArgument)) ∧
      submitStep everyCallback 1 first (.submitBody [2] false true 0) = some second ∧
      ¬Truthful 1 first (.submitBody [2] false true 0) ∧
      submitStep everyCallback 1 second (.dataSourceRead 5) = some third ∧
      third.accepted = [1] ∧ third.returned = [1, 2] := by
  refine ⟨_, _, _, rfl, rfl, rfl, fun truthful => ?_, rfl, rfl, rfl⟩
  exact absurd (truthful nofun).1 (by decide)

end NativeLibs.Http2
