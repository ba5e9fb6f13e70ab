/-
This file follows the data readers that `Http3Server::submit_response` passes to
nghttp3. A response that is not the end of its stream creates the buffer of the
stream and passes a reader with `on_read_data`, but only if there is no buffer yet.
Behind a call that has created one, be it `submit_body` or an earlier response that
was not the end, such as an interim one, nghttp3 gets a reader without `read_data`.

So the readers are right exactly as long as no response that is not the end comes
behind another call with a body for the stream. What was submitted can then be read
to the last byte.
-/

import NativeLibs.Http3.Body
import NativeLibs.Http3.Callbacks

namespace NativeLibs.Http3

open Http Library

/-! ### The calls -/

/-- The calls of the application that answer requests. -/
inductive ServerCall where
  | submitResponse (streamId : UInt64) (response : Response) (eof : Bool)
      (submitStatus resumeStatus : ℤ)
  | submitBody (streamId : UInt64) (chunk : Bytes) (eof : Bool) (status : ℤ)

namespace ServerCall

/-- A call, with what it calls in turn. -/
def perform (session : Session .server) : ServerCall → Session .server × List (Effect .server)
  | .submitResponse streamId response eof submitStatus resumeStatus =>
    (Http3.submitResponse session streamId response eof submitStatus resumeStatus).2
  | .submitBody streamId chunk eof status =>
    ((submitBodyImpl session streamId chunk eof status).2, submitBodyCalls session streamId)

/-- A response on the stream that is not its end. -/
def opens (streamId : UInt64) : ServerCall → Bool
  | .submitResponse id _ eof _ _ => id = streamId && !eof
  | .submitBody _ _ _ _ => false

/-- A call for the stream that needs its buffer. -/
def buffers (streamId : UInt64) : ServerCall → Bool
  | .submitResponse id _ eof _ _ => id = streamId && !eof
  | .submitBody id _ _ _ => id = streamId

/-- The bytes submitted for the stream. -/
def body (streamId : UInt64) : ServerCall → Bytes
  | .submitResponse _ _ _ _ _ => []
  | .submitBody id chunk _ _ => if id = streamId then chunk else []

end ServerCall

/-- One call on a server. -/
def serverStep (session : Session .server) (call : ServerCall) : Option (Session .server) :=
  some (call.perform session).1

/-- A response on the stream that is not its end passes a reader with `on_read_data`, and the stream
then has a buffer. -/
def InstallsReader (streamId : UInt64) (session : Session .server) (call : ServerCall) : Prop :=
  ∀ response submitStatus resumeStatus,
    call = .submitResponse streamId response false submitStatus resumeStatus →
      .called (.submitResponse streamId.toInt64 response (some ⟨true⟩)) ∈ (call.perform session).2 ∧
      ∃ stream buffer, (call.perform session).1.streams.lookup streamId = some stream ∧
        stream.dataSource.buffer = some buffer

/-- As many reads as there are bytes hand all of them out, with any number of vectors. -/
def HandsOutAll (streamId : UInt64) (session : Session .server) (submitted : Bytes) : Prop :=
  ∀ vecNum, 0 < intOf vecNum → ∃ world,
    run (bodyStep streamId) { session, submitted }
      (List.replicate submitted.length (.readData vecNum)) = some world ∧
    world.handedOut = submitted

/-! ### What a call does to a stream -/

/-- A stream for a request other than `HEAD`, with what was submitted and never read. -/
structure Answered (streamId : UInt64) (session : Session .server) (stream : Stream .server)
    (submitted : Bytes) : Prop where
  found : session.streams.lookup streamId = some stream
  notHead : stream.flags.headRequest = false
  buffered : Buffered submitted [] 0 stream.dataSource

/-- A response opens the body of a stream that has no buffer, and changes nothing otherwise. -/
theorem submitResponse_of_lookup {session : Session .server} {streamId : UInt64}
    {stream : Stream .server} (found : session.streams.lookup streamId = some stream)
    (notHead : stream.flags.headRequest = false) (response : Response) (eof : Bool)
    (submitStatus resumeStatus : ℤ) :
    (submitResponse session streamId response eof submitStatus resumeStatus).2.1 =
        (if !eof && stream.dataSource.buffer.isNone then
          session.setStream streamId { stream with
            dataSource := { stream.dataSource with buffer := some Segments.empty } }
        else session) ∧
      ∃ resumed, (submitResponse session streamId response eof submitStatus resumeStatus).2.2 =
        .called (.submitResponse streamId.toInt64 response
          (if eof then none else some ⟨!eof && stream.dataSource.buffer.isNone⟩)) :: resumed ∧
        ∀ effect ∈ resumed, effect = .called (.resumeStream streamId.toInt64) := by
  simp only [submitResponse, found, notHead, Bool.or_false]
  by_cases failed : submitStatus ≠ 0
  · rw [if_pos failed]
    exact ⟨rfl, [], rfl, List.forall_mem_nil _⟩
  · rw [if_neg failed]
    split
    · exact ⟨rfl, _, rfl, fun effect => List.mem_singleton.mp⟩
    · exact ⟨rfl, _, rfl, fun effect => List.mem_singleton.mp⟩

theorem lookup_setStream_of_ne {session : Session .server} {streamId other : UInt64}
    (differ : other ≠ streamId) (stream : Stream .server) :
    (session.setStream other stream).streams.lookup streamId = session.streams.lookup streamId :=
  AList.lookup_insert_ne differ.symm

theorem submitResponse_of_ne {session : Session .server} {streamId other : UInt64}
    (differ : other ≠ streamId) (response : Response) (eof : Bool) (submitStatus resumeStatus : ℤ) :
    (submitResponse session other response eof submitStatus resumeStatus).2.1.streams.lookup
      streamId = session.streams.lookup streamId := by
  unfold submitResponse
  cases session.streams.lookup other with
  | none => rfl
  | some stream =>
    simp only
    split_ifs
    all_goals first | rfl | exact lookup_setStream_of_ne differ _

theorem submitBodyImpl_of_ne {session : Session .server} {streamId other : UInt64}
    (differ : other ≠ streamId) (chunk : Bytes) (eof : Bool) (status : ℤ) :
    (submitBodyImpl session other chunk eof status).2.streams.lookup streamId =
      session.streams.lookup streamId := by
  unfold submitBodyImpl
  cases session.streams.lookup other with
  | none => rfl
  | some stream =>
    simp only
    split_ifs <;> exact lookup_setStream_of_ne differ _

namespace Answered

variable {streamId : UInt64} {session : Session .server} {stream : Stream .server}
  {submitted : Bytes}

theorem of_lookup_eq (answered : Answered streamId session stream submitted)
    {other : Session .server}
    (same : other.streams.lookup streamId = session.streams.lookup streamId) :
    Answered streamId other stream submitted :=
  ⟨same.trans answered.found, answered.notHead, answered.buffered⟩

/-- A response submits no bytes. If it is not the end, there is a buffer from then on. -/
theorem respond (answered : Answered streamId session stream submitted) (response : Response)
    (eof : Bool) (submitStatus resumeStatus : ℤ) :
    ∃ next,
      Answered streamId
        (submitResponse session streamId response eof submitStatus resumeStatus).2.1 next
        submitted ∧
      next.dataSource.buffer.isSome = (stream.dataSource.buffer.isSome || !eof) := by
  obtain ⟨changed, -⟩ := submitResponse_of_lookup answered.found answered.notHead response eof
    submitStatus resumeStatus
  rw [changed]
  cases eof with
  | true => exact ⟨stream, answered, (Bool.or_false _).symm⟩
  | false =>
    cases source : stream.dataSource.buffer with
    | some buffer => exact ⟨stream, answered, congrArg Option.isSome source⟩
    | none =>
      -- an empty buffer holds what no buffer holds
      have contents := answered.buffered.contents
      rw [DataSource.segments, source] at contents
      exact ⟨_, ⟨Session.lookup_setStream _ _ _, answered.notHead, contents,
        answered.buffered.offset, answered.buffered.inOrder⟩, rfl⟩

/-- A call for the stream adds its bytes to the buffer, which is there from then on. -/
theorem perform (answered : Answered streamId session stream submitted) (call : ServerCall) :
    ∃ next, Answered streamId (call.perform session).1 next (submitted ++ call.body streamId) ∧
      next.dataSource.buffer.isSome =
        (stream.dataSource.buffer.isSome || call.buffers streamId) := by
  cases call with
  | submitResponse id response eof submitStatus resumeStatus =>
    simp only [ServerCall.perform, ServerCall.body, List.append_nil, ServerCall.buffers]
    by_cases same : id = streamId
    · subst same
      rw [decide_eq_true rfl, Bool.true_and]
      exact answered.respond response eof submitStatus resumeStatus
    · rw [decide_eq_false same, Bool.false_and, Bool.or_false]
      exact ⟨stream, answered.of_lookup_eq (submitResponse_of_ne same _ _ _ _), rfl⟩
  | submitBody id chunk eof status =>
    simp only [ServerCall.perform, ServerCall.body, ServerCall.buffers]
    by_cases same : id = streamId
    · subst same
      rw [submitBodyImpl_of_lookup answered.found, if_pos rfl, decide_eq_true rfl, Bool.or_true]
      exact ⟨pushData stream chunk eof, ⟨Session.lookup_setStream _ _ _, answered.notHead,
        answered.buffered.push chunk eof⟩, rfl⟩
    · rw [if_neg same, List.append_nil, decide_eq_false same, Bool.or_false]
      exact ⟨stream, answered.of_lookup_eq (submitBodyImpl_of_ne same _ _ _), rfl⟩

theorem installsReader_iff (answered : Answered streamId session stream submitted)
    (call : ServerCall) :
    InstallsReader streamId session call ↔
      (call.opens streamId = true → stream.dataSource.buffer.isSome = false) := by
  constructor
  · intro installs opens
    cases call with
    | submitBody id chunk eof status => cases opens
    | submitResponse id response eof submitStatus resumeStatus =>
      rw [ServerCall.opens, Bool.and_eq_true, decide_eq_true_iff, Bool.not_eq_true'] at opens
      obtain ⟨rfl, rfl⟩ := opens
      obtain ⟨passed, -⟩ := installs response submitStatus resumeStatus rfl
      obtain ⟨-, resumed, effects, others⟩ := submitResponse_of_lookup answered.found
        answered.notHead response false submitStatus resumeStatus
      rw [ServerCall.perform, effects] at passed
      rcases List.mem_cons.mp passed with same | other
      · have reader := (LibraryCall.submitResponse.inj (Effect.called.inj same)).2.2
        have creates := (DataReader.mk.inj (Option.some.inj reader)).symm
        exact Option.isSome_eq_false_iff.mpr creates
      · cases others _ other
  · intro unbuffered response submitStatus resumeStatus same
    subst same
    have opens : (ServerCall.submitResponse streamId response false submitStatus
        resumeStatus).opens streamId = true := by
      rw [ServerCall.opens, decide_eq_true rfl]
      rfl
    have none : stream.dataSource.buffer = none :=
      Option.isNone_iff_eq_none.mp (Option.isSome_eq_false_iff.mp (unbuffered opens))
    obtain ⟨changed, resumed, effects, -⟩ := submitResponse_of_lookup answered.found
      answered.notHead response false submitStatus resumeStatus
    rw [none] at changed effects
    constructor
    · rw [ServerCall.perform, effects]
      exact List.mem_cons_self
    · rw [ServerCall.perform, changed]
      exact ⟨_, Segments.empty, Session.lookup_setStream _ _ _, rfl⟩

/-- Behind a call that needs the buffer no response comes that is not the end. -/
theorem along_installsReader_iff (answered : Answered streamId session stream submitted)
    (calls : List ServerCall) :
    Along serverStep (InstallsReader streamId) session calls ↔
      (stream.dataSource.buffer.isSome = true → ∀ call ∈ calls, call.opens streamId = false) ∧
      calls.Pairwise fun earlier later =>
        earlier.buffers streamId = true → later.opens streamId = false := by
  induction calls generalizing session stream submitted with
  | nil => exact iff_of_true trivial ⟨fun _ => List.forall_mem_nil _, .nil⟩
  | cons call rest inductionHypothesis =>
    obtain ⟨next, answeredNext, bufferNext⟩ := answered.perform call
    have later : (∀ after, serverStep session call = some after →
        Along serverStep (InstallsReader streamId) after rest) ↔
        Along serverStep (InstallsReader streamId) (call.perform session).1 rest := by
      refine ⟨fun all => all _ rfl, fun holds after stepped => ?_⟩
      rw [← Option.some.inj stepped]
      exact holds
    rw [Along, later, answered.installsReader_iff, inductionHypothesis answeredNext, bufferNext,
      List.forall_mem_cons, List.pairwise_cons, Bool.or_eq_true]
    constructor
    · rintro ⟨first, behind, pairs⟩
      refine ⟨fun buffered => ⟨?_, behind (.inl buffered)⟩,
        fun after member buffers => behind (.inr buffers) after member, pairs⟩
      exact Bool.eq_false_iff.mpr fun opens =>
        Bool.false_ne_true ((first opens).symm.trans buffered)
    · rintro ⟨behindBuffer, behindCall, pairs⟩
      refine ⟨fun opens => Bool.eq_false_iff.mpr fun buffered => ?_, ?_, pairs⟩
      · exact Bool.false_ne_true ((behindBuffer buffered).1.symm.trans opens)
      · rintro (buffered | buffers)
        · exact (behindBuffer buffered).2
        · exact fun after member => behindCall after member buffers

theorem run (answered : Answered streamId session stream submitted) (calls : List ServerCall) :
    ∃ final reached, Library.run serverStep session calls = some final ∧
      Answered streamId final reached (submitted ++ calls.flatMap (ServerCall.body streamId)) := by
  induction calls generalizing session stream submitted with
  | nil =>
    refine ⟨session, stream, rfl, ?_⟩
    rw [List.flatMap_nil, List.append_nil]
    exact answered
  | cons call rest inductionHypothesis =>
    obtain ⟨next, answeredNext, -⟩ := answered.perform call
    obtain ⟨final, reached, ran, kept⟩ := inductionHypothesis answeredNext
    refine ⟨final, reached, ran, ?_⟩
    rw [List.flatMap_cons, ← List.append_assoc]
    exact kept

end Answered

/-! ### Reading everything -/

/-- Every read takes something as long as there is something. -/
theorem reads_handOut {streamId : UInt64} {vecNum : ℕ} (positive : 0 < intOf vecNum) (count : ℕ)
    {world : BodyWorld .server} {stream : Stream .server} {buffer : Segments UInt8}
    (found : world.session.streams.lookup streamId = some stream)
    (source : stream.dataSource.buffer = some buffer)
    (buffered : Buffered world.submitted world.handedOut world.acknowledged stream.dataSource)
    (enough : world.submitted.length ≤ world.handedOut.length + count) :
    ∃ final, run (bodyStep streamId) world (List.replicate count (.readData vecNum)) = some final ∧
      final.handedOut = world.submitted := by
  induction count generalizing world stream with
  | zero => exact ⟨world, rfl, buffered.inOrder.eq_of_length_le enough⟩
  | succ count inductionHypothesis =>
    have segments := DataSource.segments_of_buffer source
    have read := buffered.read (intOf vecNum).toNat rfl
    have within := buffered.offset_le
    have total := buffered.length_add
    have offset := buffered.offset
    rw [segments] at read within total
    have performed := onReadData_of_lookup found source within positive rfl
    have grows : world.submitted.length ≤ (world.handedOut ++ (buffer.peek
        stream.dataSource.readOffset (intOf vecNum).toNat).flatten).length + count := by
      rw [List.length_append]
      by_cases atEnd : buffer.length ≤ stream.dataSource.readOffset
      · omega
      · have some : 0 < (buffer.peek stream.dataSource.readOffset
            (intOf vecNum).toNat).flatten.length := by
          rw [List.length_pos_iff, ne_eq,
            Segments.flatten_peek_eq_nil_iff _ _ _ (Int.lt_toNat.mpr positive)]
          exact atEnd
        omega
    rw [List.replicate_succ, Library.run, bodyStep, performed, Option.map_some, Option.bind_some,
      bytes_readResult]
    exact inductionHypothesis (Session.lookup_setStream _ _ _) rfl read grows

theorem Answered.handsOutAll {streamId : UInt64} {session : Session .server}
    {stream : Stream .server} {submitted : Bytes}
    (answered : Answered streamId session stream submitted) :
    HandsOutAll streamId session submitted := by
  intro vecNum positive
  cases source : stream.dataSource.buffer with
  | some buffer =>
    exact reads_handOut positive submitted.length answered.found source answered.buffered
      (Nat.le_add_left _ _)
  | none =>
    -- without a buffer nothing was submitted
    have contents := answered.buffered.contents
    rw [DataSource.segments, source] at contents
    obtain rfl : [] = submitted := contents
    exact ⟨_, rfl, rfl⟩

/-! ### Responses -/

/-- A stream whose request is complete and is not `HEAD` is marked so, and its data source is as it
was. -/
theorem onEndHeaders_of_request (handler : Handler) {session : Session .server} {streamId : Int64}
    {stream : Stream .server} {request : Request}
    (found : session.streams.lookup streamId.toUInt64 = some stream)
    (received : stream.message = some request) (notHead : request.method ≠ ascii "HEAD")
    (fin : Bool) :
    ∃ next effects reached, onEndHeaders handler session streamId fin = some (.ok, next, effects) ∧
      next.streams.lookup streamId.toUInt64 = some reached ∧
      reached.flags.headRequest = false ∧ reached.dataSource = stream.dataSource := by
  simp only [onEndHeaders, found, received, Option.bind_eq_bind]
  exact ⟨_, _, _, rfl, Session.lookup_setStream _ _ _, decide_eq_false notHead, rfl⟩

/-- For every stream for a request other than `HEAD` that was not answered yet, and every sequence
of calls, for it and for other streams: each response that is not the end passes a reader with
`on_read_data` and leaves a buffer, and everything submitted can be read, exactly when no response
that is not the end comes behind a `submit_body` or another such response for the stream. -/
theorem responses_readable_iff (session : Session .server) (streamId : UInt64)
    (stream : Stream .server) (found : session.streams.lookup streamId = some stream)
    (notHead : stream.flags.headRequest = false) (unanswered : stream.dataSource = {})
    (calls : List ServerCall) :
    (Along serverStep (InstallsReader streamId) session calls ∧
      ∃ final, run serverStep session calls = some final ∧
        HandsOutAll streamId final (calls.flatMap (ServerCall.body streamId))) ↔
      calls.Pairwise fun earlier later =>
        earlier.buffers streamId = true → later.opens streamId = false := by
  have answered : Answered streamId session stream [] := by
    refine ⟨found, notHead, ?_, ?_, List.prefix_refl _⟩
    · rw [unanswered]
      rfl
    · rw [unanswered]
      rfl
  obtain ⟨final, reached, ran, kept⟩ := answered.run calls
  have readable : ∃ final, run serverStep session calls = some final ∧
      HandsOutAll streamId final (calls.flatMap (ServerCall.body streamId)) :=
    ⟨final, ran, kept.handsOutAll⟩
  have unbuffered : stream.dataSource.buffer.isSome ≠ true := by
    rw [unanswered]
    exact Bool.false_ne_true
  rw [and_iff_left readable, answered.along_installsReader_iff]
  exact and_iff_right fun buffered => absurd buffered unbuffered

/-- A server that has received one request. -/
def requestedServer : Session .server :=
  let begun := (onBeginHeaders ⟨∅⟩ 0).2
  let received := (onRecvHeader begun 0 (ascii ":method") (ascii "GET")).2
  (onEndHeaders everyCallback received 0 true).elim received fun outcome => outcome.2.1

/-- A response that is followed by its body. -/
theorem responses_readable_iff_followed :
    ∃ final, run serverStep requestedServer [.submitResponse 0 (.make http30 200) false 0 0,
        .submitBody 0 [1, 2] true 0] = some final ∧ HandsOutAll 0 final [1, 2] :=
  ((responses_readable_iff requestedServer 0 {} rfl rfl rfl
    [.submitResponse 0 (.make http30 200) false 0 0, .submitBody 0 [1, 2] true 0]).mpr
    (by decide)).2

/-- Behind an interim response the final one passes a reader without `read_data`. -/
theorem interim_takes_reader :
    ∃ next, run serverStep requestedServer [.submitResponse 0 (.make http30 103) false 0 0] =
        some next ∧
      ((ServerCall.submitResponse 0 (.make http30 200) false 0 0).perform next).2 =
        [.called (.submitResponse 0 (.make http30 200) (some ⟨false⟩)),
          .called (.resumeStream 0)] :=
  ⟨_, rfl, rfl⟩

end NativeLibs.Http3
