/-
This file follows the body of one HTTP/2 stream. `submit_body` appends to the
buffer of the stream, and nghttp2 reads from it when it is ready to send. The two
meet only in the buffer and in `HAS_EOF`, which every submission overwrites.

Beside the session a run records what was submitted and what the reads returned.
What they returned and what is still buffered make up what was submitted, and
from there every read is determined.
-/

import NativeLibs.Http2.Session
import NativeLibs.Library.Runs

namespace NativeLibs.Http2

open Http Library

variable {endpoint : Endpoint}

/-! ### Runs -/

/-- The calls that move the body of a stream. -/
inductive BodyCall where
  | submitBody (chunk : Bytes) (eof : Bool) (status : ℤ)
  | dataSourceRead (length : ℕ)

/-- A session and what happened to the body of one of its streams. -/
structure BodyWorld (endpoint : Endpoint) where
  session : Session endpoint
  submitted : Bytes := []
  /-- Something was submitted, so that nghttp2 has the data source. -/
  started : Bool := false
  eofSubmitted : Bool := false
  returned : Bytes := []
  /-- The last read set `NGHTTP2_DATA_FLAG_EOF`. -/
  eofSet : Bool := false

/-- One call for a stream. -/
def bodyStep (handler : Handler) (streamId : UInt32) (world : BodyWorld endpoint) :
    BodyCall → Option (BodyWorld endpoint)
  | .submitBody chunk eof status => some
    { world with
      session := (submitBodyImpl world.session streamId chunk eof status).2
      submitted := world.submitted ++ chunk
      started := true
      eofSubmitted := world.eofSubmitted || eof }
  | .dataSourceRead length =>
    (onDataSourceRead handler world.session streamId length).map fun outcome =>
      { world with
        session := outcome.2.1
        returned := world.returned ++ outcome.1.bytes
        eofSet := outcome.1.eof }

/-- Nothing is submitted after the end, and nghttp2 reads from a data source it was given, into
memory that is not empty. -/
def BodyAllowed (world : BodyWorld endpoint) : BodyCall → Prop
  | .submitBody _ _ _ => world.eofSubmitted = false
  | .dataSourceRead length => world.started = true ∧ 0 < length

/-! ### The invariant -/

/-- What the reads returned and what is buffered make up what was submitted. -/
structure Queued (streamId : UInt32) (world : BodyWorld endpoint) (stream : Stream endpoint) :
    Prop where
  found : world.session.streams.lookup streamId = some stream
  contents : world.returned ++ stream.dataSource.buffer.getD [] = world.submitted
  source : world.started = true → stream.dataSource.buffer.isSome
  eof : world.started = true → stream.flags.hasEof = world.eofSubmitted

/-- What a read of a stream returns. -/
structure Returns (world : BodyWorld endpoint) (buffer : Bytes) (length : ℕ)
    (result : DataSourceRead) : Prop where
  noFailure : result ≠ .temporalCallbackFailure
  bytes : result.bytes = buffer.take length
  eof : result.eof = true ↔ world.eofSubmitted = true ∧ buffer.drop length = []
  deferred : result = .deferred ↔ buffer = [] ∧ world.eofSubmitted = false

namespace Queued

variable {streamId : UInt32} {world : BodyWorld endpoint} {stream : Stream endpoint}

theorem submitBody (queued : Queued streamId world stream) (handler : Handler) (chunk : Bytes)
    (eof : Bool) (status : ℤ) (open_ : world.eofSubmitted = false) :
    ∃ next, bodyStep handler streamId world (.submitBody chunk eof status) = some next ∧
      ∃ nextStream, Queued streamId next nextStream := by
  have session : (submitBodyImpl world.session streamId chunk eof status).2 =
      world.session.setStream streamId (scheduleSend (pushData stream chunk eof)) := by
    simp only [submitBodyImpl, queued.found]
    split
    · rfl
    · rfl
  refine ⟨_, rfl, scheduleSend (pushData stream chunk eof), ?_, ?_, fun _ => rfl, fun _ => ?_⟩
  · rw [session]
    exact Session.lookup_setStream _ _ _
  · show world.returned ++ (stream.dataSource.buffer.getD [] ++ chunk) = world.submitted ++ chunk
    rw [← List.append_assoc, queued.contents]
  · show eof = (world.eofSubmitted || eof)
    rw [open_, Bool.false_or]

/-- A read takes the next bytes out of the buffer. -/
theorem dataSourceRead (queued : Queued streamId world stream) (handler : Handler) (length : ℕ)
    (started : world.started = true) :
    ∃ result next events,
      onDataSourceRead handler world.session streamId length = some (result, next, events) ∧
      Returns world (stream.dataSource.buffer.getD []) length result ∧
      ∃ nextStream,
        nextStream.dataSource.buffer.getD [] = (stream.dataSource.buffer.getD []).drop length ∧
        Queued streamId
          { world with
            session := next
            returned := world.returned ++ result.bytes
            eofSet := result.eof } nextStream := by
  obtain ⟨buffer, source⟩ := Option.isSome_iff_exists.mp (queued.source started)
  have eof := queued.eof started
  have contents := queued.contents
  rw [source, Option.getD_some] at contents ⊢
  by_cases deferred : buffer = [] ∧ world.eofSubmitted = false
  · -- nothing is taken, and the stream stays as it is
    obtain ⟨empty, open_⟩ := deferred
    refine ⟨.deferred, world.session, [], ?_, ⟨DataSourceRead.noConfusion, ?_, ?_, ?_⟩, stream,
      ?_, queued.found, ?_, queued.source, queued.eof⟩
    · simp only [onDataSourceRead, queued.found, source, eof, open_, empty]
      rfl
    · rw [empty, List.take_nil]
      rfl
    · rw [open_]
      exact iff_of_false Bool.noConfusion fun impossible => Bool.noConfusion impossible.1
    · exact iff_of_true rfl ⟨empty, open_⟩
    · rw [source, Option.getD_some, empty, List.drop_nil]
    · rw [source, Option.getD_some]
      exact (congrArg (· ++ buffer) (List.append_nil _)).trans contents
  · have continues : (!stream.flags.hasEof && buffer.isEmpty) = false := by
      rw [Bool.eq_false_iff, eof]
      intro stops
      rw [Bool.and_eq_true, Bool.not_eq_true', List.isEmpty_iff] at stops
      exact deferred stops.symm
    let nextStream : Stream endpoint := { stream with dataSource := ⟨some (buffer.drop length)⟩ }
    refine ⟨.data (buffer.take length) (stream.flags.hasEof && (buffer.drop length).isEmpty),
      world.session.setStream streamId nextStream,
      raise handler (.dataSent streamId (buffer.take length).length), ?_,
      ⟨DataSourceRead.noConfusion, rfl, ?_, ?_⟩, nextStream, rfl,
      Session.lookup_setStream _ _ _, ?_, fun _ => rfl, queued.eof⟩
    · simp only [onDataSourceRead, queued.found, source, Option.bind_eq_bind, Option.bind_some,
        continues]
      rfl
    · show (stream.flags.hasEof && (buffer.drop length).isEmpty) = true ↔ _
      rw [Bool.and_eq_true, List.isEmpty_iff, eof]
    · exact iff_of_false DataSourceRead.noConfusion deferred
    · show world.returned ++ buffer.take length ++ buffer.drop length = world.submitted
      rw [List.append_assoc, List.take_append_drop, contents]

/-- Once the end is submitted, reads empty the buffer, and the last one sets the flag. -/
theorem reads_deliver (handler : Handler) (lengths : List ℕ)
    (queued : Queued streamId world stream) (started : world.started = true)
    (ended : world.eofSubmitted = true) (positive : ∀ length ∈ lengths, 0 < length)
    (some_ : lengths ≠ [])
    (enough : (stream.dataSource.buffer.getD []).length ≤ lengths.length) :
    ∃ final, run (bodyStep handler streamId) world (lengths.map .dataSourceRead) = some final ∧
      final.returned = world.submitted ∧ final.eofSet = true := by
  induction lengths generalizing world stream with
  | nil => exact absurd rfl some_
  | cons length rest inductionHypothesis =>
    obtain ⟨result, next, events, performed, returns, nextStream, remaining, kept⟩ :=
      queued.dataSourceRead handler length started
    have lengthPositive := positive length List.mem_cons_self
    have shorter : (nextStream.dataSource.buffer.getD []).length ≤ rest.length := by
      rw [remaining, List.length_drop]
      rw [List.length_cons] at enough
      omega
    rw [List.map_cons, run, bodyStep, performed, Option.map_some, Option.bind_some]
    cases rest with
    | nil =>
      have emptied := List.eq_nil_of_length_eq_zero (Nat.le_zero.mp shorter)
      refine ⟨_, rfl, ?_, returns.eof.mpr ⟨ended, remaining.symm.trans emptied⟩⟩
      have contents := kept.contents
      rw [emptied, List.append_nil] at contents
      exact contents
    | cons second later =>
      exact inductionHypothesis kept started ended
        (fun length member => positive length (List.mem_cons_of_mem _ member))
        (List.cons_ne_nil _ _) shorter

end Queued

/-- Every call that is allowed keeps the queue, and once the end is submitted nghttp2 has the data
source. -/
theorem bodyStep_queued (handler : Handler) (streamId : UInt32) (world : BodyWorld endpoint)
    (call : BodyCall)
    (queued : (world.eofSubmitted = true → world.started = true) ∧
      ∃ stream, Queued streamId world stream)
    (allowed : BodyAllowed world call) :
    ∃ next, bodyStep handler streamId world call = some next ∧
      (next.eofSubmitted = true → next.started = true) ∧ ∃ stream, Queued streamId next stream := by
  obtain ⟨begun, stream, queued⟩ := queued
  cases call with
  | submitBody chunk eof status =>
    obtain ⟨next, performed, kept⟩ := queued.submitBody handler chunk eof status allowed
    cases performed
    exact ⟨_, rfl, fun _ => rfl, kept⟩
  | dataSourceRead length =>
    obtain ⟨result, next, events, performed, -, nextStream, -, kept⟩ :=
      queued.dataSourceRead handler length allowed.1
    exact ⟨_, congrArg (Option.map _) performed, begun, nextStream, kept⟩

/-- For every stream that has sent nothing and every interleaving of submissions, with the end only
on the last, and reads: what the reads returned is the beginning of what was submitted, and what is
buffered is the rest. One more read returns the next bytes, sets the flag exactly when the end was
submitted and the read leaves the buffer empty, and is deferred exactly when the buffer is empty and
no end was submitted. Once the end was submitted, reads return everything, and the last of them sets
the flag, if there is at least one and no fewer than bytes are buffered. -/
theorem http2Body_delivered (handler : Handler) (session : Session endpoint) (streamId : UInt32)
    (stream : Stream endpoint) (found : session.streams.lookup streamId = some stream)
    (unsent : stream.dataSource.buffer.getD [] = []) (calls : List BodyCall)
    (allowed : Along (bodyStep handler streamId) BodyAllowed { session } calls) :
    ∃ world reached, run (bodyStep handler streamId) { session } calls = some world ∧
      world.session.streams.lookup streamId = some reached ∧
      world.returned <+: world.submitted ∧
      world.returned ++ reached.dataSource.buffer.getD [] = world.submitted ∧
      (world.started = true → ∀ length, 0 < length → ∃ result next events,
        onDataSourceRead handler world.session streamId length = some (result, next, events) ∧
        Returns world (reached.dataSource.buffer.getD []) length result ∧
        world.returned ++ result.bytes <+: world.submitted) ∧
      (world.eofSubmitted = true → ∀ lengths : List ℕ, (∀ length ∈ lengths, 0 < length) →
        lengths ≠ [] → (reached.dataSource.buffer.getD []).length ≤ lengths.length →
        ∃ final, run (bodyStep handler streamId) world (lengths.map .dataSourceRead) = some final ∧
          final.returned = world.submitted ∧ final.eofSet = true) := by
  have start : ∃ stream, Queued streamId ({ session } : BodyWorld endpoint) stream :=
    ⟨stream, found, unsent, fun impossible => Bool.noConfusion impossible,
      fun impossible => Bool.noConfusion impossible⟩
  obtain ⟨world, ran, begun, reached, queued⟩ :=
    run_defined_along (bodyStep_queued handler streamId)
      ⟨fun impossible => Bool.noConfusion impossible, start⟩ allowed
  refine ⟨world, reached, ran, queued.found, ⟨_, queued.contents⟩, queued.contents, ?_, ?_⟩
  · intro started length positive
    obtain ⟨result, next, events, performed, returns, nextStream, -, kept⟩ :=
      queued.dataSourceRead handler length started
    exact ⟨result, next, events, performed, returns, ⟨_, kept.contents⟩⟩
  · intro ended lengths positive some_ enough
    exact queued.reads_deliver handler lengths (begun ended) ended positive some_ enough

/-- A session with one stream that has sent nothing. -/
def bodySession : Session .server := ⟨AList.insert 1 {} ∅⟩

/-- A read between two submissions, and two reads after the end. -/
theorem http2Body_delivered_interleaved :
    ∃ world final,
      run (bodyStep everyCallback 1) { session := bodySession }
        [.submitBody [1, 2] false 0, .dataSourceRead 1, .submitBody [3] true 0] = some world ∧
      world.eofSubmitted = true ∧
      run (bodyStep everyCallback 1) world ([2, 5].map .dataSourceRead) = some final ∧
      final.returned = [1, 2, 3] ∧ final.eofSet = true := by
  obtain ⟨world, reached, ran, found, -, contents, -, delivers⟩ :=
    http2Body_delivered everyCallback bodySession 1 {} rfl rfl
      [.submitBody [1, 2] false 0, .dataSourceRead 1, .submitBody [3] true 0] (by
        refine .cons rfl rfl ?_
        refine .cons rfl ⟨rfl, Nat.one_pos⟩ ?_
        exact .cons rfl rfl trivial)
  cases ran
  cases found
  obtain ⟨final, finished, returned, eofSet⟩ := delivers rfl [2, 5] (by decide) (by decide)
    (Nat.le_refl 2)
  exact ⟨_, final, rfl, rfl, finished, returned, eofSet⟩

end NativeLibs.Http2
