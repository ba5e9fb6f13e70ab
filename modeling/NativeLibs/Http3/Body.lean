/-
This file follows the body of one HTTP/3 stream through its buffer. The buffer
holds what was submitted and not acknowledged yet, and `read_offset` tells how
much of that nghttp3 has read. A read moves the offset forward, and an
acknowledgement drains the buffer and moves it back, so that the offset never
leaves the buffer as long as nghttp3 does not acknowledge what it has not read.

Beside the session a run records what was submitted, handed out and
acknowledged. The bytes that were handed out are always the first of those that
were submitted.
-/

import NativeLibs.Http3.Session
import NativeLibs.Library.Runs

namespace NativeLibs.Http3

open Http Library

variable {endpoint : Endpoint}

/-! ### Runs -/

/-- The calls that move the body of a stream. -/
inductive BodyCall where
  | submitBody (chunk : Bytes) (eof : Bool) (status : ℤ)
  | readData (vecNum : ℕ)
  | ackedStreamData (len : ℕ)

/-- A session and what happened to the body of one of its streams. -/
structure BodyWorld (endpoint : Endpoint) where
  session : Session endpoint
  submitted : Bytes := []
  eofSubmitted : Bool := false
  handedOut : Bytes := []
  acknowledged : ℕ := 0

/-- One call for a stream. -/
def bodyStep (streamId : UInt64) (world : BodyWorld endpoint) :
    BodyCall → Option (BodyWorld endpoint)
  | .submitBody chunk eof status => some
    { world with
      session := (submitBodyImpl world.session streamId chunk eof status).2
      submitted := world.submitted ++ chunk
      eofSubmitted := world.eofSubmitted || eof }
  | .readData vecNum => (onReadData world.session streamId vecNum).map fun outcome =>
    { world with session := outcome.2, handedOut := world.handedOut ++ outcome.1.bytes }
  | .ackedStreamData len => (onAckedStreamData world.session streamId len).map fun outcome =>
    { world with session := outcome.2.1, acknowledged := world.acknowledged + len }

/-- Nothing is submitted after the end, a read offers a vector, and nothing is acknowledged that
was not read. -/
def BodyAllowed (world : BodyWorld endpoint) : BodyCall → Prop
  | .submitBody _ _ _ => world.eofSubmitted = false
  | .readData vecNum => 0 < intOf vecNum
  | .ackedStreamData len => world.acknowledged + len ≤ world.handedOut.length

/-! ### What the functions do -/

theorem submitBodyImpl_of_lookup {session : Session endpoint} {streamId : UInt64}
    {stream : Stream endpoint} (found : session.streams.lookup streamId = some stream)
    (chunk : Bytes) (eof : Bool) (status : ℤ) :
    (submitBodyImpl session streamId chunk eof status).2 =
      session.setStream streamId (pushData stream chunk eof) := by
  simp only [submitBodyImpl, found]
  split
  · rfl
  · rfl

/-- A read that stays within the buffer moves the offset. -/
theorem onReadData_of_lookup {session : Session endpoint} {streamId : UInt64}
    {stream : Stream endpoint} {buffer : Segments UInt8}
    (found : session.streams.lookup streamId = some stream)
    (source : stream.dataSource.buffer = some buffer)
    (within : stream.dataSource.readOffset ≤ buffer.length) {vecNum : ℕ}
    (positive : 0 < intOf vecNum) {vec : List Bytes}
    (peeked : buffer.peek stream.dataSource.readOffset (intOf vecNum).toNat = vec) :
    onReadData session streamId vecNum = some
      (readResult stream.flags vec
        (sizeSub buffer.length (stream.dataSource.readOffset + (vec.map List.length).sum)),
      session.setStream streamId { stream with
        dataSource :=
          ⟨some buffer, stream.dataSource.readOffset + (vec.map List.length).sum⟩ }) := by
  simp only [onReadData, found, source, Option.bind_eq_bind, Option.bind_some,
    if_neg (not_lt.mpr within), if_neg (not_le.mpr positive), peeked]
  rfl

/-- An acknowledgement of what was read drains the buffer and moves the offset back. -/
theorem onAckedStreamData_of_lookup {session : Session endpoint} {streamId : UInt64}
    {stream : Stream endpoint} {buffer : Segments UInt8}
    (found : session.streams.lookup streamId = some stream)
    (source : stream.dataSource.buffer = some buffer) {len : ℕ} (buffered : len ≤ buffer.length)
    (read : len ≤ stream.dataSource.readOffset) :
    onAckedStreamData session streamId len = some (.ok, session.setStream streamId { stream with
      dataSource := ⟨some (buffer.drain len), stream.dataSource.readOffset - len⟩ }, [len]) := by
  simp only [onAckedStreamData, found, source, Option.bind_eq_bind, Option.bind_some,
    if_neg (not_lt.mpr buffered), if_neg (not_lt.mpr read), sizeSub, if_pos read]
  rfl

/-- A read hands out what it looked at, whatever the flags are. -/
theorem bytes_readResult (flags : Flags) (vec : List Bytes) (unsent : ℕ) :
    (readResult flags vec unsent).bytes = vec.flatten := by
  cases vec with
  | nil =>
    simp only [readResult]
    split
    · rfl
    · split
      · rfl
      · rfl
  | cons first rest =>
    have nonempty : (first :: rest).length ≠ 0 := Nat.succ_ne_zero _
    simp only [readResult, nonempty, false_and, if_false]
    rfl

/-! ### The data source -/

/-- The segments of a data source, none of them while there is no buffer. -/
def DataSource.segments (source : DataSource) : Segments UInt8 :=
  source.buffer.getD Segments.empty

theorem DataSource.segments_of_buffer {source : DataSource} {buffer : Segments UInt8}
    (present : source.buffer = some buffer) : source.segments = buffer := by
  rw [DataSource.segments, present, Option.getD_some]

/-- A read that has a result and starts within the buffer found one, and was offered vectors. -/
theorem of_onReadData {session : Session endpoint} {streamId : UInt64} {stream : Stream endpoint}
    {vecNum : ℕ} {outcome : ReadData × Session endpoint}
    (found : session.streams.lookup streamId = some stream)
    (within : stream.dataSource.readOffset ≤ stream.dataSource.segments.length)
    (performed : onReadData session streamId vecNum = some outcome) :
    ∃ buffer, stream.dataSource.buffer = some buffer ∧ 0 < intOf vecNum := by
  rw [onReadData, found] at performed
  obtain ⟨buffer, source, rest⟩ := Option.bind_eq_some_iff.mp performed
  rw [DataSource.segments_of_buffer source] at within
  refine ⟨buffer, source, not_le.mp fun nonpositive => ?_⟩
  rw [if_neg (not_lt.mpr within), if_pos nonpositive] at rest
  cases rest

/-- An acknowledgement that has a result found a buffer. -/
theorem of_onAckedStreamData {session : Session endpoint} {streamId : UInt64}
    {stream : Stream endpoint} {len : ℕ} {outcome : CallbackStatus × Session endpoint × List ℕ}
    (found : session.streams.lookup streamId = some stream)
    (performed : onAckedStreamData session streamId len = some outcome) :
    ∃ buffer, stream.dataSource.buffer = some buffer := by
  rw [onAckedStreamData, found] at performed
  obtain ⟨buffer, source, -⟩ := Option.bind_eq_some_iff.mp performed
  exact ⟨buffer, source⟩

/-- The buffer of a data source holds what was submitted and not acknowledged, and the offset tells
how much of it was handed out. -/
structure Buffered (submitted handedOut : Bytes) (acknowledged : ℕ) (source : DataSource) :
    Prop where
  contents : source.segments.elements = submitted.drop acknowledged
  offset : acknowledged + source.readOffset = handedOut.length
  inOrder : handedOut <+: submitted

namespace Buffered

variable {submitted handedOut : Bytes} {acknowledged : ℕ} {source : DataSource}

theorem length_add (buffered : Buffered submitted handedOut acknowledged source) :
    source.segments.length + acknowledged = submitted.length := by
  have handed := buffered.inOrder.length_le
  have offset := buffered.offset
  rw [Segments.length, buffered.contents, List.length_drop]
  omega

theorem offset_le (buffered : Buffered submitted handedOut acknowledged source) :
    source.readOffset ≤ source.segments.length := by
  have handed := buffered.inOrder.length_le
  have offset := buffered.offset
  have total := buffered.length_add
  omega

theorem drop_offset (buffered : Buffered submitted handedOut acknowledged source) :
    source.segments.elements.drop source.readOffset = submitted.drop handedOut.length := by
  rw [buffered.contents, List.drop_drop, buffered.offset]

/-- A chunk is appended. -/
theorem push {stream : Stream endpoint}
    (buffered : Buffered submitted handedOut acknowledged stream.dataSource) (chunk : Bytes)
    (eof : Bool) :
    Buffered (submitted ++ chunk) handedOut acknowledged
      (pushData stream chunk eof).dataSource := by
  have elements : (pushData stream chunk eof).dataSource.segments.elements =
      stream.dataSource.segments.elements ++ chunk := by
    by_cases nonempty : chunk = []
    · simp only [pushData, dif_pos nonempty, DataSource.segments, Option.getD_some]
      rw [nonempty, List.append_nil]
    · simp only [pushData, dif_neg nonempty, DataSource.segments, Option.getD_some]
      exact Segments.elements_add _ chunk nonempty
  have length := buffered.length_add
  refine ⟨?_, buffered.offset, buffered.inOrder.trans (List.prefix_append _ _)⟩
  rw [elements, buffered.contents, ← List.drop_append_of_le_length (by omega)]

theorem read (buffered : Buffered submitted handedOut acknowledged source) (count : ℕ)
    {vec : List Bytes} (peeked : source.segments.peek source.readOffset count = vec) :
    Buffered submitted (handedOut ++ vec.flatten) acknowledged
      ⟨some source.segments, source.readOffset + (vec.map List.length).sum⟩ := by
  refine ⟨buffered.contents, ?_, ?_⟩
  · show acknowledged + (source.readOffset + (vec.map List.length).sum) = (handedOut ++ _).length
    rw [← List.length_flatten, List.length_append, ← buffered.offset, Nat.add_assoc]
  · have next := source.segments.peek_prefix source.readOffset count
    rw [peeked, buffered.drop_offset] at next
    rw [← List.prefix_iff_eq_append.mp buffered.inOrder]
    exact (List.prefix_append_right_inj _).mpr next

/-- What is acknowledged leaves the buffer. -/
theorem acknowledge (buffered : Buffered submitted handedOut acknowledged source) {len : ℕ}
    (handed : acknowledged + len ≤ handedOut.length) :
    len ≤ source.readOffset ∧ len ≤ source.segments.length ∧
      Buffered submitted handedOut (acknowledged + len)
        ⟨some (source.segments.drain len), source.readOffset - len⟩ := by
  have offset := buffered.offset
  have within := buffered.offset_le
  refine ⟨by omega, by omega, ?_, ?_, buffered.inOrder⟩
  · show (source.segments.drain len).elements = _
    rw [Segments.elements_drain, buffered.contents, List.drop_drop]
  · show acknowledged + len + (source.readOffset - len) = handedOut.length
    omega

/-- Every call for the stream that has a result keeps the account, as long as nothing is
acknowledged that was not handed out. -/
theorem bodyStep {streamId : UInt64} {world next : BodyWorld endpoint} {stream : Stream endpoint}
    {call : BodyCall} (found : world.session.streams.lookup streamId = some stream)
    (buffered : Buffered world.submitted world.handedOut world.acknowledged stream.dataSource)
    (handed : ∀ len, call = .ackedStreamData len →
      world.acknowledged + len ≤ world.handedOut.length)
    (stepped : Http3.bodyStep streamId world call = some next) :
    ∃ nextStream, next.session.streams.lookup streamId = some nextStream ∧
      Buffered next.submitted next.handedOut next.acknowledged nextStream.dataSource := by
  cases call with
  | submitBody chunk eof status =>
    cases stepped
    refine ⟨pushData stream chunk eof, ?_, buffered.push chunk eof⟩
    rw [submitBodyImpl_of_lookup found]
    exact Session.lookup_setStream _ _ _
  | readData vecNum =>
    obtain ⟨outcome, performed, rfl⟩ := Option.map_eq_some_iff.mp stepped
    obtain ⟨buffer, source, positive⟩ := of_onReadData found buffered.offset_le performed
    have segments := DataSource.segments_of_buffer source
    have read := buffered.read (intOf vecNum).toNat rfl
    have within := buffered.offset_le
    rw [segments] at read within
    cases performed.symm.trans (onReadData_of_lookup found source within positive rfl)
    refine ⟨_, Session.lookup_setStream _ _ _, ?_⟩
    rw [bytes_readResult]
    exact read
  | ackedStreamData len =>
    obtain ⟨outcome, performed, rfl⟩ := Option.map_eq_some_iff.mp stepped
    obtain ⟨buffer, source⟩ := of_onAckedStreamData found performed
    obtain ⟨beforeOffset, inside, acknowledged⟩ := buffered.acknowledge (handed len rfl)
    rw [DataSource.segments_of_buffer source] at inside acknowledged
    cases performed.symm.trans (onAckedStreamData_of_lookup found source inside beforeOffset)
    exact ⟨_, Session.lookup_setStream _ _ _, acknowledged⟩

end Buffered

/-! ### The invariant -/

/-- Without trailers a read blocks when it has no vector and is not at the end. -/
theorem readResult_spec (flags : Flags) (vec : List Bytes) (unsent : ℕ)
    (noTrailers : flags.trailersSubmitted = false) :
    readResult flags vec unsent ≠ .callbackFailure ∧
      ((readResult flags vec unsent).eof = true ↔ unsent = 0 ∧ flags.hasEof = true) ∧
      (readResult flags vec unsent = .wouldBlock ↔
        vec = [] ∧ ¬(unsent = 0 ∧ flags.hasEof = true)) := by
  have noneLeft : ¬(vec = [] ∧ unsent = 0 ∧ flags.trailersSubmitted = true) := by
    rw [noTrailers]
    rintro ⟨-, -, impossible⟩
    cases impossible
  simp only [readResult, List.length_eq_zero_iff, if_neg noneLeft]
  by_cases blocks : vec = [] ∧ ¬(unsent = 0 ∧ flags.hasEof = true)
  · rw [if_pos blocks]
    refine ⟨ReadData.noConfusion, ?_, iff_of_true rfl blocks⟩
    exact iff_of_false (fun impossible => nomatch impossible) blocks.2
  · rw [if_neg blocks]
    exact ⟨ReadData.noConfusion, decide_eq_true_iff, iff_of_false ReadData.noConfusion blocks⟩

/-- The buffer holds what is not acknowledged, and the offset tells how much of it was handed
out. -/
structure Accounted (streamId : UInt64) (world : BodyWorld endpoint) (stream : Stream endpoint)
    (buffer : Segments UInt8) : Prop where
  found : world.session.streams.lookup streamId = some stream
  source : stream.dataSource.buffer = some buffer
  noTrailers : stream.flags.trailersSubmitted = false
  eof : stream.flags.hasEof = world.eofSubmitted
  contents : buffer.elements = world.submitted.drop world.acknowledged
  offset : world.acknowledged + stream.dataSource.readOffset = world.handedOut.length
  inOrder : world.handedOut <+: world.submitted

namespace Accounted

variable {streamId : UInt64} {world : BodyWorld endpoint} {stream : Stream endpoint}
  {buffer : Segments UInt8}

theorem segments (accounted : Accounted streamId world stream buffer) :
    stream.dataSource.segments = buffer :=
  DataSource.segments_of_buffer accounted.source

theorem buffered (accounted : Accounted streamId world stream buffer) :
    Buffered world.submitted world.handedOut world.acknowledged stream.dataSource :=
  ⟨accounted.segments ▸ accounted.contents, accounted.offset, accounted.inOrder⟩

theorem length_add (accounted : Accounted streamId world stream buffer) :
    buffer.length + world.acknowledged = world.submitted.length :=
  accounted.segments ▸ accounted.buffered.length_add

theorem offset_le (accounted : Accounted streamId world stream buffer) :
    stream.dataSource.readOffset ≤ buffer.length :=
  accounted.segments ▸ accounted.buffered.offset_le

theorem submitBody (accounted : Accounted streamId world stream buffer) (chunk : Bytes)
    (eof : Bool) (status : ℤ) (open_ : world.eofSubmitted = false) :
    ∃ next, bodyStep streamId world (.submitBody chunk eof status) = some next ∧
      ∃ nextStream nextBuffer, Accounted streamId next nextStream nextBuffer := by
  obtain ⟨contents, offset, inOrder⟩ := accounted.buffered.push chunk eof
  refine ⟨_, rfl, pushData stream chunk eof, _, ?_, rfl, accounted.noTrailers, ?_, contents, offset,
    inOrder⟩
  · rw [submitBodyImpl_of_lookup accounted.found]
    exact Session.lookup_setStream _ _ _
  · show eof = (world.eofSubmitted || eof)
    rw [open_, Bool.false_or]

/-- What a read hands out. -/
structure HandsOut (world : BodyWorld endpoint) (result : ReadData) : Prop where
  noFailure : result ≠ .callbackFailure
  inOrder : world.handedOut ++ result.bytes <+: world.submitted
  eof : result.eof = true ↔
    world.eofSubmitted = true ∧ world.handedOut ++ result.bytes = world.submitted
  wouldBlock : result = .wouldBlock ↔
    world.handedOut = world.submitted ∧ world.eofSubmitted = false

/-- The vectors a read looks at are none only if there are no more bytes, and nothing is left unsent
only if they hold all of them. -/
theorem peek (accounted : Accounted streamId world stream buffer) {count : ℕ}
    (positive : 0 < count) {vec : List Bytes}
    (peeked : buffer.peek stream.dataSource.readOffset count = vec) :
    (vec = [] ↔ world.handedOut = world.submitted) ∧
      (sizeSub buffer.length (stream.dataSource.readOffset + (vec.map List.length).sum) = 0 ↔
        world.handedOut ++ vec.flatten = world.submitted) := by
  have within := accounted.offset_le
  have total := accounted.length_add
  have offset := accounted.offset
  constructor
  · rw [← peeked, Segments.peek_eq_nil_iff _ _ _ positive]
    refine ⟨fun atEnd => accounted.inOrder.eq_of_length_le (by omega), fun same => ?_⟩
    have length := congrArg List.length same
    omega
  · have read := accounted.buffered.read _ (accounted.segments.symm ▸ peeked)
    have fits := read.inOrder.length_le
    rw [List.length_append, List.length_flatten] at fits
    rw [sizeSub, if_pos (by omega), Nat.sub_eq_zero_iff_le]
    refine ⟨fun longer => read.inOrder.eq_of_length_le ?_, fun same => ?_⟩
    · rw [List.length_append, List.length_flatten]
      omega
    · have length := congrArg List.length same
      rw [List.length_append, List.length_flatten] at length
      omega

theorem readData (accounted : Accounted streamId world stream buffer) (vecNum : ℕ)
    (positive : 0 < intOf vecNum) :
    ∃ result next, onReadData world.session streamId vecNum = some (result, next) ∧
      HandsOut world result ∧
      ∃ nextStream, Accounted streamId
        { world with session := next, handedOut := world.handedOut ++ result.bytes } nextStream
        buffer := by
  obtain ⟨vec, peeked⟩ : ∃ vec, buffer.peek stream.dataSource.readOffset (intOf vecNum).toNat =
      vec := ⟨_, rfl⟩
  obtain ⟨nothing, everything⟩ := accounted.peek (Int.lt_toNat.mpr positive) peeked
  obtain ⟨-, offset, inOrder⟩ := accounted.buffered.read _ (accounted.segments.symm ▸ peeked)
  obtain ⟨unsent, left⟩ : ∃ unsent, sizeSub buffer.length
      (stream.dataSource.readOffset + (vec.map List.length).sum) = unsent := ⟨_, rfl⟩
  have performed :=
    onReadData_of_lookup accounted.found accounted.source accounted.offset_le positive peeked
  have bytes := bytes_readResult stream.flags vec unsent
  obtain ⟨noFailure, eof, wouldBlock⟩ :=
    readResult_spec stream.flags vec unsent accounted.noTrailers
  rw [left] at performed everything
  rw [accounted.eof, everything] at eof wouldBlock
  refine ⟨_, _, performed, ⟨noFailure, ?_, ?_, ?_⟩, _, Session.lookup_setStream _ _ _, rfl,
    accounted.noTrailers, accounted.eof, accounted.contents, ?_, ?_⟩
  · rw [bytes]
    exact inOrder
  · rw [bytes, eof]
    exact and_comm
  · rw [wouldBlock, nothing, not_and, Bool.not_eq_true]
    constructor
    · rintro ⟨same, open_⟩
      refine ⟨same, open_ ?_⟩
      rw [nothing.mpr same, List.flatten_nil, List.append_nil, same]
    · rintro ⟨same, open_⟩
      exact ⟨same, fun _ => open_⟩
  · rw [bytes]
    exact offset
  · rw [bytes]
    exact inOrder

theorem ackedStreamData (accounted : Accounted streamId world stream buffer) (len : ℕ)
    (read : world.acknowledged + len ≤ world.handedOut.length) :
    ∃ next, bodyStep streamId world (.ackedStreamData len) = some next ∧
      ∃ nextStream nextBuffer, Accounted streamId next nextStream nextBuffer := by
  obtain ⟨beforeOffset, buffered, contents, offset, inOrder⟩ := accounted.buffered.acknowledge read
  rw [accounted.segments] at buffered contents
  have performed :=
    onAckedStreamData_of_lookup accounted.found accounted.source buffered beforeOffset
  exact ⟨_, congrArg (Option.map _) performed, _, _, Session.lookup_setStream _ _ _, rfl,
    accounted.noTrailers, accounted.eof, contents, offset, inOrder⟩

end Accounted

/-- Every call that is allowed keeps the account. -/
theorem bodyStep_accounted (streamId : UInt64) (world : BodyWorld endpoint) (call : BodyCall)
    (accounted : ∃ stream buffer, Accounted streamId world stream buffer)
    (allowed : BodyAllowed world call) :
    ∃ next, bodyStep streamId world call = some next ∧
      ∃ stream buffer, Accounted streamId next stream buffer := by
  obtain ⟨stream, buffer, accounted⟩ := accounted
  cases call with
  | submitBody chunk eof status => exact accounted.submitBody chunk eof status allowed
  | readData vecNum =>
    obtain ⟨result, next, performed, -, nextStream, kept⟩ := accounted.readData vecNum allowed
    exact ⟨_, congrArg (Option.map _) performed, nextStream, buffer, kept⟩
  | ackedStreamData len => exact accounted.ackedStreamData len allowed

/-- For every stream with an empty data source and no trailers, and every sequence of submissions,
reads and acknowledgements that are allowed: the read offset stays within the buffer, the lengths
add up, what was handed out is the beginning of what was submitted, and so it is after one more
read, which signals the end exactly when everything was submitted and handed out, and blocks exactly
when there is nothing new and no end. -/
theorem http3Body_accounted (session : Session endpoint) (streamId : UInt64)
    (stream : Stream endpoint) (found : session.streams.lookup streamId = some stream)
    (source : stream.dataSource = ⟨some Segments.empty, 0⟩)
    (flags : stream.flags.hasEof = false ∧ stream.flags.trailersSubmitted = false)
    (calls : List BodyCall) (allowed : Along (bodyStep streamId) BodyAllowed { session } calls) :
    ∃ world reached buffer, run (bodyStep streamId) { session } calls = some world ∧
      world.session.streams.lookup streamId = some reached ∧
      reached.dataSource.buffer = some buffer ∧
      reached.dataSource.readOffset ≤ buffer.length ∧
      buffer.length + world.acknowledged = world.submitted.length ∧
      world.acknowledged + reached.dataSource.readOffset = world.handedOut.length ∧
      world.handedOut <+: world.submitted ∧
      ∀ vecNum, 0 < intOf vecNum →
        ∃ result next, onReadData world.session streamId vecNum = some (result, next) ∧
          Accounted.HandsOut world result := by
  have start : ∃ stream buffer, Accounted streamId { session } stream buffer :=
    ⟨stream, Segments.empty, found, congrArg DataSource.buffer source, flags.2, flags.1, rfl,
      (Nat.zero_add _).trans (congrArg DataSource.readOffset source), List.prefix_refl _⟩
  obtain ⟨world, ran, reached, buffer, accounted⟩ :=
    run_defined_along (bodyStep_accounted streamId) start allowed
  refine ⟨world, reached, buffer, ran, accounted.found, accounted.source, accounted.offset_le,
    accounted.length_add, accounted.offset, accounted.inOrder, fun vecNum positive => ?_⟩
  obtain ⟨result, next, performed, handsOut, -⟩ := accounted.readData vecNum positive
  exact ⟨result, next, performed, handsOut⟩

/-- A session with one stream that has sent nothing. -/
def bodySession : Session .client :=
  ⟨AList.insert 0 { dataSource := ⟨some Segments.empty, 0⟩ } ∅⟩

/-- Two chunks, of which the first is read, and acknowledged in part, before the second comes. -/
theorem http3Body_accounted_interleaved :
    ∃ world reached buffer,
      run (bodyStep 0) { session := bodySession }
        [.submitBody [1, 2, 3] false 0, .readData 1, .ackedStreamData 2, .submitBody [4] true 0] =
        some world ∧
      world.session.streams.lookup 0 = some reached ∧ reached.dataSource.buffer = some buffer ∧
      reached.dataSource.readOffset ≤ buffer.length ∧
      ∃ result next, onReadData world.session 0 8 = some (result, next) ∧
        Accounted.HandsOut world result := by
  obtain ⟨world, reached, buffer, ran, found, source, within, -, -, -, reads⟩ :=
    http3Body_accounted bodySession 0 { dataSource := ⟨some Segments.empty, 0⟩ } rfl rfl ⟨rfl, rfl⟩
      [.submitBody [1, 2, 3] false 0, .readData 1, .ackedStreamData 2, .submitBody [4] true 0] (by
        refine .cons rfl rfl ?_
        refine .cons rfl (by decide : 0 < intOf 1) ?_
        refine .cons rfl (Nat.le_of_ble_eq_true rfl) ?_
        exact .cons rfl rfl trivial)
  exact ⟨world, reached, buffer, ran, found, source, within, reads 8 (by decide)⟩

end NativeLibs.Http3
