/-
This file is about `get_stream_send_capacity`, from which an application learns
how much it may submit on a stream. It is meant to keep the bytes that wait
inside the session within one window of flow control. What waits are the bytes
that were submitted and that the transport has not accepted yet. The function
subtracts less: the bytes that were submitted and that nghttp3 has not read yet.

A flush may leave bytes between the two. nghttp3 reads them, and the transport
does not take them because the packet is full or congestion control holds it back.
The bound on what waits is right exactly when there are no such bytes.
-/

import NativeLibs.Http3.Body
import NativeLibs.Http3.Callbacks

namespace NativeLibs.Http3

open Http Library

variable {endpoint : Endpoint}

/-- `Http3Session::get_stream_send_capacity_impl`, with what ngtcp2 says is left of the windows of
the stream and of the connection. -/
def getStreamSendCapacityImpl (session : Session endpoint) (streamId : UInt64)
    (maxStreamDataLeft maxDataLeft : ℕ) : ℕ :=
  let capacity := min maxStreamDataLeft maxDataLeft
  match session.streams.lookup streamId with
  | none => capacity
  | some stream =>
    match stream.dataSource.buffer with
    | none => capacity
    | some buffer =>
      let buffered := buffer.length
      let readOffset := stream.dataSource.readOffset
      let unsent := if readOffset < buffered then buffered - readOffset else 0
      if capacity ≤ unsent then 0 else capacity - unsent

/-! ### Runs -/

/-- What happens to a stream that is sent on: its body moves, its trailers are submitted, the
transport accepts bytes of it, or a window changes. The other streams use up the window of the
connection. -/
inductive SendCall where
  | body (call : BodyCall)
  | submitTrailer (headers : Headers) (submitStatus resumeStatus : ℤ)
  | accept (count : ℕ)
  | extendMaxStreamData (count : ℕ)
  | extendMaxData (count : ℕ)
  | otherStreams (count : ℕ)

/-- The body of a stream, how much of it the transport accepted, and what is left of the windows for
bytes it did not accept yet. The last field is what was left when the last bytes were submitted. -/
structure SendWorld (endpoint : Endpoint) where
  body : BodyWorld endpoint
  accepted : ℕ := 0
  maxStreamDataLeft : ℕ
  maxDataLeft : ℕ
  window : ℕ := 0

namespace SendWorld

/-- The smaller of the two allowances. -/
def left (world : SendWorld endpoint) : ℕ := min world.maxStreamDataLeft world.maxDataLeft

/-- What `get_stream_send_capacity` returns. -/
def capacity (streamId : UInt64) (world : SendWorld endpoint) : ℕ :=
  getStreamSendCapacityImpl world.body.session streamId world.maxStreamDataLeft world.maxDataLeft

/-- The bytes that were submitted and are not accepted. -/
def waiting (world : SendWorld endpoint) : ℕ := world.body.submitted.length - world.accepted

end SendWorld

/-- The allowance is noted whenever bytes are submitted. -/
def SendWorld.windowAfter (world : SendWorld endpoint) : BodyCall → ℕ
  | .submitBody chunk _ _ => if chunk = [] then world.window else world.left
  | _ => world.window

/-- One thing that happens. -/
def sendStep (streamId : UInt64) (world : SendWorld endpoint) :
    SendCall → Option (SendWorld endpoint)
  | .body call => (bodyStep streamId world.body call).map fun body =>
    { world with body, window := world.windowAfter call }
  | .submitTrailer headers submitStatus resumeStatus => some
    { world with body :=
      { world.body with session :=
        (submitTrailerImpl world.body.session streamId headers submitStatus resumeStatus).2.1 } }
  | .accept count => some
    { world with
      accepted := world.accepted + count
      maxStreamDataLeft := world.maxStreamDataLeft - count
      maxDataLeft := world.maxDataLeft - count }
  | .extendMaxStreamData count => some
    { world with maxStreamDataLeft := world.maxStreamDataLeft + count }
  | .extendMaxData count => some { world with maxDataLeft := world.maxDataLeft + count }
  | .otherStreams count => some { world with maxDataLeft := world.maxDataLeft - count }

/-- The transport accepts only bytes that were read and that the windows allow, and only bytes that
it accepted are acknowledged. -/
def SendAllowed (world : SendWorld endpoint) : SendCall → Prop
  | .body (.ackedStreamData len) => world.body.acknowledged + len ≤ world.accepted
  | .accept count =>
    world.accepted + count ≤ world.body.handedOut.length ∧ count ≤ world.left
  | .otherStreams count => count ≤ world.maxDataLeft
  | _ => True

/-- The application never submits more than the capacity it is told. -/
def WithinCapacity (streamId : UInt64) (world : SendWorld endpoint) : SendCall → Prop
  | .body (.submitBody chunk _ _) => chunk.length ≤ world.capacity streamId
  | _ => True

/-- Bytes are submitted only when the transport has accepted all that were read. -/
def AllAccepted (world : SendWorld endpoint) : SendCall → Prop
  | .body (.submitBody chunk _ _) => chunk ≠ [] → world.body.handedOut.length = world.accepted
  | _ => True

/-! ### The counters -/

/-- The stream is there, its buffer is accounted for, and the counters are in order. -/
structure Sending (streamId : UInt64) (world : SendWorld endpoint) : Prop where
  buffered : ∃ stream, world.body.session.streams.lookup streamId = some stream ∧
    Buffered world.body.submitted world.body.handedOut world.body.acknowledged stream.dataSource
  acknowledged : world.body.acknowledged ≤ world.accepted
  accepted : world.accepted ≤ world.body.handedOut.length

namespace Sending

variable {streamId : UInt64} {world : SendWorld endpoint}

theorem handedOut_le (sending : Sending streamId world) :
    world.body.handedOut.length ≤ world.body.submitted.length := by
  obtain ⟨stream, -, buffered⟩ := sending.buffered
  exact buffered.inOrder.length_le

theorem capacity_eq (sending : Sending streamId world) :
    world.capacity streamId =
      world.left - (world.body.submitted.length - world.body.handedOut.length) := by
  obtain ⟨stream, found, buffered⟩ := sending.buffered
  have within := buffered.offset_le
  have total := buffered.length_add
  have offset := buffered.offset
  rw [SendWorld.capacity, getStreamSendCapacityImpl, found]
  show (match stream.dataSource.buffer with
    | none => world.left
    | some buffer => _) = _
  cases source : stream.dataSource.buffer with
  | none =>
    have empty : stream.dataSource.segments.length = 0 := by
      rw [DataSource.segments, source]
      rfl
    show world.left = _
    omega
  | some buffer =>
    have segments : stream.dataSource.segments = buffer := by
      rw [DataSource.segments, source, Option.getD_some]
    rw [segments] at within total
    have unsent : (if stream.dataSource.readOffset < buffer.length then
        buffer.length - stream.dataSource.readOffset else 0) =
        world.body.submitted.length - world.body.handedOut.length := by
      split
      · omega
      · omega
    show (if world.left ≤ _ then 0 else world.left - _) = _
    rw [unsent]
    split
    · omega
    · rfl

theorem capacity_add_waiting_le_iff (sending : Sending streamId world)
    (nonzero : world.capacity streamId ≠ 0) :
    world.capacity streamId + world.waiting ≤ world.left ↔
      world.body.handedOut.length = world.accepted := by
  have read := sending.handedOut_le
  have accepted := sending.accepted
  rw [sending.capacity_eq] at nonzero ⊢
  rw [SendWorld.waiting]
  omega

theorem body (sending : Sending streamId world) {call : BodyCall}
    (allowed : SendAllowed world (.body call)) {next : BodyWorld endpoint}
    (stepped : bodyStep streamId world.body call = some next) (window : ℕ) :
    Sending streamId { world with body := next, window } := by
  obtain ⟨stream, found, buffered⟩ := sending.buffered
  have accepted := sending.accepted
  have kept := buffered.bodyStep found
    (fun len same => (same ▸ allowed : SendAllowed world (.body (.ackedStreamData len))).trans
      accepted) stepped
  cases call with
  | submitBody chunk eof status =>
    cases stepped
    exact ⟨kept, sending.acknowledged, accepted⟩
  | readData vecNum =>
    obtain ⟨outcome, -, rfl⟩ := Option.map_eq_some_iff.mp stepped
    refine ⟨kept, sending.acknowledged, accepted.trans ?_⟩
    exact (List.prefix_append _ _).length_le
  | ackedStreamData len =>
    obtain ⟨outcome, -, rfl⟩ := Option.map_eq_some_iff.mp stepped
    exact ⟨kept, allowed, accepted⟩

theorem submitTrailer (sending : Sending streamId world) (headers : Headers)
    (submitStatus resumeStatus : ℤ) :
    Sending streamId { world with body := { world.body with session :=
      (submitTrailerImpl world.body.session streamId headers submitStatus
        resumeStatus).2.1 } } := by
  obtain ⟨stream, found, buffered⟩ := sending.buffered
  refine ⟨?_, sending.acknowledged, sending.accepted⟩
  simp only [submitTrailerImpl, found]
  split
  · exact ⟨stream, found, buffered⟩
  · split
    · exact ⟨stream, found, buffered⟩
    · exact ⟨_, Session.lookup_setStream _ _ _, buffered⟩

theorem step (sending : Sending streamId world) {call : SendCall} (allowed : SendAllowed world call)
    {next : SendWorld endpoint} (stepped : sendStep streamId world call = some next) :
    Sending streamId next := by
  cases call with
  | body call =>
    obtain ⟨body, moved, rfl⟩ := Option.map_eq_some_iff.mp stepped
    exact sending.body allowed moved _
  | submitTrailer headers submitStatus resumeStatus =>
    cases stepped
    exact sending.submitTrailer headers submitStatus resumeStatus
  | accept count =>
    cases stepped
    exact ⟨sending.buffered, sending.acknowledged.trans (Nat.le_add_right _ _), allowed.1⟩
  | extendMaxStreamData count | extendMaxData count | otherStreams count =>
    cases stepped
    exact ⟨sending.buffered, sending.acknowledged, sending.accepted⟩

/-- If the application keeps to the capacity and waits until everything is accepted, it never has
more bytes waiting than were left when it last submitted some. -/
theorem waiting_le_window (sending : Sending streamId world)
    (waiting : world.waiting ≤ world.window) {call : SendCall}
    (within : WithinCapacity streamId world call) (settled : AllAccepted world call)
    {next : SendWorld endpoint} (stepped : sendStep streamId world call = some next) :
    next.waiting ≤ next.window := by
  cases call with
  | body call =>
    obtain ⟨body, moved, rfl⟩ := Option.map_eq_some_iff.mp stepped
    cases call with
    | submitBody chunk eof status =>
      cases moved
      show (world.body.submitted ++ chunk).length - world.accepted ≤
        if chunk = [] then world.window else world.left
      by_cases nothing : chunk = []
      · rw [if_pos nothing, nothing, List.append_nil]
        exact waiting
      · have read := sending.handedOut_le
        have same := settled nothing
        have positive := List.length_pos_of_ne_nil nothing
        have fits : chunk.length ≤ world.capacity streamId := within
        rw [sending.capacity_eq] at fits
        rw [if_neg nothing, List.length_append]
        omega
    | readData vecNum | ackedStreamData len =>
      obtain ⟨outcome, -, rfl⟩ := Option.map_eq_some_iff.mp moved
      exact waiting
  | accept count =>
    cases stepped
    exact (Nat.sub_le_sub_left (Nat.le_add_right _ _) _).trans waiting
  | submitTrailer headers submitStatus resumeStatus | extendMaxStreamData count
  | extendMaxData count | otherStreams count =>
    cases stepped
    exact waiting

end Sending

theorem sending_of_run {streamId : UInt64} {start world : SendWorld endpoint}
    {calls : List SendCall} (sending : Sending streamId start)
    (allowed : Along (sendStep streamId) SendAllowed start calls)
    (reached : run (sendStep streamId) start calls = some world) : Sending streamId world :=
  run_invariant_along (fun _ _ _ kept permitted stepped => kept.step permitted stepped) sending
    allowed reached

/-- For every stream whose data source is empty, all windows, everything that is allowed to happen
and every state reached: a capacity that is not zero, together with the bytes that wait to be
accepted, stays within the smaller of the two allowances if and only if the transport has accepted
all bytes that nghttp3 read. An application that submits bytes only in such states, and never more
than the capacity, never has more bytes waiting than one window. -/
theorem sendCapacity_bounds_iff (session : Session endpoint) (streamId : UInt64)
    (stream : Stream endpoint) (found : session.streams.lookup streamId = some stream)
    (empty : stream.dataSource.segments.elements = [] ∧ stream.dataSource.readOffset = 0)
    (maxStreamDataLeft maxDataLeft : ℕ) (calls : List SendCall)
    (allowed : Along (sendStep streamId) SendAllowed
      { body := { session }, maxStreamDataLeft, maxDataLeft } calls)
    (world : SendWorld endpoint)
    (reached : run (sendStep streamId)
      { body := { session }, maxStreamDataLeft, maxDataLeft } calls = some world) :
    (world.capacity streamId ≠ 0 →
      (world.capacity streamId + world.waiting ≤ world.left ↔
        world.body.handedOut.length = world.accepted)) ∧
    (Along (sendStep streamId) (WithinCapacity streamId)
        { body := { session }, maxStreamDataLeft, maxDataLeft } calls →
      Along (sendStep streamId) AllAccepted
        { body := { session }, maxStreamDataLeft, maxDataLeft } calls →
      world.waiting ≤ world.window) := by
  have start : Sending streamId
      { body := { session }, maxStreamDataLeft, maxDataLeft } :=
    ⟨⟨stream, found, empty.1, (Nat.zero_add _).trans empty.2, List.prefix_refl _⟩, le_rfl, le_rfl⟩
  refine ⟨(sending_of_run start allowed reached).capacity_add_waiting_le_iff,
    fun within settled => ?_⟩
  have keeps : ∀ (state : SendWorld endpoint) call next,
      Sending streamId state ∧ state.waiting ≤ state.window →
      SendAllowed state call ∧ WithinCapacity streamId state call ∧ AllAccepted state call →
      sendStep streamId state call = some next →
      Sending streamId next ∧ next.waiting ≤ next.window := by
    rintro state call next ⟨sending, waiting⟩ ⟨permitted, within, settled⟩ stepped
    exact ⟨sending.step permitted stepped,
      sending.waiting_le_window waiting within settled stepped⟩
  exact (run_invariant_along keeps ⟨start, le_rfl⟩ (allowed.and (within.and settled)) reached).2

/-- A stream of `bodySession` with windows of some size. -/
def sendStart (maxStreamDataLeft maxDataLeft : ℕ) : SendWorld .client :=
  { body := { session := bodySession }, maxStreamDataLeft, maxDataLeft }

/-- Three bytes go through a window of four before it grows again. -/
theorem sendCapacity_bounds_iff_allAccepted :
    ∃ world : SendWorld .client,
      run (sendStep 0) (sendStart 6 4) [.body (.submitBody [1, 2, 3] false 0), .body (.readData 16),
        .accept 3, .extendMaxData 2] = some world ∧
      world.capacity 0 = 3 ∧ world.capacity 0 + world.waiting ≤ world.left ∧
      world.waiting ≤ world.window := by
  obtain ⟨calls, same⟩ : ∃ calls : List SendCall, calls = [.body (.submitBody [1, 2, 3] false 0),
      .body (.readData 16), .accept 3, .extendMaxData 2] := ⟨_, rfl⟩
  obtain ⟨world, reached, capacity, accepted⟩ : ∃ world : SendWorld .client,
      run (sendStep 0) (sendStart 6 4) calls = some world ∧ world.capacity 0 = 3 ∧
        world.body.handedOut.length = world.accepted := by
    rw [same]
    exact ⟨_, rfl, rfl, rfl⟩
  have allowed : Along (sendStep 0) SendAllowed (sendStart 6 4) calls := by
    rw [same]
    refine .cons rfl trivial (.cons rfl trivial (.cons rfl ?_ (.cons rfl trivial trivial)))
    exact ⟨le_rfl, Nat.le_of_ble_eq_true rfl⟩
  have within : Along (sendStep 0) (WithinCapacity 0) (sendStart 6 4) calls := by
    rw [same]
    refine .cons rfl ?_ (.cons rfl trivial (.cons rfl trivial (.cons rfl trivial trivial)))
    exact Nat.le_of_ble_eq_true rfl
  have settled : Along (sendStep 0) AllAccepted (sendStart 6 4) calls := by
    rw [same]
    exact .cons rfl (fun _ => rfl) (.cons rfl trivial (.cons rfl trivial
      (.cons rfl trivial trivial)))
  have bounds := sendCapacity_bounds_iff bodySession 0 _ rfl ⟨rfl, rfl⟩ 6 4 calls allowed world
    reached
  exact ⟨world, same ▸ reached, capacity,
    (bounds.1 (capacity ▸ Nat.succ_ne_zero 2)).mpr accepted, bounds.2 within settled⟩

/-- A window of four bytes, all of them submitted and read, and none accepted: the capacity is four
again, and the application that uses it has eight bytes waiting. -/
theorem readBytes_uncounted :
    ∃ world next : SendWorld .client,
      run (sendStep 0) (sendStart 4 4)
        [.body (.submitBody [1, 2, 3, 4] false 0), .body (.readData 16)] = some world ∧
      world.capacity 0 = 4 ∧ world.waiting = 4 ∧ world.left = 4 ∧
      sendStep 0 world (.body (.submitBody [5, 6, 7, 8] false 0)) = some next ∧
      next.waiting = 8 ∧ next.left = 4 :=
  ⟨_, _, rfl, rfl, rfl, rfl, rfl, rfl, rfl⟩

end NativeLibs.Http3
