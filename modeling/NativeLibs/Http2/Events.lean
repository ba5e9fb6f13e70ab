/-
This file proves in which order a session raises the callbacks for each of its
streams, over every run from the empty session to its destructor and what nghttp2
still sends in it.
-/

import NativeLibs.Http2.StreamLife
import NativeLibs.Library.Runs

namespace NativeLibs.Http2

open Http Library

variable {endpoint : Endpoint}

/-! ### Whole runs -/

/-- Every stream is tracked. -/
def World.Tracked (handler : Handler) (world : World endpoint) : Prop :=
  ∀ streamId, Tracks handler streamId world.destroyed (world.session.streams.lookup streamId)
    (world.record streamId) (world.seen streamId) (about streamId world.events)

section Step

variable {handler : Handler} {world : World endpoint}

theorem Tracks.seen_or {streamId : UInt32} {destroyed : Bool} {stream? : Option (Stream endpoint)}
    {record : Record endpoint} {seen : Bool} {events : List (Event endpoint)}
    (tracks : Tracks handler streamId destroyed stream? record seen events) :
    (seen || stream?.isSome) = seen := by
  cases tracks.life with
  | unseen _ _ _ => rfl
  | present _ _ => rfl
  | gone _ _ => rfl

/-- A frame for a stream is followed. -/
theorem follows_of_frame {streamId : UInt32} {destroyed : Bool} (inUse : destroyed = false)
    (tracks : Tracks handler streamId destroyed (world.session.streams.lookup streamId)
      (world.record streamId) (world.seen streamId) (about streamId world.events))
    {frame : Frame} (respects : Respects world (.frameRecv frame))
    (own : frame.streamId? = some streamId) :
    Follows handler world.session (.frameRecv frame) streamId destroyed (world.record streamId)
      (world.seen streamId) (about streamId world.events) := by
  subst inUse
  cases frame with
  | headers _ endHeaders endStream =>
    cases own
    obtain ⟨message, phase⟩ := respects
    cases endHeaders with
    | true => exact tracks.endHeaders rfl phase endStream
    | false => exact tracks.headersFrame rfl phase endStream
  | data _ endStream =>
    cases own
    exact tracks.dataFrame rfl respects endStream
  | pushPromise _ =>
    cases own
    exact tracks.silent rfl rfl rfl
  | windowUpdate _ increment =>
    cases own
    exact tracks.windowUpdate rfl respects increment
  | goaway _ => cases own
  | other => cases own

/-- What is allowed for a stream is followed. -/
theorem follows_of_allowed (tracked : world.Tracked handler) {callback : Callback endpoint}
    (allowed : Allowed world callback) {streamId : UInt32}
    (own : callback.streamId? = some streamId) :
    Follows handler world.session callback streamId world.destroyed (world.record streamId)
      (world.seen streamId) (about streamId world.events) := by
  have tracks := tracked streamId
  unfold Allowed at allowed
  cases destroyed : world.destroyed with
  | true =>
    rw [destroyed] at tracks
    rw [destroyed, if_pos rfl] at allowed
    cases callback with
    | streamClose _ errorCode =>
      cases own
      exact tracks.streamClose rfl errorCode
    | dataSourceRead _ length =>
      cases own
      refine tracks.dataSourceRead rfl ?_ length
      intro stream found
      rw [found] at tracks
      cases tracks.life
    | _ => exact allowed.elim
  | false =>
    rw [destroyed] at tracks
    rw [destroyed, if_neg Bool.false_ne_true] at allowed
    cases callback with
    | beginHeaders _ =>
      cases own
      exact tracks.beginHeaders rfl allowed
    | header _ name value =>
      cases own
      obtain ⟨message, phase⟩ := allowed
      exact tracks.header rfl phase name value
    | frameRecv frame => exact follows_of_frame rfl tracks allowed own
    | dataChunkRecv _ data =>
      cases own
      exact tracks.dataChunkRecv rfl allowed data
    | streamClose _ errorCode =>
      cases own
      exact tracks.streamClose rfl errorCode
    | submitRequest _ request eof =>
      cases own
      exact tracks.submitRequest rfl allowed request eof
    | submitBody _ chunk eof status =>
      cases own
      exact tracks.submitBody rfl chunk eof status
    | dataSourceRead _ length =>
      cases own
      exact tracks.dataSourceRead rfl allowed.2 length
    | destroy => cases own

/-- Closing distinct streams raises one event for each. -/
theorem about_closeStreams (handler : Handler) (streamId : UInt32) (keys : List UInt32)
    (distinct : keys.Nodup) :
    about streamId (keys.flatMap fun key => closeStream handler key cancel) =
      (if streamId ∈ keys then raise handler (.streamClosed streamId cancel) else [] :
        List (Event endpoint)) := by
  induction keys with
  | nil => rfl
  | cons key rest inductionHypothesis =>
    obtain ⟨notLater, distinct⟩ := List.nodup_cons.mp distinct
    rw [List.flatMap_cons, about_append, inductionHypothesis distinct, closeStream]
    by_cases same : key = streamId
    · subst same
      rw [if_neg notLater, if_pos List.mem_cons_self, List.append_nil]
      exact about_own (forall_mem_raise rfl)
    · have nothing : about streamId (raise handler (.streamClosed key cancel : Event endpoint)) =
          [] :=
        about_other (forall_mem_raise fun equal => same (Option.some.inj equal))
      rw [nothing, List.nil_append]
      simp only [List.mem_cons, Ne.symm same, false_or]

/-- The destructor closes the streams of the session. -/
theorem about_destroy (handler : Handler) (session : Session endpoint) (streamId : UInt32) :
    about streamId (Http2.destroy handler session).2 =
      if (session.streams.lookup streamId).isSome then
        raise handler (.streamClosed streamId cancel)
      else [] := by
  rw [Http2.destroy, about_closeStreams handler streamId _ session.streams.keys_nodup]
  simp only [AList.lookup_isSome, AList.mem_keys]

/-- A callback about one stream keeps every stream tracked: the others do not notice it. -/
theorem worldStep_tracked_own {handler : Handler} {world : World endpoint}
    {callback : Callback endpoint} {streamId : UInt32} (tracked : world.Tracked handler)
    (allowed : Allowed world callback) (own : callback.streamId? = some streamId) :
    ∃ next, worldStep handler world callback = some next ∧ next.Tracked handler := by
  obtain ⟨stream?, raised, session, effect, kept⟩ := follows_of_allowed tracked allowed own
  have inUse : (world.destroyed || callback.isDestroy) = world.destroyed := by
    cases callback with
    | destroy => cases own
    | _ => exact Bool.or_false _
  refine ⟨_, congrArg (Option.map _) effect.performed, fun other => ?_⟩
  simp only [inUse, own, Option.some.injEq, about_append]
  by_cases same : streamId = other
  · subst same
    simp only [if_true, effect.found, about_own effect.own]
    exact kept
  · have silent : about other raised = [] := about_other fun event member equal =>
      same (Option.some.inj ((effect.own event member).symm.trans equal))
    simp only [if_neg same, effect.others other (Ne.symm same), silent, List.append_nil,
      (tracked other).seen_or]
    exact tracked other

theorem worldStep_tracked_destroy {handler : Handler} {world : World endpoint}
    (tracked : world.Tracked handler) (allowed : Allowed world .destroy) :
    ∃ next, worldStep handler world .destroy = some next ∧ next.Tracked handler := by
  have inUse : world.destroyed = false := by
    by_contra destroyed
    rw [Bool.not_eq_false] at destroyed
    unfold Allowed at allowed
    rw [if_pos destroyed] at allowed
    exact allowed
  refine ⟨_, rfl, fun streamId => ?_⟩
  have tracks := tracked streamId
  rw [inUse] at tracks
  have ended := tracks.destroy
  rw [← about_destroy, ← about_append] at ended
  simp only [Callback.isDestroy, Bool.or_true, Callback.streamId?, reduceCtorEq, if_false]
  have emptied : (Http2.destroy handler world.session).1.streams.lookup streamId = none :=
    AList.lookup_empty streamId
  rw [emptied, Option.isSome_none, Bool.or_false]
  exact ended

/-- A callback keeps every stream tracked. -/
theorem worldStep_tracked (handler : Handler) (world : World endpoint)
    (callback : Callback endpoint) (tracked : world.Tracked handler)
    (allowed : Allowed world callback) :
    ∃ next, worldStep handler world callback = some next ∧ next.Tracked handler := by
  cases own : callback.streamId? with
  | some streamId => exact worldStep_tracked_own tracked allowed own
  | none =>
    cases callback with
    | destroy => exact worldStep_tracked_destroy tracked allowed
    | frameRecv frame =>
      cases frame with
      | goaway errorCode =>
        refine ⟨_, rfl, fun streamId => ?_⟩
        have silent : about streamId (raise handler (.close errorCode : Event endpoint)) = [] :=
          about_other (forall_mem_raise fun impossible => nomatch impossible)
        simp only [Callback.isDestroy, Bool.or_false, own, reduceCtorEq, if_false, about_append,
          silent, List.append_nil, (tracked streamId).seen_or]
        exact tracked streamId
      | other =>
        refine ⟨_, rfl, fun streamId => ?_⟩
        simp only [Callback.isDestroy, Bool.or_false, own, reduceCtorEq, if_false,
          List.append_nil, (tracked streamId).seen_or]
        exact tracked streamId
      | _ => cases own
    | _ => cases own

end Step

/-- The last event of a stream tells that it was closed, and no earlier one does. -/
def ClosedLast (handler : Handler) (streamId : UInt32) (events : List (Event endpoint)) : Prop :=
  ∃ front errorCode, events = front ++ raise handler (.streamClosed streamId errorCode) ∧
    ∀ event ∈ front, event.isClosed = false

/-- For every sequence of callbacks that respects the rules of nghttp2, on a client or a server,
with the destructor and what nghttp2 sends in it: the header blocks of every stream raise what is
expected, as far as the handler has the callbacks. A stream that is in the session was not closed,
one that was in it before was closed as its last event, and after the destructor none is in it. -/
theorem http2Events_ordered (handler : Handler) (callbacks : List (Callback endpoint))
    (allowed : Along (worldStep handler) Allowed ({} : World endpoint) callbacks) :
    ∃ world, run (worldStep handler) ({} : World endpoint) callbacks = some world ∧
      ∀ streamId,
        (about streamId world.events).filter Event.isHeader =
          (announcements streamId (world.record streamId).blocks).filter handler.handles ∧
        (world.session.streams.lookup streamId ≠ none →
          ∀ event ∈ about streamId world.events, event.isClosed = false) ∧
        (world.seen streamId = true → world.session.streams.lookup streamId = none →
          ClosedLast handler streamId (about streamId world.events)) ∧
        (world.destroyed = true → world.session.streams.lookup streamId = none) := by
  have start : ({} : World endpoint).Tracked handler := fun streamId =>
    ⟨.unseen (.inr (.inl rfl)) rfl (fun event member => nomatch member), rfl⟩
  obtain ⟨world, ran, tracked⟩ := run_defined_along (worldStep_tracked handler) start allowed
  refine ⟨world, ran, fun streamId => ?_⟩
  obtain ⟨life, announced⟩ := tracked streamId
  refine ⟨announced, ?_⟩
  generalize world.session.streams.lookup streamId = stream? at life
  generalize world.destroyed = destroyed at life
  generalize world.seen streamId = seen at life
  generalize about streamId world.events = events at life
  cases life with
  | unseen _ _ notClosed =>
    exact ⟨fun impossible => absurd rfl impossible, fun impossible => Bool.noConfusion impossible,
      fun _ => rfl⟩
  | present _ notClosed =>
    exact ⟨fun _ => notClosed, (fun _ impossible => nomatch impossible),
      fun impossible => Bool.noConfusion impossible⟩
  | @gone _ _ front errorCode _ notClosed =>
    exact ⟨fun impossible => absurd rfl impossible,
      fun _ _ => ⟨front, errorCode, rfl, notClosed⟩, fun _ => rfl⟩

/-- An interim response, the final one and a trailer on a stream the destructor closes. -/
def exchange : List (Callback .client) :=
  [.submitRequest 1 {} true, .beginHeaders 1, .header 1 (ascii ":status") (ascii "103"),
    .frameRecv (.headers 1 true false), .beginHeaders 1,
    .header 1 (ascii ":status") (ascii "200"), .frameRecv (.headers 1 true false),
    .dataChunkRecv 1 (ascii "x"), .beginHeaders 1, .frameRecv (.headers 1 true true), .destroy,
    .streamClose 1 0]

theorem allowed_of_respects {world : World endpoint} {callback : Callback endpoint}
    (inUse : world.destroyed = false) (respects : Respects world callback) :
    Allowed world callback := by
  unfold Allowed
  rw [inUse, if_neg Bool.false_ne_true]
  exact respects

theorem exchange_allowed (handler : Handler) :
    Along (worldStep handler) Allowed ({} : World .client) exchange := by
  refine .cons rfl (allowed_of_respects rfl rfl) ?_
  refine .cons rfl (allowed_of_respects rfl (.inr rfl)) ?_
  refine .cons rfl (allowed_of_respects rfl ⟨_, rfl⟩) ?_
  refine .cons rfl (allowed_of_respects rfl ⟨_, rfl⟩) ?_
  refine .cons rfl (allowed_of_respects rfl (.inr rfl)) ?_
  refine .cons rfl (allowed_of_respects rfl ⟨_, rfl⟩) ?_
  refine .cons rfl (allowed_of_respects rfl ⟨_, rfl⟩) ?_
  refine .cons rfl (allowed_of_respects rfl fun impossible => nomatch impossible) ?_
  refine .cons rfl (allowed_of_respects rfl (.inr rfl)) ?_
  refine .cons rfl (allowed_of_respects rfl ⟨_, rfl⟩) ?_
  refine .cons rfl (allowed_of_respects rfl trivial) ?_
  exact .cons rfl trivial trivial

/-- The three blocks are told apart, and the stream is closed once. -/
theorem http2Events_ordered_exchange :
    ∃ world, run (worldStep everyCallback) ({} : World .client) exchange = some world ∧
      (world.record 1).blocks.map interim = [true, false, false] ∧
      (about 1 world.events).filter Event.isHeader =
        (announcements 1 (world.record 1).blocks).filter everyCallback.handles ∧
      ClosedLast everyCallback 1 (about 1 world.events) := by
  obtain ⟨world, ran, ordered⟩ :=
    http2Events_ordered everyCallback exchange (exchange_allowed everyCallback)
  have reached := ran
  cases reached
  obtain ⟨announced, -, closed, emptied⟩ := ordered 1
  exact ⟨_, ran, rfl, announced, closed rfl (emptied rfl)⟩

end NativeLibs.Http2
