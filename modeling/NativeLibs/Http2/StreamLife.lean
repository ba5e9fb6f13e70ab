/-
This file follows one stream of a session through the callbacks for it. The kind
of a header block depends on a flag that the blocks before it have set, and a
stream can be closed by nghttp2 or by the destructor.

Beside the session a run keeps a record of every stream: where nghttp2 is with it,
and the blocks that are complete. The rules of nghttp2 are rules about the
record. A callback changes the stream it is for and no other one, so that the
invariant is stated for one stream at a time: its life begins when it enters
`m_streams` and ends with `on_stream_closed`.
-/

import Mathlib.Data.List.TakeWhile
import NativeLibs.Http2.Session

namespace NativeLibs.Http2

open Http

/-! ### What is expected -/

/-- A block that does not end the sequence of interim responses. A request has no such blocks. -/
def interim : {endpoint : Endpoint} → Message endpoint → Bool
  | .server, _ => false
  | .client, response => decide (Response.statusCode response < 200)

/-- A block with the flag that tells whether a body follows. -/
def finished {endpoint : Endpoint} (message : Message endpoint) (endStream : Bool) :
    Message endpoint :=
  message.withHeaders { message.headers with hasBody := !endStream }

variable {endpoint : Endpoint}

/-- The events for the blocks of a stream: the interim blocks and the one after them are messages,
and what follows are trailers. -/
def announcements (streamId : UInt32) (blocks : List (Message endpoint)) : List (Event endpoint) :=
  (blocks.takeWhile interim).map (.message streamId) ++
    match blocks.dropWhile interim with
    | [] => []
    | final :: trailers =>
      .message streamId final ::
        trailers.map fun trailer => .trailerHeaders streamId trailer.headers

/-- A block that is not interim was received. -/
def finalReceived (blocks : List (Message endpoint)) : Bool := blocks.any fun block => !interim block

/-- The event for the next block. -/
def announcement (streamId : UInt32) (received : Bool) (block : Message endpoint) :
    Event endpoint :=
  if received then .trailerHeaders streamId block.headers else .message streamId block

theorem finalReceived_append (blocks : List (Message endpoint)) (block : Message endpoint) :
    finalReceived (blocks ++ [block]) = (finalReceived blocks || !interim block) := by
  simp [finalReceived]

theorem announcements_append_trailer (streamId : UInt32) (blocks : List (Message endpoint))
    (block : Message endpoint) (received : finalReceived blocks = true) :
    announcements streamId (blocks ++ [block]) =
      announcements streamId blocks ++ [.trailerHeaders streamId block.headers] := by
  induction blocks with
  | nil => cases received
  | cons first rest inductionHypothesis =>
    cases kind : interim first with
    | false => simp [announcements, kind]
    | true =>
      have later : finalReceived rest = true := by
        simpa [finalReceived, kind] using received
      simpa [announcements, kind] using inductionHypothesis later

theorem announcements_append_message (streamId : UInt32) (blocks : List (Message endpoint))
    (block : Message endpoint) (received : finalReceived blocks = false) :
    announcements streamId (blocks ++ [block]) =
      announcements streamId blocks ++ [.message streamId block] := by
  induction blocks with
  | nil => cases kind : interim block <;> simp [announcements, kind]
  | cons first rest inductionHypothesis =>
    have kind : interim first = true := by
      simp only [finalReceived, List.any_cons, Bool.or_eq_false_iff, Bool.not_eq_false'] at received
      exact received.1
    have later : finalReceived rest = false := by
      simpa [finalReceived, kind] using received
    simpa [announcements, kind] using inductionHypothesis later

theorem announcements_append (streamId : UInt32) (blocks : List (Message endpoint))
    (block : Message endpoint) :
    announcements streamId (blocks ++ [block]) =
      announcements streamId blocks ++ [announcement streamId (finalReceived blocks) block] := by
  cases received : finalReceived blocks with
  | false => exact announcements_append_message streamId blocks block received
  | true => exact announcements_append_trailer streamId blocks block received

theorem flagsAfter_received (flags : Flags) (message : Message endpoint) :
    (flagsAfter flags message).messageAlreadyReceived = !interim message := by
  cases endpoint with
  | server => rfl
  | client =>
    show decide (200 ≤ Response.statusCode message) = !decide (Response.statusCode message < 200)
    rw [← decide_not]
    exact decide_eq_decide.mpr not_lt.symm

theorem flagsAfter_scheduled (flags : Flags) (message : Message endpoint) :
    (flagsAfter flags message).scheduled = flags.scheduled := by
  cases endpoint with
  | server => rfl
  | client => rfl

/-! ### Runs -/

/-- What nghttp2 and the application do with a session. -/
inductive Callback : Endpoint → Type where
  | beginHeaders {endpoint : Endpoint} (streamId : UInt32) : Callback endpoint
  | header {endpoint : Endpoint} (streamId : UInt32) (name value : Bytes) : Callback endpoint
  | frameRecv {endpoint : Endpoint} (frame : Frame) : Callback endpoint
  | dataChunkRecv {endpoint : Endpoint} (streamId : UInt32) (data : Bytes) : Callback endpoint
  | streamClose {endpoint : Endpoint} (streamId : UInt32) (errorCode : ℕ) : Callback endpoint
  | submitRequest (streamId : UInt32) (request : Request) (eof : Bool) : Callback .client
  | submitBody {endpoint : Endpoint} (streamId : UInt32) (chunk : Bytes) (eof : Bool)
      (status : ℤ) : Callback endpoint
  | dataSourceRead {endpoint : Endpoint} (streamId : UInt32) (length : ℕ) : Callback endpoint
  | destroy {endpoint : Endpoint} : Callback endpoint

/-- The stream a frame is for. -/
def Frame.streamId? : Frame → Option UInt32
  | .headers streamId _ _ => some streamId
  | .data streamId _ => some streamId
  | .pushPromise streamId => some streamId
  | .windowUpdate streamId _ => some streamId
  | .goaway _ => none
  | .other => none

/-- The stream a callback is for. -/
def Callback.streamId? : {endpoint : Endpoint} → Callback endpoint → Option UInt32
  | _, .beginHeaders streamId => some streamId
  | _, .header streamId _ _ => some streamId
  | _, .frameRecv frame => frame.streamId?
  | _, .dataChunkRecv streamId _ => some streamId
  | _, .streamClose streamId _ => some streamId
  | _, .submitRequest streamId _ _ => some streamId
  | _, .submitBody streamId _ _ _ => some streamId
  | _, .dataSourceRead streamId _ => some streamId
  | _, .destroy => none

/-- What a callback does to the session, and the callbacks of the handler it raises. -/
def perform (handler : Handler) : {endpoint : Endpoint} → Session endpoint → Callback endpoint →
    Option (Session endpoint × List (Event endpoint))
  | _, session, .beginHeaders streamId => some ((onBeginHeaders session streamId).2, [])
  | _, session, .header streamId name value => some ((onHeader session streamId name value).2, [])
  | _, session, .frameRecv frame => onFrameRecv handler session frame
  | _, session, .dataChunkRecv streamId data =>
    some (session, (onDataChunkRecv handler session streamId data).2)
  | _, session, .streamClose streamId errorCode =>
    some (onStreamClose handler session streamId errorCode).2
  | _, session, .submitRequest streamId request eof =>
    some (submitRequest session streamId request eof, [])
  | _, session, .submitBody streamId chunk eof status =>
    some ((submitBodyImpl session streamId chunk eof status).2, [])
  | _, session, .dataSourceRead streamId length =>
    (onDataSourceRead handler session streamId length).map Prod.snd
  | _, session, .destroy => some (destroy handler session)

/-- Where nghttp2 is with a stream. -/
inductive Phase (endpoint : Endpoint) where
  /-- Nothing has happened on the stream. -/
  | idle
  /-- No header block is open. -/
  | ready
  /-- The fields of the open block make up a message so far. -/
  | block (message : Message endpoint)
  /-- A field was refused, so that nghttp2 resets the stream. -/
  | refused
  | closed

/-- What happened on a stream. -/
structure Record (endpoint : Endpoint) where
  phase : Phase endpoint := .idle
  blocks : List (Message endpoint) := []

/-- The record of a stream after a callback for it. -/
def Record.after : {endpoint : Endpoint} → Record endpoint → Callback endpoint → Record endpoint
  | endpoint, record, .beginHeaders _ =>
    { record with phase := .block (Message.make endpoint http20) }
  | _, record, .header _ name value =>
    match record.phase with
    | .block message =>
      match message.receive name value with
      | some received => { record with phase := .block received }
      | none => { record with phase := .refused }
    | _ => record
  | _, record, .frameRecv (.headers _ true endStream) =>
    match record.phase with
    | .block message => ⟨.ready, record.blocks ++ [finished message endStream]⟩
    | _ => record
  | _, record, .streamClose _ _ => { record with phase := .closed }
  | _, record, .submitRequest _ _ _ => { record with phase := .ready }
  | _, record, _ => record

/-- A session, the events it has raised and the records of its streams. -/
structure World (endpoint : Endpoint) where
  session : Session endpoint := ⟨∅⟩
  destroyed : Bool := false
  events : List (Event endpoint) := []
  record : UInt32 → Record endpoint := fun _ => {}
  /-- The stream was in `m_streams` at some moment. -/
  seen : UInt32 → Bool := fun _ => false

def Callback.isDestroy : {endpoint : Endpoint} → Callback endpoint → Bool
  | _, .destroy => true
  | _, _ => false

/-- One callback. -/
def worldStep (handler : Handler) (world : World endpoint) (callback : Callback endpoint) :
    Option (World endpoint) :=
  (perform handler world.session callback).map fun outcome =>
    { session := outcome.1
      destroyed := world.destroyed || callback.isDestroy
      events := world.events ++ outcome.2
      record := fun streamId =>
        if callback.streamId? = some streamId then (world.record streamId).after callback
        else world.record streamId
      seen := fun streamId =>
        world.seen streamId || (outcome.1.streams.lookup streamId).isSome }

/-- The rules of nghttp2 while the session is in use: the fields of a block come between its
beginning and its `HEADERS` frame, a request opens a new stream, a data source is read once it is
registered, and there is nothing on a stream after it was closed. -/
def Respects (world : World endpoint) : Callback endpoint → Prop
  | .beginHeaders streamId =>
    (world.record streamId).phase = .idle ∨ (world.record streamId).phase = .ready
  | .header streamId _ _ => ∃ message, (world.record streamId).phase = .block message
  | .frameRecv (.headers streamId _ _) =>
    ∃ message, (world.record streamId).phase = .block message
  | .frameRecv (.data streamId _) => (world.record streamId).phase ≠ .closed
  | .frameRecv (.windowUpdate streamId _) => (world.record streamId).phase ≠ .closed
  | .frameRecv _ => True
  | .dataChunkRecv streamId _ => (world.record streamId).phase ≠ .closed
  | .streamClose streamId _ => (world.record streamId).phase ≠ .closed
  | .submitRequest streamId _ _ => (world.record streamId).phase = .idle
  | .submitBody _ _ _ _ => True
  | .dataSourceRead streamId _ => (world.record streamId).phase ≠ .closed ∧
    ∀ stream, world.session.streams.lookup streamId = some stream → stream.flags.scheduled = true
  | .destroy => True

/-- The destructor lets nghttp2 send what is left, which reads data sources and closes streams. -/
def SendsOnly : Callback endpoint → Prop
  | .streamClose _ _ => True
  | .dataSourceRead _ _ => True
  | _ => False

def Allowed (world : World endpoint) (callback : Callback endpoint) : Prop :=
  if world.destroyed then SendsOnly callback else Respects world callback

/-! ### The life of a stream -/

/-- A header block is handed over. -/
def Event.isHeader : Event endpoint → Bool
  | .message _ _ => true
  | .trailerHeaders _ _ => true
  | _ => false

def Event.isClosed : Event endpoint → Bool
  | .streamClosed _ _ => true
  | _ => false

/-- The events for a stream. -/
def about (streamId : UInt32) (events : List (Event endpoint)) : List (Event endpoint) :=
  events.filter fun event => event.streamId? = some streamId

theorem about_append (streamId : UInt32) (events raised : List (Event endpoint)) :
    about streamId (events ++ raised) = about streamId events ++ about streamId raised :=
  List.filter_append _ _

theorem about_own {streamId : UInt32} {raised : List (Event endpoint)}
    (own : ∀ event ∈ raised, event.streamId? = some streamId) : about streamId raised = raised :=
  List.filter_eq_self.mpr fun event member => decide_eq_true (own event member)

theorem about_other {streamId : UInt32} {raised : List (Event endpoint)}
    (other : ∀ event ∈ raised, event.streamId? ≠ some streamId) : about streamId raised = [] :=
  List.filter_eq_nil_iff.mpr fun event member same => other event member (of_decide_eq_true same)

theorem eq_of_mem_raise {handler : Handler} {event raised : Event endpoint}
    (member : event ∈ raise handler raised) : event = raised := by
  unfold raise at member
  split at member
  · exact List.mem_singleton.mp member
  · cases member

theorem forall_mem_raise {handler : Handler} {raised : Event endpoint}
    {property : Event endpoint → Prop} (holds : property raised) :
    ∀ event ∈ raise handler raised, property event := by
  intro event member
  rw [eq_of_mem_raise member]
  exact holds

theorem filter_raise (handler : Handler) (event : Event endpoint) (kind : event.isHeader = true) :
    (raise handler event).filter Event.isHeader = [event].filter handler.handles := by
  unfold raise
  cases set : handler.handles event with
  | false => simp [set]
  | true => simp [set, kind]

theorem filter_quiet {raised : List (Event endpoint)}
    (noHeader : ∀ event ∈ raised, event.isHeader = false) :
    raised.filter Event.isHeader = [] :=
  List.filter_eq_nil_iff.mpr fun event member => by
    rw [noHeader event member]
    exact Bool.false_ne_true

theorem filter_closed (handler : Handler) (streamId : UInt32) (errorCode : ℕ) :
    (raise handler (.streamClosed streamId errorCode : Event endpoint)).filter Event.isHeader = [] :=
  filter_quiet (forall_mem_raise rfl)

/-- The message that is being received is the one of the open block. -/
def Phase.Fits : Phase endpoint → Option (Message endpoint) → Prop
  | .ready, pending => pending = none
  | .block message, pending => pending = some message
  | .refused, _ => True
  | .idle, _ => False
  | .closed, _ => False

/-- A stream of the session agrees with its record. -/
structure Consistent (record : Record endpoint) (stream : Stream endpoint) : Prop where
  message : record.phase.Fits stream.message
  received : stream.flags.messageAlreadyReceived = finalReceived record.blocks
  source : stream.flags.scheduled = true → stream.dataSource.buffer.isSome

/-- A stream is not in `m_streams` yet, or in it, or was in it and then closed as its last event. -/
inductive Life (handler : Handler) (streamId : UInt32) :
    Bool → Option (Stream endpoint) → Record endpoint → Bool → List (Event endpoint) → Prop where
  | unseen {destroyed : Bool} {record : Record endpoint} {events : List (Event endpoint)}
      (waiting : destroyed = true ∨ record.phase = .idle ∨ record.phase = .closed)
      (noBlocks : record.blocks = []) (notClosed : ∀ event ∈ events, event.isClosed = false) :
      Life handler streamId destroyed none record false events
  | present {stream : Stream endpoint} {record : Record endpoint} {events : List (Event endpoint)}
      (consistent : Consistent record stream)
      (notClosed : ∀ event ∈ events, event.isClosed = false) :
      Life handler streamId false (some stream) record true events
  | gone {destroyed : Bool} {record : Record endpoint} {front : List (Event endpoint)}
      {errorCode : ℕ} (ended : destroyed = true ∨ record.phase = .closed)
      (notClosed : ∀ event ∈ front, event.isClosed = false) :
      Life handler streamId destroyed none record true
        (front ++ raise handler (.streamClosed streamId errorCode))

/-- The life of a stream, and the events its header blocks have raised. -/
structure Tracks (handler : Handler) (streamId : UInt32) (destroyed : Bool)
    (stream? : Option (Stream endpoint)) (record : Record endpoint) (seen : Bool)
    (events : List (Event endpoint)) : Prop where
  life : Life handler streamId destroyed stream? record seen events
  announced : events.filter Event.isHeader =
    (announcements streamId record.blocks).filter handler.handles

/-- A stream after a header block, when the final one was or was not received before it. -/
def Stream.afterBlock (stream : Stream endpoint) (received : Bool) (block : Message endpoint) :
    Stream endpoint :=
  { stream with
    message := none
    flags := if received then stream.flags else flagsAfter stream.flags block }

theorem announcement_kind (streamId : UInt32) (received : Bool) (block : Message endpoint) :
    (announcement streamId received block).isHeader = true ∧
      (announcement streamId received block).isClosed = false ∧
      (announcement streamId received block).streamId? = some streamId := by
  cases received with
  | false => exact ⟨rfl, rfl, rfl⟩
  | true => exact ⟨rfl, rfl, rfl⟩

/-- The frame that ends a header block announces it. -/
theorem perform_endHeaders (handler : Handler) {session : Session endpoint} {streamId : UInt32}
    {stream : Stream endpoint} {message : Message endpoint} {received : Bool}
    (found : session.streams.lookup streamId = some stream)
    (pending : stream.message = some message)
    (flag : stream.flags.messageAlreadyReceived = received) (endStream : Bool) :
    perform handler session (.frameRecv (.headers streamId true endStream)) =
      some (session.setStream streamId (stream.afterBlock received (finished message endStream)),
        raise handler (announcement streamId received (finished message endStream)) ++
          if endStream then onEndStream handler streamId else []) := by
  simp only [perform, onFrameRecv, found, onEndHeaders, pending, if_true, flag]
  cases received with
  | false => simp [Stream.afterBlock, finished, announcement]
  | true => simp [Stream.afterBlock, finished, announcement]

/-- A stream agrees with its record after a header block. -/
theorem Consistent.afterBlock {record : Record endpoint} {stream : Stream endpoint}
    (consistent : Consistent record stream) (block : Message endpoint) :
    Consistent ⟨.ready, record.blocks ++ [block]⟩
      (stream.afterBlock (finalReceived record.blocks) block) := by
  obtain ⟨-, flag, source⟩ := consistent
  rw [Stream.afterBlock]
  cases received : finalReceived record.blocks with
  | false =>
    refine ⟨rfl, ?_, fun scheduled => source ?_⟩
    · rw [finalReceived_append, received, Bool.false_or]
      exact flagsAfter_received _ _
    · exact (flagsAfter_scheduled _ _).symm.trans scheduled
  | true =>
    refine ⟨rfl, ?_, source⟩
    rw [finalReceived_append, received, Bool.true_or]
    exact flag.trans received

/-- A callback changes one stream, and raises events for that stream only. -/
structure Effect (handler : Handler) (session : Session endpoint) (callback : Callback endpoint)
    (streamId : UInt32) (stream? : Option (Stream endpoint)) (raised : List (Event endpoint))
    (next : Session endpoint) : Prop where
  performed : perform handler session callback = some (next, raised)
  found : next.streams.lookup streamId = stream?
  others : ∀ other, other ≠ streamId →
    next.streams.lookup other = session.streams.lookup other
  own : ∀ event ∈ raised, event.streamId? = some streamId

/-- A callback that sets a stream. -/
theorem Effect.ofSet {handler : Handler} {session : Session endpoint}
    {callback : Callback endpoint} {streamId : UInt32} {stream : Stream endpoint}
    {raised : List (Event endpoint)}
    (performed : perform handler session callback =
      some (session.setStream streamId stream, raised))
    (own : ∀ event ∈ raised, event.streamId? = some streamId) :
    Effect handler session callback streamId (some stream) raised
      (session.setStream streamId stream) :=
  ⟨performed, Session.lookup_setStream _ _ _,
    fun _ different => Session.lookup_setStream_ne _ _ different, own⟩

/-- A callback for a stream has an effect with which the record keeps track. -/
def Follows (handler : Handler) (session : Session endpoint) (callback : Callback endpoint)
    (streamId : UInt32) (destroyed : Bool) (record : Record endpoint) (seen : Bool)
    (events : List (Event endpoint)) : Prop :=
  ∃ stream? raised next, Effect handler session callback streamId stream? raised next ∧
    Tracks handler streamId destroyed stream? (record.after callback) (seen || stream?.isSome)
      (events ++ raised)

/-- A callback that raises nothing. -/
theorem Follows.ofNothing {handler : Handler} {session next : Session endpoint}
    {callback : Callback endpoint} {streamId : UInt32} {destroyed : Bool}
    {stream? : Option (Stream endpoint)} {record : Record endpoint} {seen : Bool}
    {events : List (Event endpoint)}
    (effect : Effect handler session callback streamId stream? [] next)
    (tracks : Tracks handler streamId destroyed stream? (record.after callback)
      (seen || stream?.isSome) events) :
    Follows handler session callback streamId destroyed record seen events := by
  refine ⟨stream?, [], next, effect, ?_⟩
  rw [List.append_nil]
  exact tracks

namespace Tracks

variable {handler : Handler} {session : Session endpoint} {streamId : UInt32} {destroyed : Bool}
  {stream? : Option (Stream endpoint)} {record : Record endpoint} {seen : Bool}
  {events : List (Event endpoint)}

/-- A callback that leaves the session as it is and raises nothing. -/
theorem silent {callback : Callback endpoint}
    (tracks : Tracks handler streamId destroyed stream? record seen events)
    (found : session.streams.lookup streamId = stream?)
    (performed : perform handler session callback = some (session, []))
    (recorded : record.after callback = record) :
    Follows handler session callback streamId destroyed record seen events := by
  refine .ofNothing ⟨performed, found, fun _ _ => rfl, fun event member => nomatch member⟩ ?_
  rw [recorded]
  obtain ⟨life, announced⟩ := tracks
  cases life with
  | unseen waiting noBlocks notClosed => exact ⟨.unseen waiting noBlocks notClosed, announced⟩
  | present consistent notClosed => exact ⟨.present consistent notClosed, announced⟩
  | gone ended notClosed => exact ⟨.gone ended notClosed, announced⟩

/-- A callback for a stream of the session that raises neither headers nor the end. -/
theorem keepPresent {callback : Callback endpoint} {stream next : Stream endpoint}
    {raised : List (Event endpoint)}
    (tracks : Tracks handler streamId false (some stream) record seen events)
    {nextSession : Session endpoint}
    (effect : Effect handler session callback streamId (some next) raised nextSession)
    (consistent : Consistent (record.after callback) next)
    (recorded : (record.after callback).blocks = record.blocks)
    (quiet : ∀ event ∈ raised, event.isHeader = false ∧ event.isClosed = false) :
    Follows handler session callback streamId false record seen events := by
  refine ⟨some next, raised, nextSession, effect, ?_⟩
  obtain ⟨life, announced⟩ := tracks
  cases life with
  | present _ notClosed =>
    refine ⟨.present consistent ?_, ?_⟩
    · exact List.forall_mem_append.mpr ⟨notClosed, fun event now => (quiet event now).2⟩
    · have nothing := filter_quiet fun event member => (quiet event member).1
      rw [List.filter_append, nothing, List.append_nil, announced, recorded]

theorem beginHeaders (tracks : Tracks handler streamId false stream? record seen events)
    (found : session.streams.lookup streamId = stream?)
    (allowed : record.phase = .idle ∨ record.phase = .ready) :
    Follows handler session (.beginHeaders streamId) streamId false record seen events := by
  obtain ⟨life, announced⟩ := tracks
  cases life with
  | unseen waiting noBlocks notClosed =>
    have effect : Effect handler session (.beginHeaders streamId) streamId
        (some { message := some (Message.make endpoint http20) }) []
        (session.setStream streamId { message := some (Message.make endpoint http20) }) := by
      refine .ofSet ?_ fun event member => nomatch member
      simp [perform, onBeginHeaders, found]
    refine .ofNothing effect ⟨.present ⟨rfl, ?_, fun impossible => Bool.noConfusion impossible⟩
      notClosed, announced⟩
    exact (congrArg finalReceived noBlocks).symm
  | @present stream _ _ consistent notClosed =>
    have pending : stream.message = none := by
      have fits := consistent.message
      rcases allowed with idle | ready
      · rw [idle] at fits
        exact fits.elim
      · rw [ready] at fits
        exact fits
    have effect : Effect handler session (.beginHeaders streamId) streamId
        (some { stream with message := some (Message.make endpoint http20) }) []
        (session.setStream streamId
          { stream with message := some (Message.make endpoint http20) }) := by
      refine .ofSet ?_ fun event member => nomatch member
      simp [perform, onBeginHeaders, found, pending]
    exact keepPresent ⟨.present consistent notClosed, announced⟩ effect
      ⟨rfl, consistent.received, consistent.source⟩ rfl fun event member => nomatch member
  | gone ended notClosed =>
    rw [ended.resolve_left Bool.false_ne_true] at allowed
    rcases allowed with impossible | impossible <;> cases impossible

/-- While a header block is open, the stream is in the session with the message so far. -/
theorem blockOpen {message : Message endpoint}
    (tracks : Tracks handler streamId false stream? record seen events)
    (allowed : record.phase = .block message) :
    ∃ stream, stream? = some stream ∧ stream.message = some message ∧
      Consistent record stream := by
  obtain ⟨life, -⟩ := tracks
  cases life with
  | unseen waiting _ _ =>
    rw [allowed] at waiting
    rcases waiting with impossible | impossible | impossible <;> cases impossible
  | @present stream _ _ consistent _ =>
    refine ⟨stream, rfl, ?_, consistent⟩
    have fits := consistent.message
    rw [allowed] at fits
    exact fits
  | gone ended _ =>
    rw [allowed] at ended
    rcases ended with impossible | impossible <;> cases impossible

theorem header {message : Message endpoint}
    (tracks : Tracks handler streamId false stream? record seen events)
    (found : session.streams.lookup streamId = stream?) (allowed : record.phase = .block message)
    (name value : Bytes) :
    Follows handler session (.header streamId name value) streamId false record seen events := by
  obtain ⟨stream, rfl, pending, consistent⟩ := tracks.blockOpen allowed
  cases parsed : message.receive name value with
  | none =>
    have effect : Effect handler session (.header streamId name value) streamId (some stream) []
        session := by
      refine ⟨?_, found, fun _ _ => rfl, fun event member => nomatch member⟩
      simp [perform, onHeader, found, pending, parsed]
    have recorded : record.after (.header streamId name value) = { record with phase := .refused } := by
      simp only [Record.after, allowed, parsed]
    refine tracks.keepPresent effect ?_ ?_ fun event member => nomatch member
    · rw [recorded]
      exact ⟨trivial, consistent.received, consistent.source⟩
    · rw [recorded]
  | some received =>
    have effect : Effect handler session (.header streamId name value) streamId
        (some { stream with message := some received }) []
        (session.setStream streamId { stream with message := some received }) := by
      refine .ofSet ?_ fun event member => nomatch member
      simp [perform, onHeader, found, pending, parsed]
    have recorded : record.after (.header streamId name value) =
        { record with phase := .block received } := by
      simp only [Record.after, allowed, parsed]
    refine tracks.keepPresent effect ?_ ?_ fun event member => nomatch member
    · rw [recorded]
      exact ⟨rfl, consistent.received, consistent.source⟩
    · rw [recorded]

/-- A callback that only raises events for the stream, and neither headers nor its end. -/
theorem quiet {callback : Callback endpoint} {raised : List (Event endpoint)}
    (tracks : Tracks handler streamId false stream? record seen events)
    (found : session.streams.lookup streamId = stream?) (allowed : record.phase ≠ .closed)
    (performed : perform handler session callback = some (session, raised))
    (recorded : record.after callback = record)
    (own : ∀ event ∈ raised, event.streamId? = some streamId)
    (noHeader : ∀ event ∈ raised, event.isHeader = false ∧ event.isClosed = false) :
    Follows handler session callback streamId false record seen events := by
  have effect : Effect handler session callback streamId stream? raised session :=
    ⟨performed, found, fun _ _ => rfl, own⟩
  cases stream? with
  | some stream =>
    have consistent : Consistent record stream := by
      obtain ⟨life, -⟩ := tracks
      cases life with
      | present consistent _ => exact consistent
    exact tracks.keepPresent effect (by rw [recorded]; exact consistent)
      (congrArg Record.blocks recorded) noHeader
  | none =>
    obtain ⟨life, announced⟩ := tracks
    cases life with
    | unseen waiting noBlocks notClosed =>
      refine ⟨none, raised, session, effect, ?_, ?_⟩
      · rw [recorded]
        exact .unseen waiting noBlocks
          (List.forall_mem_append.mpr ⟨notClosed, fun event now => (noHeader event now).2⟩)
      · have nothing := filter_quiet fun event member => (noHeader event member).1
        rw [recorded, List.filter_append, nothing, List.append_nil, announced]
    | gone ended _ => exact absurd (ended.resolve_left Bool.false_ne_true) allowed

/-- What holds of the event holds of all that `on_end_stream` raises. -/
theorem forall_mem_endStream {property : Event endpoint → Prop}
    {endStream : Bool} (holds : property (.streamReadFinished streamId)) :
    ∀ event ∈ if endStream then onEndStream handler streamId else [], property event := by
  cases endStream with
  | false => exact fun event member => nomatch member
  | true => exact forall_mem_raise holds

/-- A frame of the stream that hands over no headers. -/
theorem endStream {callback : Callback endpoint}
    (tracks : Tracks handler streamId false stream? record seen events)
    (found : session.streams.lookup streamId = stream?) (allowed : record.phase ≠ .closed)
    (endStream : Bool)
    (performed : perform handler session callback =
      some (session, if endStream then onEndStream handler streamId else []))
    (recorded : record.after callback = record) :
    Follows handler session callback streamId false record seen events :=
  tracks.quiet found allowed performed recorded (forall_mem_endStream rfl)
    (forall_mem_endStream ⟨rfl, rfl⟩)

/-- A frame of a stream that ends no header block and is for a stream of the session or for none. -/
theorem dataFrame (tracks : Tracks handler streamId false stream? record seen events)
    (found : session.streams.lookup streamId = stream?) (allowed : record.phase ≠ .closed)
    (endStream : Bool) :
    Follows handler session (.frameRecv (.data streamId endStream)) streamId false record seen
      events := by
  cases stream? with
  | none =>
    refine tracks.silent found ?_ rfl
    simp [perform, onFrameRecv, found]
  | some stream =>
    refine tracks.endStream found allowed endStream ?_ rfl
    simp [perform, onFrameRecv, found]

theorem dataChunkRecv (tracks : Tracks handler streamId false stream? record seen events)
    (found : session.streams.lookup streamId = stream?) (allowed : record.phase ≠ .closed)
    (data : Bytes) :
    Follows handler session (.dataChunkRecv streamId data) streamId false record seen events := by
  cases stream? with
  | none =>
    refine tracks.silent found ?_ rfl
    simp [perform, onDataChunkRecv, found]
  | some stream =>
    have performed : perform handler session (.dataChunkRecv streamId data) =
        some (session, raise handler (.body streamId data)) := by
      simp [perform, onDataChunkRecv, found]
    exact tracks.quiet found allowed performed rfl (forall_mem_raise rfl)
      (forall_mem_raise ⟨rfl, rfl⟩)

theorem windowUpdate (tracks : Tracks handler streamId false stream? record seen events)
    (found : session.streams.lookup streamId = stream?) (allowed : record.phase ≠ .closed)
    (increment : ℕ) :
    Follows handler session (.frameRecv (.windowUpdate streamId increment)) streamId false record
      seen events := by
  refine tracks.quiet found allowed rfl rfl ?_ ?_
  · split
    · exact forall_mem_raise rfl
    · exact fun event member => nomatch member
  · split
    · exact forall_mem_raise ⟨rfl, rfl⟩
    · exact fun event member => nomatch member

/-- A frame of a header block that is not its last one. -/
theorem headersFrame {message : Message endpoint}
    (tracks : Tracks handler streamId false stream? record seen events)
    (found : session.streams.lookup streamId = stream?) (allowed : record.phase = .block message)
    (endStream : Bool) :
    Follows handler session (.frameRecv (.headers streamId false endStream)) streamId false record
      seen events := by
  obtain ⟨stream, rfl, -, -⟩ := tracks.blockOpen allowed
  have open_ : record.phase ≠ .closed := by
    rw [allowed]
    exact fun impossible => nomatch impossible
  refine tracks.endStream found open_ endStream ?_ rfl
  simp [perform, onFrameRecv, found]

/-- The frame that ends a header block. -/
theorem endHeaders {message : Message endpoint}
    (tracks : Tracks handler streamId false stream? record seen events)
    (found : session.streams.lookup streamId = stream?) (allowed : record.phase = .block message)
    (endStream : Bool) :
    Follows handler session (.frameRecv (.headers streamId true endStream)) streamId false record
      seen events := by
  obtain ⟨stream, rfl, pending, consistent⟩ := tracks.blockOpen allowed
  have performed := perform_endHeaders handler found pending consistent.received endStream
  have recorded : record.after (.frameRecv (.headers streamId true endStream)) =
      ⟨.ready, record.blocks ++ [finished message endStream]⟩ := by
    simp only [Record.after, allowed]
  obtain ⟨isHeader, notClosing, own⟩ :=
    announcement_kind streamId (finalReceived record.blocks) (finished message endStream)
  obtain ⟨life, announced⟩ := tracks
  cases life with
  | present _ notClosed =>
    refine ⟨_, _, _, .ofSet performed ?_, ?_, ?_⟩
    · exact List.forall_mem_append.mpr
        ⟨forall_mem_raise own, forall_mem_endStream rfl⟩
    · rw [recorded]
      refine .present (consistent.afterBlock _) ?_
      exact List.forall_mem_append.mpr ⟨notClosed, List.forall_mem_append.mpr
        ⟨forall_mem_raise notClosing, forall_mem_endStream rfl⟩⟩
    · have nothing : (if endStream then onEndStream handler streamId else []).filter
          Event.isHeader = ([] : List (Event endpoint)) := filter_quiet (forall_mem_endStream rfl)
      rw [recorded, announcements_append, List.filter_append, List.filter_append, nothing,
        List.append_nil, filter_raise handler _ isHeader, announced, List.filter_append]

theorem streamClose (tracks : Tracks handler streamId destroyed stream? record seen events)
    (found : session.streams.lookup streamId = stream?) (errorCode : ℕ) :
    Follows handler session (.streamClose streamId errorCode) streamId destroyed record seen
      events := by
  -- a stream that is not in the session is left alone
  have missing (absent : stream? = none) :
      Effect handler session (.streamClose streamId errorCode) streamId none [] session := by
    refine ⟨?_, found.trans absent, fun _ _ => rfl, fun event member => nomatch member⟩
    simp [perform, onStreamClose, found, absent]
  obtain ⟨life, announced⟩ := tracks
  cases life with
  | unseen _ noBlocks notClosed =>
    exact .ofNothing (missing rfl) ⟨.unseen (.inr (.inr rfl)) noBlocks notClosed, announced⟩
  | present _ notClosed =>
    have effect : Effect handler session (.streamClose streamId errorCode) streamId none
        (raise handler (.streamClosed streamId errorCode))
        ⟨session.streams.erase streamId⟩ := by
      refine ⟨?_, AList.lookup_erase _ _, fun other different => AList.lookup_erase_ne different,
        forall_mem_raise rfl⟩
      simp [perform, onStreamClose, found, closeStream]
    refine ⟨none, _, _, effect, .gone (.inr rfl) notClosed, ?_⟩
    rw [List.filter_append, filter_closed, List.append_nil]
    exact announced
  | gone ended notClosed =>
    exact .ofNothing (missing rfl) ⟨.gone (.inr rfl) notClosed, announced⟩

theorem destroy (tracks : Tracks handler streamId false stream? record seen events) :
    Tracks handler streamId true none record seen
      (events ++ if stream?.isSome then raise handler (.streamClosed streamId cancel) else []) := by
  obtain ⟨life, announced⟩ := tracks
  cases life with
  | unseen _ noBlocks notClosed =>
    rw [Option.isSome_none, if_neg Bool.false_ne_true, List.append_nil]
    exact ⟨.unseen (.inl rfl) noBlocks notClosed, announced⟩
  | present _ notClosed =>
    refine ⟨.gone (.inl rfl) notClosed, ?_⟩
    rw [Option.isSome_some, if_pos rfl, List.filter_append, filter_closed, List.append_nil]
    exact announced
  | gone _ notClosed =>
    rw [Option.isSome_none, if_neg Bool.false_ne_true, List.append_nil]
    exact ⟨.gone (.inl rfl) notClosed, announced⟩

theorem submitBody (tracks : Tracks handler streamId destroyed stream? record seen events)
    (found : session.streams.lookup streamId = stream?) (chunk : Bytes) (eof : Bool) (status : ℤ) :
    Follows handler session (.submitBody streamId chunk eof status) streamId destroyed record seen
      events := by
  cases stream? with
  | none =>
    refine tracks.silent found ?_ rfl
    simp [perform, submitBodyImpl, found]
  | some stream =>
    have effect : Effect handler session (.submitBody streamId chunk eof status) streamId
        (some (scheduleSend (pushData stream chunk eof))) []
        (session.setStream streamId (scheduleSend (pushData stream chunk eof))) := by
      refine .ofSet ?_ fun event member => nomatch member
      simp only [perform, submitBodyImpl, found]
      split
      · rfl
      · rfl
    cases tracks.life with
    | present consistent _ =>
      exact tracks.keepPresent effect ⟨consistent.message, consistent.received, fun _ => rfl⟩ rfl
        fun event member => nomatch member

theorem dataSourceRead (tracks : Tracks handler streamId destroyed stream? record seen events)
    (found : session.streams.lookup streamId = stream?)
    (allowed : ∀ stream, stream? = some stream → stream.flags.scheduled = true) (length : ℕ) :
    Follows handler session (.dataSourceRead streamId length) streamId destroyed record seen
      events := by
  cases stream? with
  | none =>
    refine tracks.silent found ?_ rfl
    simp [perform, onDataSourceRead, found]
  | some stream =>
    cases tracks.life with
    | present consistent _ =>
      obtain ⟨buffer, source⟩ := Option.isSome_iff_exists.mp (consistent.source (allowed stream rfl))
      cases deferred : !stream.flags.hasEof && buffer.isEmpty with
      | true =>
        refine tracks.silent found ?_ rfl
        simp only [perform, onDataSourceRead, found, source, Option.bind_eq_bind,
          Option.bind_some, deferred]
        rfl
      | false =>
        have effect : Effect handler session (.dataSourceRead streamId length) streamId
            (some { stream with dataSource := ⟨some (buffer.drop length)⟩ })
            (raise handler (.dataSent streamId (buffer.take length).length))
            (session.setStream streamId
              { stream with dataSource := ⟨some (buffer.drop length)⟩ }) := by
          refine .ofSet ?_ (forall_mem_raise rfl)
          simp only [perform, onDataSourceRead, found, source, Option.bind_eq_bind,
            Option.bind_some, deferred]
          rfl
        exact tracks.keepPresent effect ⟨consistent.message, consistent.received, fun _ => rfl⟩ rfl
          (forall_mem_raise ⟨rfl, rfl⟩)

end Tracks

/-- A request opens its stream. -/
theorem Tracks.submitRequest {handler : Handler} {session : Session .client} {streamId : UInt32}
    {stream? : Option (Stream .client)} {record : Record .client} {seen : Bool}
    {events : List (Event .client)}
    (tracks : Tracks handler streamId false stream? record seen events)
    (found : session.streams.lookup streamId = stream?) (allowed : record.phase = .idle)
    (request : Request) (eof : Bool) :
    Follows handler session (.submitRequest streamId request eof) streamId false record seen
      events := by
  obtain ⟨life, announced⟩ := tracks
  cases life with
  | unseen _ noBlocks notClosed =>
    let headRequest := decide (request.method = ascii "HEAD")
    let stream : Stream .client := { flags := { headRequest, hasEof := eof || headRequest } }
    have performed : perform handler session (.submitRequest streamId request eof) =
        some (session.setStream streamId stream, []) := by
      simp [perform, Http2.submitRequest, found, stream, headRequest]
    have effect := Effect.ofSet performed fun event member => nomatch member
    refine .ofNothing effect ⟨.present ⟨rfl, ?_, fun impossible => Bool.noConfusion impossible⟩
      notClosed, announced⟩
    exact (congrArg finalReceived noBlocks).symm
  | present consistent _ =>
    have fits := consistent.message
    rw [allowed] at fits
    exact fits.elim
  | gone ended _ =>
    rw [allowed] at ended
    rcases ended with impossible | impossible <;> cases impossible

end NativeLibs.Http2
