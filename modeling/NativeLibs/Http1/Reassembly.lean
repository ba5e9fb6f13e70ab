/-
This file is about the header lines of a received message. The parser passes a
line in pieces: one or more pieces of the name, then the pieces of the value.
The session glues the pieces back together and decides from the collected text
alone whether a piece of a name starts a new line, so a line whose value is
empty is glued to the line after it. The file shows that the lines arrive
unchanged, for every way to cut them, exactly when no line but the last has an
empty value.
-/

import NativeLibs.Http1.Session

namespace NativeLibs.Http1

open Http

/-! ### Pieces of a header line -/

/-- One way to cut a header line: at least one piece of the name, then the pieces of the
value, of which an empty value may have none. -/
structure HeaderCut where
  field : List Bytes
  value : List Bytes
  started : field ≠ []

/-- The header line that was cut. -/
def HeaderCut.header (cut : HeaderCut) : Bytes × Bytes := (cut.field.flatten, cut.value.flatten)

/-- The callbacks the parser makes for a header line cut this way. -/
def HeaderCut.callbacks (cut : HeaderCut) : List Callback :=
  cut.field.map .headerField ++ cut.value.map .headerValue

/-- The result of a callback after events that were raised before it. -/
def CallbackResult.after (events : List Event) (result : CallbackResult) : CallbackResult :=
  ⟨result.code, result.session, events ++ result.events⟩

/-- The parser makes a list of callbacks and stops at the first that does not return 0. -/
def feed (side : Side) (handler : Callbacks) : Session → List Callback → CallbackResult
  | session, [] => ⟨0, session, []⟩
  | session, callback :: rest =>
    let result := onCallback side handler session callback
    if result.code = 0 then (feed side handler result.session rest).after result.events else result

@[simp] theorem CallbackResult.after_nil (result : CallbackResult) : result.after [] = result := rfl

theorem CallbackResult.after_after (result : CallbackResult) (first second : List Event) :
    (result.after second).after first = result.after (first ++ second) := by
  simp only [CallbackResult.after, List.append_assoc]

theorem feed_cons (side : Side) (handler : Callbacks) (session next : Session)
    (callback : Callback) (rest : List Callback) (events : List Event)
    (stepped : onCallback side handler session callback = ⟨0, next, events⟩) :
    feed side handler session (callback :: rest) = (feed side handler next rest).after events := by
  simp only [feed, stepped, if_true]

theorem feed_singleton (side : Side) (handler : Callbacks) (session : Session)
    (callback : Callback) :
    feed side handler session [callback] = onCallback side handler session callback := by
  simp only [feed, CallbackResult.after, List.append_nil]
  split
  · rename_i goesOn
    rw [← goesOn]
  · rfl

/-- Callbacks that all return 0 can be fed separately. -/
theorem feed_append (side : Side) (handler : Callbacks) (session next : Session)
    (first second : List Callback) (events : List Event)
    (fed : feed side handler session first = ⟨0, next, events⟩) :
    feed side handler session (first ++ second) =
      (feed side handler next second).after events := by
  induction first generalizing session events with
  | nil =>
    cases fed
    rfl
  | cons callback rest inductionHypothesis =>
    simp only [List.cons_append, feed] at fed ⊢
    split at fed
    · rename_i goesOn
      rw [CallbackResult.after, CallbackResult.mk.injEq] at fed
      rw [if_pos goesOn, inductionHypothesis _
          (feed side handler (onCallback side handler session callback).session rest).events
          (by rw [← fed.1, ← fed.2.1]),
        CallbackResult.after_after, fed.2.2]
    · rename_i stops
      exact absurd (congrArg CallbackResult.code fed) stops

/-! ### Gluing the pieces -/

/-- Where a whole header line ends up: glued to the line before it if the value of that line
is empty, and behind it otherwise. -/
def joinLine (lines : List (Bytes × Bytes)) (line : Bytes × Bytes) : List (Bytes × Bytes) :=
  match lines.getLast? with
  | none => lines ++ [line]
  | some (name, value) =>
    if value ≠ [] then lines ++ [line] else lines.dropLast ++ [(name ++ line.1, line.2)]

theorem joinLine_shape (lines : List (Bytes × Bytes)) :
    ∃ front glued, ∀ name value, joinLine lines (name, value) = front ++ [(glued ++ name, value)] := by
  unfold joinLine
  cases lines.getLast? with
  | none => exact ⟨lines, [], fun _ _ => rfl⟩
  | some last =>
    by_cases filled : last.2 ≠ []
    · exact ⟨lines, [], fun _ _ => if_pos filled⟩
    · exact ⟨lines.dropLast, last.1, fun _ _ => if_neg filled⟩

theorem addField_eq_joinLine (lines : List (Bytes × Bytes)) (piece : Bytes) :
    addField lines piece = joinLine lines (piece, []) := by
  unfold addField joinLine
  cases lines.getLast? with
  | none => rfl
  | some last =>
    by_cases empty : last.2 = []
    · simp only [empty, ne_eq, not_true_eq_false, if_false]
    · simp only [ne_eq, empty, not_false_eq_true, if_true]

theorem addField_joinLine (lines : List (Bytes × Bytes)) (name piece : Bytes) :
    addField (joinLine lines (name, [])) piece = joinLine lines (name ++ piece, []) := by
  obtain ⟨front, glued, shape⟩ := joinLine_shape lines
  rw [shape, shape]
  simp [addField]

theorem addValue_joinLine (lines : List (Bytes × Bytes)) (name value piece : Bytes) :
    addValue (joinLine lines (name, value)) piece = some (joinLine lines (name, value ++ piece)) := by
  obtain ⟨front, glued, shape⟩ := joinLine_shape lines
  rw [shape, shape]
  simp [addValue]

/-- The session while it collects header lines. -/
def collecting (session : Session) (context : ParserContext) (lines : List (Bytes × Bytes)) :
    Session :=
  { session with parserContext := some { context with headers := lines } }

section

variable (side : Side) (handler : Callbacks) (session : Session) (context : ParserContext)
  (stream : Stream) (active : activeStream side session.streams = some stream)

include active

theorem onHeaderField_collecting (lines : List (Bytes × Bytes)) (piece : Bytes) :
    onCallback side handler (collecting session context lines) (.headerField piece) =
      ⟨0, collecting session context (addField lines piece), []⟩ := by
  simp only [onCallback, onHeaderField, withContext, collecting, active]

theorem onHeaderValue_collecting (lines added : List (Bytes × Bytes)) (piece : Bytes)
    (grown : addValue lines piece = some added) :
    onCallback side handler (collecting session context lines) (.headerValue piece) =
      ⟨0, collecting session context added, []⟩ := by
  simp only [onCallback, onHeaderValue, withContext, collecting, active, grown]

theorem feed_fieldPieces (lines : List (Bytes × Bytes)) (name : Bytes) (pieces : List Bytes) :
    feed side handler (collecting session context (joinLine lines (name, [])))
        (pieces.map .headerField) =
      ⟨0, collecting session context (joinLine lines (name ++ pieces.flatten, [])), []⟩ := by
  induction pieces generalizing name with
  | nil => simp [feed]
  | cons piece rest inductionHypothesis =>
    rw [List.map_cons, feed_cons _ _ _ _ _ _ _
        (onHeaderField_collecting side handler session context stream active _ piece),
      addField_joinLine, inductionHypothesis]
    simp

theorem feed_valuePieces (lines : List (Bytes × Bytes)) (name value : Bytes)
    (pieces : List Bytes) :
    feed side handler (collecting session context (joinLine lines (name, value)))
        (pieces.map .headerValue) =
      ⟨0, collecting session context (joinLine lines (name, value ++ pieces.flatten)), []⟩ := by
  induction pieces generalizing value with
  | nil => simp [feed]
  | cons piece rest inductionHypothesis =>
    rw [List.map_cons, feed_cons _ _ _ _ _ _ _
        (onHeaderValue_collecting side handler session context stream active _ _ piece
          (addValue_joinLine lines name value piece)), inductionHypothesis]
    simp

theorem feed_cut (lines : List (Bytes × Bytes)) (cut : HeaderCut) :
    feed side handler (collecting session context lines) cut.callbacks =
      ⟨0, collecting session context (joinLine lines cut.header), []⟩ := by
  obtain ⟨first, rest, pieces⟩ := List.exists_cons_of_ne_nil cut.started
  rw [HeaderCut.callbacks, pieces, List.map_cons, List.cons_append,
    feed_cons _ _ _ _ _ _ _
      (onHeaderField_collecting side handler session context stream active _ first),
    addField_eq_joinLine,
    feed_append _ _ _ _ _ _ _ (feed_fieldPieces side handler session context stream active _ _ _),
    feed_valuePieces side handler session context stream active]
  simp [HeaderCut.header, pieces]

/-- A whole section of header lines, however each of them is cut. -/
theorem feed_cuts (lines : List (Bytes × Bytes)) (cuts : List HeaderCut) :
    feed side handler (collecting session context lines) (cuts.flatMap HeaderCut.callbacks) =
      ⟨0, collecting session context ((cuts.map HeaderCut.header).foldl joinLine lines), []⟩ := by
  induction cuts generalizing lines with
  | nil => rfl
  | cons cut rest inductionHypothesis =>
    rw [List.flatMap_cons,
      feed_append _ _ _ _ _ _ _ (feed_cut side handler session context stream active _ _),
      inductionHypothesis, List.map_cons, List.foldl_cons, CallbackResult.after_nil]

end

/-! ### When the lines survive -/

/-- Every line but the last has a value. -/
def InnerValuesFilled (lines : List (Bytes × Bytes)) : Prop := ∀ line ∈ lines.dropLast, line.2 ≠ []

instance (lines : List (Bytes × Bytes)) : Decidable (InnerValuesFilled lines) :=
  inferInstanceAs (Decidable (∀ line ∈ lines.dropLast, line.2 ≠ []))

/-- A line goes behind the lines collected so far, or is glued to a last line without value. -/
theorem joinLine_cases (lines : List (Bytes × Bytes)) (line : Bytes × Bytes) :
    ((∀ last ∈ lines.getLast?, last.2 ≠ []) ∧ joinLine lines line = lines ++ [line]) ∨
    ((∃ last ∈ lines.getLast?, last.2 = []) ∧ (joinLine lines line).length = lines.length) := by
  unfold joinLine
  cases found : lines.getLast? with
  | none => exact Or.inl ⟨by simp, rfl⟩
  | some last =>
    obtain ⟨front, rfl⟩ := List.getLast?_eq_some_iff.mp found
    by_cases empty : last.2 = []
    · exact Or.inr ⟨⟨last, rfl, empty⟩, by simp [empty]⟩
    · exact Or.inl ⟨by simpa using empty, if_pos empty⟩

theorem length_foldl_joinLine_le (lines added : List (Bytes × Bytes)) :
    (added.foldl joinLine lines).length ≤ lines.length + added.length := by
  induction added generalizing lines with
  | nil => simp
  | cons line rest inductionHypothesis =>
    refine (inductionHypothesis (joinLine lines line)).trans ?_
    obtain ⟨-, behind⟩ | ⟨-, glued⟩ := joinLine_cases lines line
    · rw [behind]
      simp
      omega
    · rw [glued, List.length_cons]
      omega

/-- No line is lost exactly when no line is glued: the last line so far and every line but the
last of the new ones has a value. -/
theorem foldl_joinLine_eq_append_iff (lines added : List (Bytes × Bytes)) (some : added ≠ []) :
    added.foldl joinLine lines = lines ++ added ↔
      (∀ last ∈ lines.getLast?, last.2 ≠ []) ∧ InnerValuesFilled added := by
  induction added generalizing lines with
  | nil => exact absurd rfl some
  | cons line rest inductionHypothesis =>
    rw [List.foldl_cons]
    obtain ⟨filled, behind⟩ | ⟨⟨last, found, empty⟩, glued⟩ := joinLine_cases lines line
    · rw [behind]
      by_cases single : rest = []
      · subst single
        simpa [InnerValuesFilled] using filled
      · have step := inductionHypothesis (lines ++ [line]) single
        rw [List.append_assoc, List.singleton_append] at step
        rw [step]
        obtain ⟨next, tail, rfl⟩ := List.exists_cons_of_ne_nil single
        simp only [List.getLast?_concat, Option.mem_some_iff, forall_eq', InnerValuesFilled,
          List.dropLast_cons_cons, List.forall_mem_cons]
        exact ⟨fun both => ⟨filled, both⟩, fun both => both.2⟩
    · -- A glued line shortens the list for good.
      constructor
      · intro kept
        have bound := length_foldl_joinLine_le (joinLine lines line) rest
        rw [kept, glued, List.length_append, List.length_cons] at bound
        omega
      · rintro ⟨filled, -⟩
        exact absurd empty (filled last found)

/-! ### Whole messages -/

/-- The callbacks for the path of a request or the reason phrase of a response. -/
def startLine (side : Side) (pieces : List Bytes) : List Callback :=
  match side with
  | .server => pieces.map .url
  | .client => pieces.map .status

/-- The callbacks for the head of a message. -/
def headCallbacks (side : Side) (pieces : List Bytes) (cuts : List HeaderCut) (parser : Parser) :
    List Callback :=
  .messageBegin :: (startLine side pieces ++ cuts.flatMap HeaderCut.callbacks ++
    [.headersComplete parser])

/-- The callbacks for the body, the trailer section and the end of a message. -/
def tailCallbacks (chunks : List Bytes) (trailer : List HeaderCut) : List Callback :=
  chunks.map .body ++ trailer.flatMap HeaderCut.callbacks ++ [.messageComplete]

/-- The header lists handed to the application. -/
def handedHeaders (events : List Event) : List (List (Bytes × Bytes)) :=
  events.filterMap fun
    | .request _ request => some (request.headers.fields.map fun field => (field.name, field.value))
    | .response _ response =>
      some (response.headers.fields.map fun field => (field.name, field.value))
    | .trailerHeaders _ headers => some (headers.fields.map fun field => (field.name, field.value))
    | _ => none

theorem takeHeaders_lines (lines : List (Bytes × Bytes)) :
    ((takeHeaders lines).fields.map fun field => (field.name, field.value)) = lines := by
  rw [takeHeaders, foldl_put_fields]
  simp [Function.comp_def]

theorem feed_startLine (side : Side) (handler : Callbacks) (session : Session) (stream : Stream)
    (active : activeStream side session.streams = some stream) (context : ParserContext)
    (pieces : List Bytes) :
    ∃ filled, feed side handler (collecting session context []) (startLine side pieces) =
      ⟨0, collecting session filled [], []⟩ := by
  induction pieces generalizing context with
  | nil => exact ⟨context, by cases side <;> rfl⟩
  | cons piece rest inductionHypothesis =>
    cases side with
    | server =>
      obtain ⟨filled, fed⟩ := inductionHypothesis { context with path := context.path ++ piece }
      refine ⟨filled, ?_⟩
      rw [startLine, List.map_cons, feed_cons _ _ _ _ _ _ []
        (by simp only [onCallback, onUrl, withContext, collecting, active]; rfl)]
      exact fed
    | client =>
      obtain ⟨filled, fed⟩ :=
        inductionHypothesis { context with statusString := context.statusString ++ piece }
      refine ⟨filled, ?_⟩
      rw [startLine, List.map_cons, feed_cons _ _ _ _ _ _ []
        (by simp only [onCallback, onStatus, withContext, collecting, active]; rfl)]
      exact fed

/-- The parser may begin a message whenever there is a stream to receive it on, which for a
server the callback itself opens. -/
theorem onMessageBegin_ready (side : Side) (session : Session)
    (pending : side = .client → session.streams ≠ []) :
    ∃ begun stream, onMessageBegin side session = ⟨0, collecting begun {} [], []⟩ ∧
      activeStream side begun.streams = some stream := by
  cases side with
  | server =>
    exact ⟨(onMessageBegin .server session).session, { id := session.nextStreamId }, rfl,
      List.getLast?_concat⟩
  | client =>
    obtain ⟨stream, rest, streams⟩ := List.exists_cons_of_ne_nil (pending rfl)
    refine ⟨(onMessageBegin .client session).session,
      { stream with flags := { stream.flags with hasBody := false, intermediateResponse := false } },
      ?_, ?_⟩ <;>
    simp [onMessageBegin, activeStream, streams, collecting, setActiveStream]

/-- Once the head is complete its lines are handed over, and the session collects the next
section. It asks for a body only on a stream that has one. -/
theorem onHeadersComplete_collecting (side : Side) (handler : Callbacks) (session : Session)
    (stream : Stream) (active : activeStream side session.streams = some stream)
    (context : ParserContext) (lines : List (Bytes × Bytes)) (parser : Parser)
    (listensRequest : handler.onRequest = true) (listensResponse : handler.onResponse = true) :
    let result := onHeadersComplete side handler (collecting session context lines) parser
    handedHeaders result.events = [lines] ∧
      ∃ emptied received, result.session = collecting result.session emptied [] ∧
        activeStream side result.session.streams = some received ∧
        (result.code = 0 → received.flags.hasBody = true) := by
  obtain ⟨version, made⟩ :=
    Option.isSome_iff_exists.mp (makeVersion_isSome parser.httpMajor parser.httpMinor)
  cases side with
  | server =>
    simp only [onHeadersComplete, withContext, collecting, active, made, onRequestHead]
    refine ⟨?_, { context with path := [] }, _, rfl, activeStream_setActiveStream _ _ _, ?_⟩
    · simp [raise, listensRequest, handedHeaders, takeHeaders_lines]
    · cases parser.upgrade <;> cases requestHasBody parser <;> simp
  | client =>
    simp only [onHeadersComplete, withContext, collecting, active, made, onResponseHead]
    refine ⟨?_, { context with statusString := [] }, _, rfl, activeStream_setActiveStream _ _ _, ?_⟩
    · simp [raise, listensResponse, handedHeaders, takeHeaders_lines]
    · cases responseHasBody parser <;> split <;> simp

/-- The chunks of a body leave the collected lines alone. -/
theorem feed_chunks (side : Side) (handler : Callbacks) (session : Session) (stream : Stream)
    (active : activeStream side session.streams = some stream) (context : ParserContext)
    (lines : List (Bytes × Bytes)) (chunks : List Bytes) :
    ∃ events next received,
      feed side handler (collecting session context lines) (chunks.map .body) =
        ⟨0, collecting next context lines, events⟩ ∧
      handedHeaders events = [] ∧ activeStream side next.streams = some received ∧
      received.flags.hasBody = stream.flags.hasBody := by
  induction chunks generalizing session stream with
  | nil => exact ⟨[], session, stream, rfl, rfl, active, rfl⟩
  | cons chunk rest inductionHypothesis =>
    let started := { stream with flags := { stream.flags with bodyDataStarted := true } }
    let opened := { session with streams := setActiveStream side session.streams started }
    obtain ⟨events, next, received, fed, nothing, still, body⟩ :=
      inductionHypothesis opened started (activeStream_setActiveStream _ _ _)
    have stepped : onCallback side handler (collecting session context lines) (.body chunk) =
        ⟨0, collecting opened context lines, raise handler.onBody (.body stream.id chunk)⟩ := by
      simp only [onCallback, onBody, collecting, active, opened, started]
    refine ⟨raise handler.onBody (.body stream.id chunk) ++ events, next, received, ?_, ?_, still,
      body⟩
    · rw [List.map_cons, feed_cons _ _ _ _ _ _ _ stepped, fed]
      rfl
    · unfold raise
      split <;> simpa [handedHeaders] using nothing

/-- At the end of a message with a body the collected lines are handed over as its trailer. -/
theorem onMessageComplete_collecting (side : Side) (handler : Callbacks) (session : Session)
    (stream : Stream) (active : activeStream side session.streams = some stream)
    (body : stream.flags.hasBody = true) (context : ParserContext) (lines : List (Bytes × Bytes))
    (nonempty : lines ≠ []) (listensTrailer : handler.onTrailerHeaders = true) :
    handedHeaders (onMessageComplete side handler (collecting session context lines)).events =
      [lines] := by
  simp only [onMessageComplete, collecting, active, finishBody, body, if_true, listensTrailer,
    nonempty, ne_eq, not_false_eq_true, and_self, raise]
  split <;> split <;> simp [handedHeaders, takeHeaders_lines]

theorem joinLine_ne_nil (lines : List (Bytes × Bytes)) (line : Bytes × Bytes) :
    joinLine lines line ≠ [] := by
  obtain ⟨front, glued, shape⟩ := joinLine_shape lines
  rw [shape line.1 line.2]
  simp

theorem foldl_joinLine_ne_nil (lines added : List (Bytes × Bytes)) (nonempty : added ≠ []) :
    added.foldl joinLine lines ≠ [] := by
  obtain ⟨front, line, rfl⟩ := List.eq_nil_or_concat added |>.resolve_left nonempty
  rw [List.concat_eq_append, List.foldl_append]
  exact joinLine_ne_nil _ _

/-- Glued from nothing, a section of lines is unchanged exactly when its inner values are
filled. -/
theorem foldl_joinLine_nil_iff (lines : List (Bytes × Bytes)) :
    lines.foldl joinLine [] = lines ↔ InnerValuesFilled lines := by
  by_cases empty : lines = []
  · subst empty
    simp [InnerValuesFilled]
  · simpa using foldl_joinLine_eq_append_iff [] lines empty

/-- Everything up to the end of the head, in one piece: `on_headers_complete` meets the glued
lines. -/
theorem feed_head (side : Side) (handler : Callbacks) (session : Session) (pieces : List Bytes)
    (cuts : List HeaderCut) (parser : Parser)
    (pending : side = .client → session.streams ≠ []) :
    ∃ begun stream filled, activeStream side begun.streams = some stream ∧
      feed side handler session (headCallbacks side pieces cuts parser) =
        onHeadersComplete side handler
          (collecting begun filled ((cuts.map HeaderCut.header).foldl joinLine [])) parser := by
  obtain ⟨begun, stream, began, active⟩ := onMessageBegin_ready side session pending
  obtain ⟨filled, started⟩ := feed_startLine side handler begun stream active {} pieces
  refine ⟨begun, stream, filled, active, ?_⟩
  rw [headCallbacks, feed_cons side handler session _ .messageBegin _ _ began, List.append_assoc,
    feed_append _ _ _ _ _ _ _ started,
    feed_append _ _ _ _ _ _ _ (feed_cuts side handler begun filled stream active _ _),
    feed_singleton]
  rfl

/-- The header list handed over with the head of a message, and the one handed over with its
trailer section if it has a body, are the lines that were sent, for every way the parser cuts
them, exactly when every line of the section but the last has a value. -/
theorem handedHeaders_eq_iff (side : Side) (handler : Callbacks) (session : Session)
    (pieces : List Bytes) (cuts : List HeaderCut) (parser : Parser) (chunks : List Bytes)
    (trailer : List HeaderCut) (pending : side = .client → session.streams ≠ [])
    (listensRequest : handler.onRequest = true) (listensResponse : handler.onResponse = true)
    (listensTrailer : handler.onTrailerHeaders = true) :
    let head := feed side handler session (headCallbacks side pieces cuts parser)
    (handedHeaders head.events = [cuts.map HeaderCut.header] ↔
      InnerValuesFilled (cuts.map HeaderCut.header)) ∧
    (head.code = 0 → trailer ≠ [] →
      (handedHeaders (feed side handler head.session (tailCallbacks chunks trailer)).events =
          [trailer.map HeaderCut.header] ↔
        InnerValuesFilled (trailer.map HeaderCut.header))) := by
  obtain ⟨begun, stream, filled, active, fed⟩ :=
    feed_head side handler session pieces cuts parser pending
  obtain ⟨handed, emptied, received, next, stillActive, body⟩ :=
    onHeadersComplete_collecting side handler begun stream active filled
      ((cuts.map HeaderCut.header).foldl joinLine []) parser listensRequest listensResponse
  simp only [fed]
  refine ⟨?_, fun proceeds nonempty => ?_⟩
  · rw [handed, List.singleton_inj, foldl_joinLine_nil_iff]
  · obtain ⟨events, last, finished, bodyFed, nothing, lastActive, lastBody⟩ :=
      feed_chunks side handler _ received stillActive emptied [] chunks
    have trailerLines : trailer.map HeaderCut.header ≠ [] := by simpa using nonempty
    rw [next, tailCallbacks, List.append_assoc, feed_append _ _ _ _ _ _ _ bodyFed,
      feed_append _ _ _ _ _ _ _ (feed_cuts side handler last emptied finished lastActive _ _),
      feed_singleton]
    have completed := onMessageComplete_collecting side handler last finished lastActive
      (lastBody.trans (body proceeds)) emptied _ (foldl_joinLine_ne_nil [] _ trailerLines)
      listensTrailer
    simp only [CallbackResult.after, onCallback, List.nil_append]
    rw [handedHeaders, List.filterMap_append]
    simp only [handedHeaders] at nothing completed
    rw [nothing, completed, List.nil_append, List.singleton_inj, foldl_joinLine_nil_iff]

/-- A request with an empty value before another line: `A:` and then `B: x`. -/
def gluedCuts : List HeaderCut :=
  [⟨[ascii "A"], [], by simp⟩, ⟨[ascii "B"], [ascii "x"], by simp⟩]

theorem gluedCuts_notHanded :
    handedHeaders
        (feed .server {} {} (headCallbacks .server [ascii "/"] gluedCuts {})).events ≠
      [gluedCuts.map HeaderCut.header] := by
  decide

/-- Two lines, each in three pieces: the header section and the trailer section of a chunked
request. -/
def wholeCuts : List HeaderCut :=
  [⟨[ascii "A", ascii "B"], [ascii "x"], by simp⟩, ⟨[ascii "C"], [ascii "y", ascii "z"], by simp⟩]

theorem wholeCuts_handed :
    let lines := [(ascii "AB", ascii "x"), (ascii "C", ascii "yz")]
    let head := feed .server {} {}
      (headCallbacks .server [ascii "/"] wholeCuts { flagChunked := true })
    head.code = 0 ∧ handedHeaders head.events = [lines] ∧
      handedHeaders
          (feed .server {} head.session (tailCallbacks [ascii "data"] wholeCuts)).events =
        [lines] :=
  have received := handedHeaders_eq_iff .server {} {} [ascii "/"] wholeCuts { flagChunked := true }
    [ascii "data"] wholeCuts (by simp) rfl rfl rfl
  ⟨by decide, received.1.mpr (by decide),
    (received.2 (by decide) (by simp [wholeCuts])).mpr (by decide)⟩

end NativeLibs.Http1
