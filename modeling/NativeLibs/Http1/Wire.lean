/-
This file is about the bytes a chunked message puts on the wire after its head.
The output of the body calls is read back with the reference decoder of the
chunked transfer coding.

Body calls with an end produce one body with one last chunk. A trailer call after
an explicit empty chunk produces the trailer section of that body. Without the
explicit chunk it writes the last chunk itself and then an empty line, which ends
the body before the trailer.
-/

import NativeLibs.Http.HeadText
import NativeLibs.Http1.ContentLength

namespace NativeLibs.Http1

open Http Library Library.Chunked

/-! ### Chunks as frames -/

/-- The bytes a list of events hands to the output handler. -/
def written (events : List Event) : Bytes :=
  events.flatMap fun event => match event with
    | .output chunk => chunk
    | _ => []

@[simp] theorem written_nil : written [] = [] := rfl

@[simp] theorem written_append (first second : List Event) :
    written (first ++ second) = written first ++ written second := List.flatMap_append

@[simp] theorem written_output (chunk : Bytes) : written [.output chunk] = chunk :=
  List.append_nil chunk

@[simp] theorem written_finished (isSet : Bool) (streamId : UInt64) :
    written (raise isSet (.streamFinished streamId)) = [] := by
  cases isSet with
  | false => rfl
  | true => rfl

theorem written_outputs (handler : Callbacks) (chunks : List Bytes) :
    written (outputs handler chunks) = if handler.onOutput then chunks.flatten else [] := by
  unfold outputs
  split
  · rw [written, List.flatMap_map, List.flatten_eq_flatMap]
    rfl
  · rfl

theorem outputs_nil (handler : Callbacks) : outputs handler [] = [] := by
  unfold outputs
  split
  · rfl
  · rfl

theorem outputs_append (handler : Callbacks) (first second : List Bytes) :
    outputs handler (first ++ second) = outputs handler first ++ outputs handler second := by
  unfold outputs
  split
  · exact List.map_append
  · rfl

/-- The digits of the decoder are those of `std::from_chars`. -/
theorem hexDigit_eq_digitValue (byte : UInt8) : hexDigit byte = digitValue 16 byte := by
  revert byte
  exact forall_byte (by decide +kernel)

theorem hexValue_eq_digitsValue (digits : Bytes) : hexValue digits = digitsValue 16 digits := by
  unfold hexValue digitsValue
  congr 1
  funext value digit
  rw [hexDigit_eq_digitValue]

theorem sizeLine_digits (size : Nat) : ∀ byte ∈ formatNat 16 size, (hexDigit byte).isSome := by
  intro byte member
  rw [hexDigit_eq_digitValue]
  exact formatNat_digits 16 size (by decide) (by decide) byte member

theorem sizeLine_value (size : Nat) : hexValue (formatNat 16 size) = size := by
  rw [hexValue_eq_digitsValue, digitsValue_formatNat 16 size (by decide) (by decide)]

/-- A chunk that is not the last one. -/
abbrev NonemptyChunk := { chunk : Bytes // chunk ≠ [] }

/-- A chunk with the size line the session prints for it. -/
def chunkFrame (chunk : NonemptyChunk) : Frame where
  line := formatNat 16 chunk.1.length
  data := chunk.1
  digits := ⟨formatNat_ne_nil 16 _, sizeLine_digits _⟩
  announces := sizeLine_value _
  nonempty := chunk.2

/-- The three pieces in which a chunk is written. -/
def chunkPieces (chunk : Bytes) : List Bytes := [chunkHeader chunk, chunk, crlf]

theorem flatten_chunkPieces (chunks : List NonemptyChunk) :
    (chunks.flatMap fun chunk => chunkPieces chunk.1).flatten =
      (chunks.map chunkFrame).flatMap Frame.bytes := by
  induction chunks with
  | nil => rfl
  | cons chunk rest inductionHypothesis =>
    rw [List.flatMap_cons, List.flatten_append, inductionHypothesis, List.map_cons,
      List.flatMap_cons]
    congr 1
    simp [chunkPieces, chunkHeader, Frame.bytes, chunkFrame, lineEnd, crlf]

/-! ### Body calls on the only stream -/

/-- The mark `ZERO_CHUNK_SENT` of a stream. -/
def Stream.withLastChunk (stream : Stream) (sent : Bool) : Stream :=
  { stream with flags := { stream.flags with zeroChunkSent := sent } }

/-- The stream is the only one of the session, and its message is chunked. -/
structure OnlyChunked (session : Session) (stream : Stream) : Prop where
  alone : session.streams = [stream]
  chunked : stream.contentLength = .chunked

theorem OnlyChunked.active {session : Session} {stream : Stream}
    (only : OnlyChunked session stream) (side : Side) :
    activeStream side session.streams = some stream := by
  rw [only.alone]
  cases side with
  | server => rfl
  | client => rfl

theorem setActiveStream_singleton (side : Side) (stream written : Stream) :
    setActiveStream side [stream] written = [written] := by
  cases side with
  | server => rfl
  | client => rfl

section

variable (side : Side) (handler : Callbacks)

/-- A body call without `eof` on the only stream. -/
theorem sendNext_only {sent : BodyRun} {stream : Stream} (only : OnlyChunked sent.session stream)
    (chunk : Bytes) :
    sendNext side handler stream.id.toUInt64 sent (chunk, false) =
      { session := { sent.session with streams := [stream.withLastChunk (chunk = [])] }
        events := sent.events ++ outputs handler
          ([chunkHeader chunk] ++ if chunk = [] then [] else [chunk, crlf])
        bytes := sent.bytes + chunk.length } := by
  rw [sendNext_active side handler _ sent chunk false stream (only.active side) rfl]
  simp [settle, completesBody, writtenStream, bodyOutput, only.chunked, only.alone,
    setActiveStream_singleton, Stream.withLastChunk]

/-- Calls with these chunks, none of them with `eof`. -/
def chunkCalls (chunks : List NonemptyChunk) : List (Bytes × Bool) :=
  chunks.map fun chunk => (chunk.1, false)

theorem sendChunks_only (chunks : List NonemptyChunk) (sent : BodyRun) {stream : Stream}
    (only : OnlyChunked sent.session stream) :
    let final := (chunkCalls chunks).foldl (sendNext side handler stream.id.toUInt64) sent
    OnlyChunked final.session
        (stream.withLastChunk (chunks.isEmpty && stream.flags.zeroChunkSent)) ∧
      final.events =
        sent.events ++ outputs handler (chunks.flatMap fun chunk => chunkPieces chunk.1) := by
  induction chunks generalizing sent stream with
  | nil =>
    refine ⟨only, ?_⟩
    rw [List.flatMap_nil, outputs_nil, List.append_nil]
    rfl
  | cons chunk rest inductionHypothesis =>
    have first := sendNext_only side handler only chunk.1
    rw [if_neg chunk.2, decide_eq_false chunk.2] at first
    have marked : OnlyChunked (sendNext side handler stream.id.toUInt64 sent (chunk.1, false)).session
        (stream.withLastChunk false) := by
      rw [first]
      exact ⟨rfl, only.chunked⟩
    obtain ⟨later, events⟩ := inductionHypothesis _ marked
    refine ⟨?_, ?_⟩
    · -- the first chunk clears the mark, so nothing of the old one is left
      have cleared : (rest.isEmpty && (stream.withLastChunk false).flags.zeroChunkSent) = false :=
        Bool.and_false _
      rw [cleared] at later
      exact later
    · have pieces : [chunkHeader chunk.1] ++ [chunk.1, crlf] = chunkPieces chunk.1 := rfl
      rw [pieces] at first
      refine events.trans ?_
      rw [first, List.flatMap_cons, outputs_append, List.append_assoc]

theorem written_chunks (writes : handler.onOutput = true) (chunks : List NonemptyChunk) :
    written (outputs handler (chunks.flatMap fun chunk => chunkPieces chunk.1)) =
      (chunks.map chunkFrame).flatMap Frame.bytes := by
  rw [written_outputs, if_pos writes, flatten_chunkPieces]

/-- The size line of the last chunk is read as zero. -/
theorem decode_chunks (chunks : List NonemptyChunk) {lines : List Bytes}
    (clean : ∀ line ∈ lines, CleanLine line) (filled : ∀ line ∈ lines, line ≠ [])
    (rest : Bytes) :
    decode ((chunks.map chunkFrame).flatMap Frame.bytes ++
        (chunkHeader [] ++ (trailerBytes lines ++ rest))) =
      some ⟨chunks.map Subtype.val ++ [[]], lines, rest⟩ := by
  have decoded := decode_frames (chunks.map chunkFrame) (formatNat_ne_nil 16 0) (sizeLine_digits 0)
    (sizeLine_value 0) clean filled rest
  rw [List.map_map] at decoded
  rw [chunkHeader, List.append_assoc]
  exact decoded

end

/-! ### A body with its end -/

/-- The output is one chunked body that decodes to these bytes, with one last chunk, no trailer
section and nothing behind it. -/
def CarriesBody (output data : Bytes) : Prop :=
  ∃ body, decode output = some body ∧ body.chunks.flatten = data ∧ body.chunks.count [] = 1 ∧
    body.trailer = [] ∧ body.rest = []

/-- A last chunk that has bytes is a chunk before the empty one. -/
def lastChunks (last : Bytes) : List NonemptyChunk :=
  if filled : last ≠ [] then [⟨last, filled⟩] else []

theorem flatten_lastChunks (last : Bytes) : ((lastChunks last).map Subtype.val).flatten = last := by
  unfold lastChunks
  split
  · exact List.append_nil last
  · rename_i empty
    exact (not_not.mp empty).symm

theorem flatten_bodyOutput_last (stream : Stream) (chunked : stream.contentLength = .chunked)
    (last : Bytes) :
    (bodyOutput stream last true).flatten =
      ((lastChunks last).map chunkFrame).flatMap Frame.bytes ++ (chunkHeader [] ++ crlf) := by
  rw [← flatten_chunkPieces, bodyOutput, if_pos chunked, lastChunks]
  by_cases empty : last = []
  · simp [empty]
  · simp [empty, chunkPieces]

section

variable (handler : Callbacks)

/-- A body call with `eof` on the only stream, up to what finishing it does. -/
theorem sendNext_last (side : Side) {sent : BodyRun} {stream : Stream}
    (only : OnlyChunked sent.session stream) (last : Bytes) :
    sendNext side handler stream.id.toUInt64 sent (last, true) =
      let marked := stream.withLastChunk (last = [] || handler.onOutput)
      let finished := finishSending side handler { sent.session with streams := [marked] }
        stream.id.toUInt64 marked
      { session := finished.1
        events := sent.events ++ (outputs handler (bodyOutput stream last true) ++ finished.2)
        bytes := sent.bytes + last.length } := by
  rw [sendNext_active side handler _ sent last true stream (only.active side) rfl]
  simp [settle, completesBody, writtenStream, only.chunked, only.alone,
    setActiveStream_singleton, Stream.withLastChunk]

/-- The calls of a whole body, the last of them with `eof`. -/
def bodyCalls (chunks : List NonemptyChunk) (last : Bytes) : List (Bytes × Bool) :=
  chunkCalls chunks ++ [(last, true)]

theorem take_bodyCalls_of_le (chunks : List NonemptyChunk) (last : Bytes) {count : Nat}
    (before : count ≤ chunks.length) :
    (bodyCalls chunks last).take count = chunkCalls (chunks.take count) := by
  rw [bodyCalls, List.take_append_of_le_length (by rwa [chunkCalls, List.length_map]), chunkCalls,
    chunkCalls, List.map_take]

theorem take_bodyCalls_of_lt (chunks : List NonemptyChunk) (last : Bytes) {count : Nat}
    (beyond : chunks.length < count) :
    (bodyCalls chunks last).take count = bodyCalls chunks last := by
  refine List.take_of_length_le ?_
  rw [bodyCalls, List.length_append, chunkCalls, List.length_map]
  exact beyond

theorem written_finishSending (side : Side) (session : Session) (streamId : UInt64)
    (stream : Stream) : written (finishSending side handler session streamId stream).2 = [] := by
  cases side with
  | server => exact written_finished _ _
  | client => rfl

theorem count_nil_chunks (chunks : List NonemptyChunk) :
    (chunks.map Subtype.val ++ [[]]).count [] = 1 := by
  have none : [] ∉ chunks.map Subtype.val := by
    intro member
    obtain ⟨chunk, -, empty⟩ := List.mem_map.mp member
    exact chunk.2 empty
  rw [List.count_append, List.count_eq_zero_of_not_mem none]
  rfl

/-- The whole body on the wire. -/
theorem bodyCalls_carry (side : Side) (writes : handler.onOutput = true)
    (chunks : List NonemptyChunk) (last : Bytes) {session : Session} {stream : Stream}
    (only : OnlyChunked session stream) :
    CarriesBody
      (written ((bodyCalls chunks last).foldl (sendNext side handler stream.id.toUInt64)
        { session }).events)
      ((chunks.map Subtype.val).flatten ++ last) := by
  obtain ⟨still, events⟩ := sendChunks_only side handler chunks { session } only
  have finish := congrArg BodyRun.events (sendNext_last handler side still last)
  have output : written ((bodyCalls chunks last).foldl
        (sendNext side handler stream.id.toUInt64) { session }).events =
      ((chunks ++ lastChunks last).map chunkFrame).flatMap Frame.bytes ++
        (chunkHeader [] ++ (trailerBytes [] ++ [])) := by
    rw [bodyCalls, List.foldl_append]
    refine (congrArg written finish).trans ?_
    rw [events, List.nil_append, written_append, written_append, written_finishSending,
      List.append_nil, written_chunks handler writes, written_outputs, if_pos writes,
      flatten_bodyOutput_last _ still.chunked, List.map_append, List.flatMap_append,
      List.append_assoc]
    rfl
  rw [output]
  refine ⟨_, decode_chunks (chunks ++ lastChunks last) (List.forall_mem_nil _)
    (List.forall_mem_nil _) [], ?_, count_nil_chunks _, rfl, rfl⟩
  rw [List.flatten_append, List.map_append, List.flatten_append, flatten_lastChunks]
  exact List.append_nil _

/-- Before the last call the stream is in the queue as it was, up to its mark. -/
theorem bodyCalls_pending (side : Side) (chunks : List NonemptyChunk) (last : Bytes)
    {session : Session} {stream : Stream} (only : OnlyChunked session stream) {count : Nat}
    (before : count ≤ chunks.length) :
    ∃ mark, (((bodyCalls chunks last).take count).foldl (sendNext side handler stream.id.toUInt64)
      { session }).session.streams = [stream.withLastChunk mark] := by
  rw [take_bodyCalls_of_le chunks last before]
  exact ⟨_, (sendChunks_only side handler (chunks.take count) { session } only).1.alone⟩

/-- A server has sent the message exactly from the last call on. -/
theorem bodyCalls_serverSent (chunks : List NonemptyChunk) (last : Bytes) {session : Session}
    {stream : Stream} (only : OnlyChunked session stream) (count : Nat) :
    ServerSent handler stream.id.toUInt64
        (((bodyCalls chunks last).take count).foldl
          (sendNext .server handler stream.id.toUInt64) { session }) ↔
      chunks.length < count := by
  rcases le_or_gt count chunks.length with before | beyond
  · obtain ⟨mark, streams⟩ := bodyCalls_pending handler .server chunks last only before
    refine iff_of_false (fun sent => ?_) (not_lt.mpr before)
    cases streams.symm.trans sent.1
  · refine iff_of_true ?_ beyond
    obtain ⟨still, events⟩ := sendChunks_only .server handler chunks { session } only
    have finish := sendNext_last handler .server still last
    rw [take_bodyCalls_of_lt chunks last beyond, bodyCalls, List.foldl_append]
    refine ⟨congrArg (fun sent => sent.session.streams) finish, ?_⟩
    refine (congrArg (fun sent => finishedIds sent.events) finish).trans ?_
    simp only [events, finishSending, finishedIds_append, finishedIds_outputs,
      finishedIds_raise_finished, List.nil_append]
    rfl

/-- A client has sent the message from the last call on, or from the start if it was marked. -/
theorem bodyCalls_clientSent (chunks : List NonemptyChunk) (last : Bytes) {session : Session}
    {stream : Stream} (only : OnlyChunked session stream) (count : Nat) :
    ClientSent 0 (((bodyCalls chunks last).take count).foldl
          (sendNext .client handler stream.id.toUInt64) { session }) ↔
      chunks.length < count ∨ stream.flags.reqSent = true := by
  rcases le_or_gt count chunks.length with before | beyond
  · obtain ⟨mark, streams⟩ := bodyCalls_pending handler .client chunks last only before
    rw [clientSent_front _ _ _ streams, or_iff_right (not_lt.mpr before)]
    rfl
  · refine iff_of_true ?_ (Or.inl beyond)
    obtain ⟨still, -⟩ := sendChunks_only .client handler chunks { session } only
    have finish := sendNext_last handler .client still last
    rw [take_bodyCalls_of_lt chunks last beyond, bodyCalls, List.foldl_append]
    exact (clientSent_front _ _ _ (congrArg (fun sent => sent.session.streams) finish)).mpr rfl

end

/-- The head of a chunked request on an empty queue leaves one chunked stream, which counts as
sent if the method is `HEAD`. -/
theorem sendRequest_only (handler : Callbacks) {session : Session} (empty : session.streams = [])
    (request : Request)
    (chunked : iequals (request.headers.gets (ascii "Transfer-Encoding")) (ascii "chunked") = true) :
    OnlyChunked (sendRequest handler session request).2.1
      { id := (sendRequest handler session request).1
        flags := { reqSent := request.method = ascii "HEAD" }
        contentLength := .chunked } := by
  have length : requestContentLength request.headers = .chunked := if_pos chunked
  refine ⟨?_, rfl⟩
  simp [sendRequest, empty, length]

/-- For every list of chunks that have bytes and every last chunk, with an output handler: the
calls write one chunked body with the bytes of all chunks, one last chunk, no trailer section and
nothing behind it. A server counts the message as sent exactly from the last call on; so does a
client, except that a `HEAD` request counts as sent from its head on. -/
theorem chunkedBody_onWire (handler : Callbacks) (writes : handler.onOutput = true)
    (chunks : List NonemptyChunk) (last : Bytes) :
    (∀ session stream, OnlyChunked session stream →
      let sent := fun count => ((bodyCalls chunks last).take count).foldl
        (sendNext .server handler stream.id.toUInt64) { session }
      CarriesBody (written (sent (chunks.length + 1)).events)
          ((chunks.map Subtype.val).flatten ++ last) ∧
        ∀ count, ServerSent handler stream.id.toUInt64 (sent count) ↔ chunks.length < count) ∧
    ∀ (session : Session) (request : Request), session.streams = [] →
      iequals (request.headers.gets (ascii "Transfer-Encoding")) (ascii "chunked") = true →
      let head := sendRequest handler session request
      let sent := fun count => ((bodyCalls chunks last).take count).foldl
        (sendNext .client handler head.1.toUInt64) { session := head.2.1 }
      CarriesBody (written (sent (chunks.length + 1)).events)
          ((chunks.map Subtype.val).flatten ++ last) ∧
        ∀ count, ClientSent 0 (sent count) ↔
          chunks.length < count ∨ request.method = ascii "HEAD" := by
  have whole : (bodyCalls chunks last).take (chunks.length + 1) = bodyCalls chunks last :=
    take_bodyCalls_of_lt chunks last (Nat.lt_succ_self _)
  constructor
  · intro session stream only
    refine ⟨?_, bodyCalls_serverSent handler chunks last only⟩
    dsimp only
    rw [whole]
    exact bodyCalls_carry handler .server writes chunks last only
  · intro session request empty chunked
    have only := sendRequest_only handler empty request chunked
    refine ⟨?_, fun count => (bodyCalls_clientSent handler chunks last only count).trans ?_⟩
    · have carried := bodyCalls_carry handler .client writes chunks last only
      dsimp only at carried ⊢
      rw [whole]
      exact carried
    · dsimp only
      rw [decide_eq_true_iff]

/-- One chunk, and a last one that has bytes. -/
theorem chunkedBody_onWire_twoChunks :
    ({} : Callbacks).onOutput = true ∧
      CarriesBody
        (written (((bodyCalls [⟨ascii "ab", by decide⟩] (ascii "c")).take 2).foldl
          (sendNext .server {} 1)
          { session := { streams := [{ id := 1, contentLength := .chunked }] } }).events)
        (ascii "abc") :=
  ⟨rfl, ((chunkedBody_onWire {} rfl [⟨ascii "ab", by decide⟩] (ascii "c")).1 _
    { id := 1, contentLength := .chunked } ⟨rfl, rfl⟩).1⟩

/-- A `HEAD` request that announces a chunked body. -/
def chunkedHeadRequest : Request :=
  { method := ascii "HEAD"
    path := ascii "/"
    headers := { fields := [⟨ascii "Transfer-Encoding", ascii "chunked"⟩] } }

/-- The request counts as sent before any body call. -/
theorem headRequest_countsAsSent :
    let head := sendRequest {} {} chunkedHeadRequest
    OnlyChunked head.2.1
        { id := head.1, flags := { reqSent := true }, contentLength := .chunked } ∧
      ¬∀ count, ClientSent 0 (((bodyCalls [] (ascii "x")).take count).foldl
        (sendNext .client {} head.1.toUInt64) { session := head.2.1 }) ↔ 0 < count := by
  refine ⟨⟨rfl, rfl⟩, fun exactly => ?_⟩
  have marked : ClientSent 0 { session := (sendRequest {} {} chunkedHeadRequest).2.1 } := by
    unfold ClientSent
    decide
  exact absurd ((exactly 0).mp marked) (lt_irrefl 0)

/-! ### A body with a trailer -/

/-- The calls of a chunked message that ends with a trailer: its chunks, the empty chunk if it is
sent explicitly, and the trailer. -/
def sendWithTrailer (side : Side) (handler : Callbacks) (session : Session) (streamId : UInt32)
    (chunks : List NonemptyChunk) (explicit : Bool) (headers : Headers) : SendResult :=
  let sent := (chunkCalls chunks ++ if explicit then [([], false)] else []).foldl
    (sendNext side handler streamId.toUInt64) { session }
  let trailer := sendTrailerImpl side handler sent.session streamId headers true
  ⟨trailer.status, trailer.session, sent.events ++ trailer.events⟩

/-- The output is one chunked body that decodes to these chunks with these fields as its trailer
section, and nothing follows it. Fields whose names and values a field line can hold are read
back. -/
def CarriesTrailer (output : Bytes) (chunks : List NonemptyChunk) (headers : Headers) : Prop :=
  ∃ body, decode output = some body ∧ body.chunks.flatten = (chunks.map Subtype.val).flatten ∧
    body.trailer = headers.fields.map Headers.fieldStr ∧ body.rest = [] ∧
    ((∀ field ∈ headers.fields, PlainField field.name field.value) →
      body.trailer.map fieldOf = headers.fields.map fun field => some (field.name, field.value))

/-- Names and values without line ends. -/
def CleanFields (headers : Headers) : Prop :=
  ∀ field ∈ headers.fields, CleanLine field.name ∧ CleanLine field.value

theorem cleanLine_fieldStr {headers : Headers} (clean : CleanFields headers) :
    ∀ line ∈ headers.fields.map Headers.fieldStr, CleanLine line := by
  intro line member
  obtain ⟨field, fieldMember, rfl⟩ := List.mem_map.mp member
  obtain ⟨name, value⟩ := clean field fieldMember
  have colon : CleanLine (ascii ": ") := by decide
  exact cleanLine_append (cleanLine_append name colon) value

theorem fieldStr_ne_nil (headers : Headers) :
    ∀ line ∈ headers.fields.map Headers.fieldStr, line ≠ [] := by
  intro line member
  obtain ⟨field, -, rfl⟩ := List.mem_map.mp member
  simp [Headers.fieldStr, ascii]

theorem map_fieldOf_fieldStr {headers : Headers}
    (plain : ∀ field ∈ headers.fields, PlainField field.name field.value) :
    (headers.fields.map Headers.fieldStr).map fieldOf =
      headers.fields.map fun field => some (field.name, field.value) := by
  rw [List.map_map]
  refine List.map_congr_left fun field member => ?_
  rw [Function.comp_apply, Headers.fieldStr, List.append_assoc]
  exact fieldOf_plain (plain field member)

section

variable (side : Side) (handler : Callbacks)

/-- A trailer call with `eof` for the only stream. -/
theorem sendTrailerImpl_only (writes : handler.onOutput = true) {session : Session}
    {stream : Stream} (only : OnlyChunked session stream) (headers : Headers) :
    sendTrailerImpl side handler session stream.id headers true =
      ⟨.ok, { session with streams := [] },
        outputs handler ((if stream.flags.zeroChunkSent then [] else [chunkHeader [], crlf]) ++
          [headers.str, crlf]) ++
          raise handler.onStreamFinished (.streamFinished stream.id.toUInt64)⟩ := by
  have active : activeStream side [stream.markLastChunk] = some stream.markLastChunk := by
    cases side with
    | server => rfl
    | client => rfl
  have body := sendBodyImpl_active side handler
    { session with streams := [stream.markLastChunk] } stream.id.toUInt64 [] false
    stream.markLastChunk active rfl
  cases mark : stream.flags.zeroChunkSent with
  | true => simp [sendTrailerImpl, only.alone, writes, mark, finishTrailer, outputs]
  | false =>
    simp [sendTrailerImpl, only.alone, writes, mark, sendLastChunk, body, settle, completesBody,
      only.chunked, setActiveStream_singleton, finishTrailer, bodyOutput, outputs]

theorem sendTrailerImpl_unwritten (silent : handler.onOutput = false) {session : Session}
    {stream : Stream} (only : OnlyChunked session stream) (headers : Headers) :
    (sendTrailerImpl side handler session stream.id headers true).events = [] := by
  simp [sendTrailerImpl, only.alone, silent]

theorem sendExplicit_only (chunks : List NonemptyChunk) (explicit : Bool) {session : Session}
    {stream : Stream} (only : OnlyChunked session stream) :
    let sent := (chunkCalls chunks ++ if explicit then [([], false)] else []).foldl
      (sendNext side handler stream.id.toUInt64) { session }
    OnlyChunked sent.session (stream.withLastChunk
        (explicit || chunks.isEmpty && stream.flags.zeroChunkSent)) ∧
      sent.events = outputs handler ((chunks.flatMap fun chunk => chunkPieces chunk.1) ++
        if explicit then [chunkHeader []] else []) := by
  obtain ⟨still, events⟩ := sendChunks_only side handler chunks { session } only
  rw [List.foldl_append]
  cases explicit with
  | false =>
    refine ⟨still, events.trans ?_⟩
    rw [if_neg Bool.false_ne_true, List.append_nil]
    rfl
  | true =>
    have empty := sendNext_only side handler still []
    refine ⟨?_, ?_⟩
    · rw [if_pos rfl, List.foldl_cons, List.foldl_nil]
      refine ⟨congrArg (fun sent => sent.session.streams) empty, only.chunked⟩
    · rw [if_pos rfl, if_pos rfl, List.foldl_cons, List.foldl_nil, outputs_append]
      refine (congrArg BodyRun.events empty).trans ?_
      rw [events]
      rfl

/-- The whole output of a message with a trailer. -/
theorem written_sendWithTrailer (writes : handler.onOutput = true) (chunks : List NonemptyChunk)
    (explicit : Bool) {session : Session} {stream : Stream} (only : OnlyChunked session stream)
    {headers : Headers} (nonempty : headers.fields ≠ []) :
    (sendWithTrailer side handler session stream.id chunks explicit headers).status = .ok ∧
    written (sendWithTrailer side handler session stream.id chunks explicit headers).events =
      (chunks.map chunkFrame).flatMap Frame.bytes ++
        ((if explicit then chunkHeader []
          else if chunks.isEmpty && stream.flags.zeroChunkSent then []
          else chunkHeader [] ++ trailerBytes []) ++
        trailerBytes (headers.fields.map Headers.fieldStr)) := by
  obtain ⟨still, events⟩ := sendExplicit_only side handler chunks explicit only
  have trailer := sendTrailerImpl_only side handler writes still headers
  refine ⟨congrArg SendResult.status trailer, ?_⟩
  have output := congrArg (fun result => written result.events) trailer
  dsimp only at output
  rw [written_append, written_finished, List.append_nil, written_outputs, if_pos writes] at output
  rw [← headers_str_trailerBytes nonempty, sendWithTrailer, written_append, events, outputs_append,
    written_append, written_chunks handler writes, written_outputs, if_pos writes,
    List.append_assoc]
  refine congrArg (_ ++ ·) ((congrArg (_ ++ ·) output).trans ?_)
  cases explicit with
  | true => simp [Stream.withLastChunk]
  | false =>
    cases mark : chunks.isEmpty && stream.flags.zeroChunkSent with
    | true => simp [Stream.withLastChunk]
    | false => simp [Stream.withLastChunk, trailerBytes, crlf, lineEnd]

/-- Without an output handler there is no output to read. -/
theorem sendWithTrailer_silent (silent : handler.onOutput = false) (chunks : List NonemptyChunk)
    (explicit : Bool) {session : Session} {stream : Stream} (only : OnlyChunked session stream)
    (headers : Headers) :
    written (sendWithTrailer side handler session stream.id chunks explicit headers).events =
      [] := by
  obtain ⟨still, events⟩ := sendExplicit_only side handler chunks explicit only
  have nothing := sendTrailerImpl_unwritten side handler silent still headers
  refine (written_append _ _).trans ?_
  rw [events, written_outputs, silent, if_neg Bool.false_ne_true, List.nil_append]
  exact congrArg written nothing

theorem carriesTrailer_of_sections (chunks : List NonemptyChunk) {headers : Headers}
    (clean : CleanFields headers) :
    CarriesTrailer ((chunks.map chunkFrame).flatMap Frame.bytes ++ (chunkHeader [] ++
      trailerBytes (headers.fields.map Headers.fieldStr))) chunks headers := by
  have decoded := decode_chunks chunks (cleanLine_fieldStr clean) (fieldStr_ne_nil headers) []
  rw [List.append_nil] at decoded
  refine ⟨_, decoded, ?_, rfl, rfl, map_fieldOf_fieldStr⟩
  rw [List.flatten_append]
  exact List.append_nil _

theorem not_carriesTrailer_of_emptyLine (chunks : List NonemptyChunk) {headers : Headers}
    (nonempty : headers.fields ≠ []) (rest : Bytes) :
    ¬CarriesTrailer ((chunks.map chunkFrame).flatMap Frame.bytes ++
      (chunkHeader [] ++ (trailerBytes [] ++ rest))) chunks headers := by
  intro ⟨body, decoded, _, trailer, _⟩
  rw [decode_chunks chunks (List.forall_mem_nil _) (List.forall_mem_nil _)] at decoded
  rw [← Option.some.inj decoded] at trailer
  exact nonempty (List.map_eq_nil_iff.mp trailer.symm)

theorem not_carriesTrailer_of_trailer (chunks : List NonemptyChunk) (headers : Headers) :
    ¬CarriesTrailer (trailerBytes (headers.fields.map Headers.fieldStr)) chunks headers := by
  intro ⟨body, decoded, _, trailer, _⟩
  have shorter := length_decodeFrom decoded
  rw [trailer] at shorter
  omega

/-- For every chunked message on the only stream of either side, every list of chunks that have
bytes and every trailer with clean fields: the output after the head is one chunked body with these
chunks and this trailer section, and nothing behind it, if and only if there is an output handler
and the empty chunk was sent explicitly. -/
theorem trailer_onWire_iff {session : Session} {stream : Stream}
    (only : OnlyChunked session stream) (chunks : List NonemptyChunk) (explicit : Bool)
    (headers : Headers) (nonempty : headers.fields ≠ []) (clean : CleanFields headers) :
    let result := sendWithTrailer side handler session stream.id chunks explicit headers
    result.status = .ok ∧ CarriesTrailer (written result.events) chunks headers ↔
      handler.onOutput = true ∧ explicit = true := by
  intro result
  cases writes : handler.onOutput with
  | false =>
    have nothing : written result.events = [] :=
      sendWithTrailer_silent side handler writes chunks explicit only headers
    refine iff_of_false (fun ⟨_, body, decoded, _⟩ => ?_) fun ⟨set, _⟩ => Bool.false_ne_true set
    rw [nothing] at decoded
    cases decoded
  | true =>
    obtain ⟨ok, output⟩ := written_sendWithTrailer side handler writes chunks explicit only nonempty
    rw [output]
    cases explicit with
    | true => exact iff_of_true ⟨ok, carriesTrailer_of_sections chunks clean⟩ ⟨rfl, rfl⟩
    | false =>
      refine iff_of_false (fun ⟨_, carried⟩ => ?_) fun ⟨_, sent⟩ => Bool.false_ne_true sent
      rw [if_neg Bool.false_ne_true] at carried
      cases mark : chunks.isEmpty && stream.flags.zeroChunkSent with
      | true =>
        -- an old mark on the stream: the trailer call takes the last chunk for sent
        obtain ⟨none, -⟩ := Bool.and_eq_true_iff.mp mark
        rw [mark, if_pos rfl, List.isEmpty_iff.mp none] at carried
        exact not_carriesTrailer_of_trailer [] headers carried
      | false =>
        rw [mark, if_neg Bool.false_ne_true, List.append_assoc] at carried
        exact not_carriesTrailer_of_emptyLine chunks nonempty _ carried

end

/-- A server that has sent the head of a chunked response to its only request. -/
def answeredSession : Session :=
  (sendResponse {} { nextStreamId := 2, streams := [{ id := 1 }] } 1
    { headers := { fields := [⟨ascii "Transfer-Encoding", ascii "chunked"⟩] } }).session

theorem answeredSession_only :
    OnlyChunked answeredSession { id := 1, contentLength := .chunked } :=
  ⟨rfl, rfl⟩

/-- A trailer with one field. -/
def checksumTrailer : Headers := { fields := [⟨ascii "X-Sum", ascii "7"⟩] }

theorem checksumTrailer_clean : checksumTrailer.fields ≠ [] ∧ CleanFields checksumTrailer := by
  refine ⟨List.cons_ne_nil _ _, fun field member => ?_⟩
  rw [List.mem_singleton.mp member]
  decide +kernel

/-- The empty chunk is sent before the trailer. -/
theorem trailer_onWire_iff_explicit :
    CarriesTrailer
      (written (sendWithTrailer .server {} answeredSession 1 [⟨ascii "ab", by decide⟩] true
        checksumTrailer).events)
      [⟨ascii "ab", by decide⟩] checksumTrailer :=
  ((trailer_onWire_iff .server {} answeredSession_only [⟨ascii "ab", by decide⟩] true
    checksumTrailer checksumTrailer_clean.1 checksumTrailer_clean.2).mpr ⟨rfl, rfl⟩).2

/-- The trailer call writes the last chunk itself, and the trailer stands behind the body. -/
theorem implicitLastChunk_losesTrailer :
    decode (written (sendWithTrailer .server {} answeredSession 1 [⟨ascii "ab", by decide⟩] false
        checksumTrailer).events) =
      some ⟨[ascii "ab", []], [], ascii "X-Sum: 7\r\n\r\n"⟩ ∧
    ¬CarriesTrailer
      (written (sendWithTrailer .server {} answeredSession 1 [⟨ascii "ab", by decide⟩] false
        checksumTrailer).events)
      [⟨ascii "ab", by decide⟩] checksumTrailer := by
  have decoded : decode (written (sendWithTrailer .server {} answeredSession 1
        [⟨ascii "ab", by decide⟩] false checksumTrailer).events) =
      some ⟨[ascii "ab", []], [], ascii "X-Sum: 7\r\n\r\n"⟩ := rfl
  refine ⟨decoded, ?_⟩
  intro ⟨body, found, _, trailer, _⟩
  rw [← Option.some.inj (decoded.symm.trans found)] at trailer
  cases trailer

end NativeLibs.Http1
