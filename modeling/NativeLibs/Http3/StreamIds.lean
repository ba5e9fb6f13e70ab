/-
This file follows the id of a stream through an HTTP/3 session. A QUIC stream id
has 62 bits, and the conversions between `int64_t` and `uint64_t` that most
functions make do not change it. Two functions take a detour over 32 bits: the
parameter of `close_stream` is an `uint32_t`, and `submit_trailer_impl` casts the
id to `int32_t`. An id survives everything exactly when it fits the narrower one.
-/

import NativeLibs.Http3.Callbacks

namespace NativeLibs.Http3

open Http

variable {endpoint : Endpoint}

/-! ### Conversions -/

theorem toInt_toInt64 {streamId : UInt64} (small : streamId.toNat < 2 ^ 63) :
    streamId.toInt64.toInt = streamId.toNat := by
  show streamId.toBitVec.toInt = _
  rw [BitVec.toInt_eq_toNat_of_lt, UInt64.toNat_toBitVec]
  rw [UInt64.toNat_toBitVec]
  omega

/-- `int32_t(stream_id)` is the id exactly when it has 31 bits. -/
theorem toInt_toInt32_eq_iff (streamId : UInt64) :
    streamId.toUInt32.toInt32.toInt64.toInt = streamId.toNat ↔ streamId.toNat < 2 ^ 31 := by
  rw [Int32.toInt_toInt64]
  show (BitVec.setWidth 32 streamId.toBitVec).toInt = _ ↔ _
  rw [BitVec.toInt_eq_toNat_cond, BitVec.toNat_setWidth, UInt64.toNat_toBitVec]
  split
  · omega
  · omega

/-- `uint32_t(stream_id)` is the id as long as it has 32 bits. -/
theorem toUInt64_toUInt32 {streamId : UInt64} (small : streamId.toNat < 2 ^ 32) :
    streamId.toUInt32.toUInt64 = streamId := by
  rw [← UInt64.toNat_inj, UInt32.toNat_toUInt64, UInt64.toNat_toUInt32]
  exact Nat.mod_eq_of_lt small

/-! ### The ids that are passed on -/

/-- The stream id a callback of the handler is given. -/
def Event.streamId? : Event endpoint → Option ℤ
  | .message streamId _ => some streamId.toNat
  | .trailerHeaders streamId _ => some streamId.toNat
  | .body streamId _ => some streamId.toNat
  | .streamReadFinished streamId => some streamId.toNat
  | .streamClosed streamId _ => some streamId.toNat
  | .dataSent streamId _ => some streamId.toNat
  | .close _ => none
  | .output _ => none

/-- The stream id a library is given. -/
def LibraryCall.streamId? : LibraryCall → Option ℤ
  | .submitTrailers streamId _ => some streamId.toInt
  | .submitResponse streamId _ _ => some streamId.toInt
  | .resumeStream streamId => some streamId.toInt
  | .shutdownStream streamId _ => some streamId.toInt
  | .shutdownStreamRead streamId _ => some streamId.toInt
  | .shutdownStreamWrite streamId _ => some streamId.toInt
  | .extendMaxOffset _ => none
  | .extendMaxStreamOffset streamId _ => some streamId.toInt
  | .shutdown => none

/-- The stream id that is passed on, as a number. -/
def Effect.streamId? : Effect endpoint → Option ℤ
  | .raised event => event.streamId?
  | .called call => call.streamId?

/-- Whatever is passed on and names a stream names this one. -/
def Names (streamId : UInt64) (effects : List (Effect endpoint)) : Prop :=
  ∀ effect ∈ effects, ∀ id, effect.streamId? = some id → id = streamId.toNat

namespace Names

variable {streamId : UInt64}

theorem nil : Names streamId ([] : List (Effect endpoint)) :=
  fun _ member => absurd member List.not_mem_nil

theorem cons {effect : Effect endpoint} {rest : List (Effect endpoint)}
    (first : ∀ id, effect.streamId? = some id → id = streamId.toNat)
    (others : Names streamId rest) : Names streamId (effect :: rest) :=
  List.forall_mem_cons.mpr ⟨first, others⟩

theorem raise (handler : Handler) {event : Event endpoint}
    (same : event.streamId? = some (streamId.toNat : ℤ)) :
    Names streamId (Http3.raise handler event) := by
  rw [Http3.raise]
  split
  · refine cons (fun id named => ?_) nil
    exact Option.some.inj (named.symm.trans same)
  · exact nil

theorem call {call : LibraryCall} {rest : List (Effect endpoint)}
    (small : streamId.toNat < 2 ^ 62)
    (same : call.streamId? = some streamId.toInt64.toInt) (others : Names streamId rest) :
    Names streamId (.called call :: rest) := by
  refine cons (fun id named => ?_) others
  rw [← toInt_toInt64 (by omega)]
  exact Option.some.inj (named.symm.trans same)

end Names

/-! ### Everything that is done for a stream -/

/-- The callbacks of nghttp3 and the calls of the application for one stream, and the destructor.
What they are given besides the id is kept, and so is what the libraries return to them. -/
inductive Operation where
  | beginHeaders
  | recvHeader (name value : Bytes)
  | endHeaders (fin : Bool)
  | beginTrailers
  | recvTrailer (name value : Bytes)
  | endTrailers
  | recvData (data : Bytes)
  | endStream
  | streamClose (errorCode : UInt64)
  | stopSending (appErrorCode : UInt64) (status : ℤ)
  | resetByPeer (appErrorCode : UInt64) (status : ℤ)
  | readData (vecNum : ℕ)
  | ackedStreamData (origLen : ℕ)
  | deferredConsume (consumed : ℕ) (status : ℤ)
  | submitBody (chunk : Bytes) (eof : Bool) (status : ℤ)
  | submitTrailer (headers : Headers) (submitStatus resumeStatus : ℤ)
  | submitResponse (response : Response) (eof : Bool) (submitStatus resumeStatus : ℤ)
  | resetStream (errorCode status : ℤ)
  | consumeStream (length : ℕ) (status : ℤ)
  | destroy

/-- Only a server submits responses. -/
def submitResponseOf : {endpoint : Endpoint} → Session endpoint → UInt64 → Response → Bool → ℤ → ℤ →
    Option (Session endpoint × List (Effect endpoint))
  | .server, session, streamId, response, eof, submitStatus, resumeStatus =>
    some (submitResponse session streamId response eof submitStatus resumeStatus).2
  | .client, _, _, _, _, _, _ => none

/-- What is done and passed on for a stream. nghttp3 has the id as an `int64_t`. -/
def Operation.perform (handler : Handler) (session : Session endpoint) (streamId : UInt64) :
    Operation → Option (Session endpoint × List (Effect endpoint))
  | .beginHeaders => some ((onBeginHeaders session streamId.toInt64.toUInt64).2, [])
  | .recvHeader name value =>
    some ((onRecvHeader session streamId.toInt64.toUInt64 name value).2, [])
  | .endHeaders fin => (onEndHeaders handler session streamId.toInt64 fin).map Prod.snd
  | .beginTrailers => some ((onBeginTrailers session streamId.toInt64).2, [])
  | .recvTrailer name value => some ((onRecvTrailer session streamId.toInt64 name value).2, [])
  | .endTrailers => (onEndTrailers handler session streamId.toInt64).map Prod.snd
  | .recvData data => some (session, (onDataChunkRecv handler session streamId.toInt64 data).2)
  | .endStream => some (session, onEndStream handler streamId.toInt64)
  | .streamClose errorCode =>
    some (onH3StreamClose handler session streamId.toInt64 errorCode).2
  | .stopSending appErrorCode status =>
    some (session, (onH3StopSending streamId.toInt64 appErrorCode status).2)
  | .resetByPeer appErrorCode status =>
    some (session, (onH3ResetStream streamId.toInt64 appErrorCode status).2)
  | .readData vecNum =>
    (onReadData session streamId.toInt64.toUInt64 vecNum).map fun outcome => (outcome.2, [])
  | .ackedStreamData origLen =>
    (Http3.ackedStreamData handler session streamId.toInt64 origLen).map Prod.snd
  | .deferredConsume consumed status =>
    some (session, (onDeferredConsume streamId.toInt64 consumed status).2)
  | .submitBody chunk eof status =>
    some ((submitBodyImpl session streamId chunk eof status).2, submitBodyCalls session streamId)
  | .submitTrailer headers submitStatus resumeStatus =>
    some (submitTrailerImpl session streamId headers submitStatus resumeStatus).2
  | .submitResponse response eof submitStatus resumeStatus =>
    submitResponseOf session streamId response eof submitStatus resumeStatus
  | .resetStream errorCode status => some (session, (resetStreamImpl streamId errorCode status).2)
  | .consumeStream length status => some (session, (consumeStreamImpl streamId length status).2)
  | .destroy => some (⟨∅⟩, cancelStream handler streamId)

/-! ### Each of them -/

section

variable {session : Session endpoint} {streamId : UInt64} {stream : Stream endpoint}

theorem names_onEndHeaders (handler : Handler) (fin : Bool)
    {outcome : CallbackStatus × Session endpoint × List (Effect endpoint)}
    (performed : onEndHeaders handler session streamId.toInt64 fin = some outcome) :
    Names streamId outcome.2.2 := by
  rw [onEndHeaders, UInt64.toUInt64_toInt64] at performed
  split at performed
  · cases performed
    exact .nil
  · obtain ⟨message, -, rest⟩ := Option.bind_eq_some_iff.mp performed
    cases rest
    exact .raise handler rfl

theorem names_onEndTrailers (handler : Handler)
    {outcome : CallbackStatus × Session endpoint × List (Effect endpoint)}
    (performed : onEndTrailers handler session streamId.toInt64 = some outcome) :
    Names streamId outcome.2.2 := by
  rw [onEndTrailers, UInt64.toUInt64_toInt64] at performed
  split at performed
  · cases performed
    exact .nil
  · obtain ⟨message, -, rest⟩ := Option.bind_eq_some_iff.mp performed
    cases rest
    exact .raise handler rfl

theorem names_onDataChunkRecv (handler : Handler) (session : Session endpoint) (streamId : UInt64)
    (data : Bytes) : Names streamId (onDataChunkRecv handler session streamId.toInt64 data).2 := by
  rw [onDataChunkRecv, UInt64.toUInt64_toInt64]
  split
  · exact .nil
  · exact .raise handler rfl

theorem names_ackedStreamData (handler : Handler) (origLen : ℕ)
    {outcome : CallbackStatus × Session endpoint × List (Effect endpoint)}
    (performed : ackedStreamData handler session streamId.toInt64 origLen = some outcome) :
    Names streamId outcome.2.2 := by
  rw [ackedStreamData, UInt64.toUInt64_toInt64] at performed
  obtain ⟨result, -, rfl⟩ := Option.map_eq_some_iff.mp performed
  intro effect member
  obtain ⟨n, -, raised⟩ := List.mem_flatMap.mp member
  exact Names.raise handler rfl effect raised

theorem names_closeStream (handler : Handler) (errorCode : ℤ) (small : streamId.toNat < 2 ^ 32) :
    Names streamId (closeStream handler streamId.toUInt32 errorCode : List (Effect endpoint)) := by
  rw [closeStream, toUInt64_toUInt32 small]
  exact .raise handler rfl

theorem names_onH3StreamClose (handler : Handler) (session : Session endpoint)
    (errorCode : UInt64) (small : streamId.toNat < 2 ^ 32) :
    Names streamId (onH3StreamClose handler session streamId.toInt64 errorCode).2.2 := by
  rw [onH3StreamClose, UInt64.toUInt64_toInt64]
  split
  · exact .nil
  · exact names_closeStream handler _ small

theorem names_submitBodyCalls (session : Session endpoint) (small : streamId.toNat < 2 ^ 62) :
    Names streamId (submitBodyCalls session streamId) := by
  rw [submitBodyCalls]
  split
  · exact .nil
  · exact .call small rfl .nil

theorem names_submitTrailerImpl (session : Session endpoint) (headers : Headers)
    (submitStatus resumeStatus : ℤ) (small : streamId.toNat < 2 ^ 31) :
    Names streamId
      (submitTrailerImpl session streamId headers submitStatus resumeStatus).2.2 := by
  have submitted : ∀ id, LibraryCall.streamId?
      (.submitTrailers streamId.toUInt32.toInt32.toInt64 headers) = some id → id = streamId.toNat :=
    fun id named => (Option.some.inj named).symm.trans ((toInt_toInt32_eq_iff streamId).mpr small)
  rw [submitTrailerImpl]
  split
  · exact .nil
  · split
    · exact .cons submitted .nil
    · split
      · exact .cons submitted (.call (by omega) rfl .nil)
      · exact .cons submitted (.call (by omega) rfl .nil)

theorem names_submitResponse (session : Session .server) (response : Response) (eof : Bool)
    (submitStatus resumeStatus : ℤ) (small : streamId.toNat < 2 ^ 62) :
    Names streamId
      (submitResponse session streamId response eof submitStatus resumeStatus).2.2 := by
  rw [submitResponse]
  split
  · exact .nil
  · split
    · exact .call small rfl .nil
    · split
      · exact .call small rfl (.call small rfl .nil)
      · exact .call small rfl (.call small rfl .nil)

theorem names_submitResponseOf {endpoint : Endpoint} (session : Session endpoint)
    (response : Response) (eof : Bool) (submitStatus resumeStatus : ℤ)
    (small : streamId.toNat < 2 ^ 62) {outcome : Session endpoint × List (Effect endpoint)}
    (performed : submitResponseOf session streamId response eof submitStatus resumeStatus =
      some outcome) :
    Names streamId outcome.2 := by
  cases endpoint with
  | server =>
    cases performed
    exact names_submitResponse session response eof submitStatus resumeStatus small
  | client => cases performed

theorem names_consumeStreamImpl (length : ℕ) (status : ℤ) (small : streamId.toNat < 2 ^ 62) :
    Names streamId (consumeStreamImpl streamId length status : _ × List (Effect endpoint)).2 :=
  .cons (fun _ impossible => nomatch impossible) (.call small rfl .nil)

end

/-- An id of 31 bits survives every operation. -/
theorem names_perform (handler : Handler) (session : Session endpoint) {streamId : UInt64}
    (small : streamId.toNat < 2 ^ 31) (operation : Operation)
    {outcome : Session endpoint × List (Effect endpoint)}
    (performed : operation.perform handler session streamId = some outcome) :
    Names streamId outcome.2 := by
  have varint : streamId.toNat < 2 ^ 62 := by omega
  have word : streamId.toNat < 2 ^ 32 := by omega
  cases operation with
  | beginHeaders | recvHeader name value | beginTrailers | recvTrailer name value =>
    cases performed
    exact .nil
  | endHeaders fin =>
    obtain ⟨result, ended, rfl⟩ := Option.map_eq_some_iff.mp performed
    exact names_onEndHeaders handler fin ended
  | endTrailers =>
    obtain ⟨result, ended, rfl⟩ := Option.map_eq_some_iff.mp performed
    exact names_onEndTrailers handler ended
  | recvData data =>
    cases performed
    exact names_onDataChunkRecv handler session streamId data
  | endStream =>
    cases performed
    exact .raise handler (by rw [UInt64.toUInt64_toInt64]; rfl)
  | streamClose errorCode =>
    cases performed
    exact names_onH3StreamClose handler session errorCode word
  | stopSending appErrorCode status | resetByPeer appErrorCode status =>
    cases performed
    exact .call varint rfl .nil
  | readData vecNum =>
    obtain ⟨result, -, rfl⟩ := Option.map_eq_some_iff.mp performed
    exact .nil
  | ackedStreamData origLen =>
    obtain ⟨result, acknowledged, rfl⟩ := Option.map_eq_some_iff.mp performed
    exact names_ackedStreamData handler origLen acknowledged
  | deferredConsume consumed status =>
    cases performed
    rw [onDeferredConsume, UInt64.toUInt64_toInt64]
    exact names_consumeStreamImpl consumed status varint
  | submitBody chunk eof status =>
    cases performed
    exact names_submitBodyCalls session varint
  | submitTrailer headers submitStatus resumeStatus =>
    cases performed
    exact names_submitTrailerImpl session headers submitStatus resumeStatus small
  | submitResponse response eof submitStatus resumeStatus =>
    exact names_submitResponseOf session response eof submitStatus resumeStatus varint performed
  | resetStream errorCode status =>
    cases performed
    exact .call varint rfl .nil
  | consumeStream length status =>
    cases performed
    exact names_consumeStreamImpl length status varint
  | destroy =>
    cases performed
    exact names_closeStream handler requestCancelled word

/-- For every handler and session and every id among its streams: everything that is raised or
called for the stream carries exactly this id if and only if the id has 31 bits. -/
theorem streamId_unaltered_iff (handler : Handler) (session : Session endpoint)
    (streamId : UInt64) (present : streamId ∈ session.streams) :
    (∀ (operation : Operation) (next : Session endpoint)
      (effects : List (Effect endpoint)),
      operation.perform handler session streamId = some (next, effects) →
        ∀ effect ∈ effects, ∀ id, effect.streamId? = some id → id = streamId.toNat) ↔
      streamId.toNat < 2 ^ 31 := by
  constructor
  · intro unaltered
    obtain ⟨stream, found⟩ := Option.isSome_iff_exists.mp (AList.lookup_isSome.mpr present)
    have submitted := unaltered (.submitTrailer {} 1 0) session
      [.called (.submitTrailers streamId.toUInt32.toInt32.toInt64 {})]
      (by simp only [Operation.perform, submitTrailerImpl, found]; rfl)
    exact (toInt_toInt32_eq_iff streamId).mp (submitted _ List.mem_cons_self _ rfl)
  · intro small operation next effects performed
    exact names_perform handler session small operation performed

/-- A server with a stream. -/
def serverWith (streamId : UInt64) : Session .server := ⟨AList.insert streamId {} ∅⟩

/-- The largest id that survives. -/
theorem streamId_unaltered_iff_largest :
    Names 2147483647
      (submitTrailerImpl (serverWith 2147483647) 2147483647 {} 0 0).2.2 :=
  (streamId_unaltered_iff everyCallback (serverWith 2147483647) 2147483647
    ((AList.mem_insert _).mpr (.inl rfl))).mpr (by decide) (.submitTrailer {} 0 0) _ _ rfl

/-- The trailers of the stream 2147483648 are submitted for another number, and the end of the
stream 4294967296 is reported for the stream 0. -/
theorem largeStreamIds_altered :
    (∃ next rest, (Operation.submitTrailer {} 0 0).perform everyCallback (serverWith 2147483648)
      2147483648 = some (next, .called (.submitTrailers (-2147483648) {}) :: rest)) ∧
    (∃ next, (Operation.streamClose 0).perform everyCallback (serverWith 4294967296) 4294967296 =
      some (next, [.raised (.streamClosed 0 0)])) ∧
    ∃ next, Operation.destroy.perform everyCallback (serverWith 4294967296) 4294967296 =
      some (next, [.raised (.streamClosed 0 requestCancelled)]) :=
  ⟨⟨_, _, rfl⟩, ⟨_, rfl⟩, ⟨_, rfl⟩⟩

end NativeLibs.Http3
