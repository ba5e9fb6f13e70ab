/-
This file proves that a request survives HTTP/2 and HTTP/3. The client hands the
headers its iterator yields to nghttp2 or nghttp3, which are taken to carry them
unchanged, and the header callback of the server sorts them into a new message.
The two are separate code: the callback is the inverse of the iterator because
the names of the pseudo-headers tell them apart from each other and from the
headers, and because an empty field is one the new message has already.
-/

import NativeLibs.Http.RequestIterator
import NativeLibs.Http2.Session
import NativeLibs.Http3.Session
import NativeLibs.Library.Runs

namespace NativeLibs.Http

open Library

/-! ### Sorting headers into a message -/

/-- The name is that of a pseudo-header. -/
def startsWithColon (name : Bytes) : Prop := name.head? = some 58

/-- What the header callback makes of the headers it receives one after another. -/
def Request.receiveAll (request : Request) (headers : List Header) : Request :=
  headers.foldl (fun received header => received.receive header.name header.value) request

theorem receiveAll_append (request : Request) (first second : List Header) :
    request.receiveAll (first ++ second) = (request.receiveAll first).receiveAll second :=
  List.foldl_append

theorem receiveAll_pseudoHeader (request : Request) (name value : Bytes) :
    request.receiveAll (pseudoHeader name value) =
      if value = [] then request else request.receive name value := by
  by_cases empty : value = []
  · simp [Request.receiveAll, pseudoHeader, empty]
  · simp [Request.receiveAll, pseudoHeader, empty]

theorem receive_of_plain (request : Request) {name : Bytes} (plain : ¬startsWithColon name)
    (value : Bytes) :
    request.receive name value = { request with headers := request.headers.put name value } := by
  have differs : ∀ pseudo : Bytes, startsWithColon pseudo → name ≠ pseudo :=
    fun pseudo colon same => plain (same ▸ colon)
  unfold Request.receive
  rw [if_neg (differs pseudoHeaderNameMethod rfl), if_neg (differs pseudoHeaderNameScheme rfl),
    if_neg (differs pseudoHeaderNameAuthority rfl), if_neg (differs pseudoHeaderNamePath rfl)]

theorem receiveAll_plain (request : Request) (fields : List Header)
    (plain : ∀ field ∈ fields, ¬startsWithColon field.name) :
    request.receiveAll fields =
      { request with headers := { request.headers with
          fields := request.headers.fields ++ fields } } := by
  induction fields generalizing request with
  | nil => simp [Request.receiveAll]
  | cons field rest inductionHypothesis =>
    have first := receive_of_plain request (plain field List.mem_cons_self) field.value
    have later := inductionHypothesis (request.receive field.name field.value)
      fun other member => plain other (List.mem_cons_of_mem _ member)
    show (request.receive field.name field.value).receiveAll rest = _
    rw [later, first]
    simp [Headers.put]

theorem receiveAll_pseudoHeaders (request : Request) (version : Version) :
    ({ version } : Request).receiveAll request.pseudoHeaders =
      { version
        method := request.method
        scheme := request.scheme
        path := request.path
        authority := request.authority } := by
  have method : ({ version } : Request).receiveAll
      (pseudoHeader pseudoHeaderNameMethod request.method) =
      { version, method := request.method } := by
    rw [receiveAll_pseudoHeader]
    split
    · rename_i empty
      rw [empty]
    · rfl
  have scheme : ({ version, method := request.method } : Request).receiveAll
      (pseudoHeader pseudoHeaderNameScheme request.scheme) =
      { version, method := request.method, scheme := request.scheme } := by
    rw [receiveAll_pseudoHeader]
    split
    · rename_i empty
      rw [empty]
    · rfl
  have path : ({ version, method := request.method, scheme := request.scheme } :
      Request).receiveAll (pseudoHeader pseudoHeaderNamePath request.path) =
      { version, method := request.method, scheme := request.scheme, path := request.path } := by
    rw [receiveAll_pseudoHeader]
    split
    · rename_i empty
      rw [empty]
    · rfl
  rw [Request.pseudoHeaders, receiveAll_append, method, receiveAll_append, scheme,
    receiveAll_append, path, receiveAll_pseudoHeader]
  split
  · rename_i empty
    rw [empty]
  · rfl

/-- The parts of a request that are transferred. -/
structure Request.Same (left right : Request) : Prop where
  method : left.method = right.method
  scheme : left.scheme = right.scheme
  path : left.path = right.path
  authority : left.authority = right.authority
  headers : left.headers.fields = right.headers.fields

theorem receiveAll_same (request : Request) (version : Version)
    (plain : ∀ field ∈ request.headers.fields, ¬startsWithColon field.name) :
    (({ version } : Request).receiveAll
      (request.pseudoHeaders ++ request.headers.fields)).Same request := by
  rw [receiveAll_append, receiveAll_pseudoHeaders, receiveAll_plain _ _ plain]
  exact ⟨rfl, rfl, rfl, rfl, rfl⟩

theorem startsWithColon_of_mem_pseudoHeaders {request : Request} {header : Header}
    (member : header ∈ request.pseudoHeaders) : startsWithColon header.name := by
  have named : ∀ name value : Bytes, startsWithColon name → header ∈ pseudoHeader name value →
      startsWithColon header.name := by
    intro name value colon member
    unfold pseudoHeader at member
    split at member
    · rw [List.mem_singleton.mp member]
      exact colon
    · cases member
  simp only [Request.pseudoHeaders, List.mem_append] at member
  rcases member with method | scheme | path | authority
  · exact named pseudoHeaderNameMethod _ rfl method
  · exact named pseudoHeaderNameScheme _ rfl scheme
  · exact named pseudoHeaderNamePath _ rfl path
  · exact named pseudoHeaderNameAuthority _ rfl authority

/-! ### The callbacks of the servers -/

/-- A header is fed to `on_header` of an HTTP/2 server, which accepts it. -/
def feedHttp2 (streamId : UInt32) (session : Http2.Session .server) (header : Header) :
    Option (Http2.Session .server) :=
  match Http2.onHeader session streamId header.name header.value with
  | (.ok, next) => some next
  | _ => none

/-- A header is fed to `on_recv_header` of an HTTP/3 server, which accepts it. -/
def feedHttp3 (streamId : UInt64) (session : Http3.Session .server) (header : Header) :
    Option (Http3.Session .server) :=
  match Http3.onRecvHeader session streamId header.name header.value with
  | (.ok, next) => some next
  | _ => none

/-- If every header is received, a run receives them all. -/
theorem run_receives {State : Type*} {feed : State → Header → Option State}
    {holds : State → Request → Prop}
    (feeds : ∀ state message header, holds state message →
      ∃ next, feed state header = some next ∧
        holds next (message.receive header.name header.value))
    (headers : List Header) {state : State} {message : Request} (start : holds state message) :
    ∃ final, run feed state headers = some final ∧ holds final (message.receiveAll headers) := by
  induction headers generalizing state message with
  | nil => exact ⟨state, rfl, start⟩
  | cons header rest inductionHypothesis =>
    obtain ⟨next, fed, received⟩ := feeds state message header start
    rw [run, fed, Option.bind_some]
    exact inductionHypothesis received

theorem feedHttp2_receives (streamId : UInt32) (stream : Http2.Stream .server)
    (session : Http2.Session .server) (message : Request) (header : Header)
    (found : session.streams.lookup streamId = some { stream with message := some message }) :
    ∃ next, feedHttp2 streamId session header = some next ∧
      next.streams.lookup streamId =
        some { stream with message := some (message.receive header.name header.value) } := by
  refine ⟨session.setStream streamId
    { stream with message := some (message.receive header.name header.value) }, ?_,
    Http2.Session.lookup_setStream _ _ _⟩
  simp only [feedHttp2, Http2.onHeader, found]
  rfl

theorem feedHttp3_receives (streamId : UInt64) (stream : Http3.Stream .server)
    (session : Http3.Session .server) (message : Request) (header : Header)
    (found : session.streams.lookup streamId = some { stream with message := some message }) :
    ∃ next, feedHttp3 streamId session header = some next ∧
      next.streams.lookup streamId =
        some { stream with message := some (message.receive header.name header.value) } := by
  refine ⟨session.setStream streamId
    { stream with message := some (message.receive header.name header.value) }, ?_,
    Http3.Session.lookup_setStream _ _ _⟩
  simp only [feedHttp3, Http3.onRecvHeader, found]
  rfl

/-- For every request whose header names do not start with a colon: iterating over it ends, the
pseudo-headers come before the headers, and a server of either protocol that is fed what was yielded
accepts every header and has the same request in its new message. -/
theorem request_survives (request : Request)
    (plain : ∀ field ∈ request.headers.fields, ¬startsWithColon field.name) :
    ∃ first last, request.beginIterator = some first ∧ Request.endIterator = some last ∧
      (∀ header ∈ request.pseudoHeaders, startsWithColon header.name) ∧
      (∀ rounds, (request.pseudoHeaders ++ request.headers.fields).length < rounds →
        RequestIterator.iteration.collect last rounds first =
          some (request.pseudoHeaders ++ request.headers.fields)) ∧
      (∀ (session : Http2.Session .server) (streamId : UInt32) (stream : Http2.Stream .server),
        session.streams.lookup streamId = some stream →
        stream.message = some (Message.make .server http20) →
        ∃ final received,
          run (feedHttp2 streamId) session (request.pseudoHeaders ++ request.headers.fields) =
            some final ∧
          final.streams.lookup streamId = some { stream with message := some received } ∧
          Request.Same received request) ∧
      (∀ (session : Http3.Session .server) (streamId : UInt64) (stream : Http3.Stream .server),
        session.streams.lookup streamId = some stream →
        stream.message = some (Message.make .server http30) →
        ∃ final received,
          run (feedHttp3 streamId) session (request.pseudoHeaders ++ request.headers.fields) =
            some final ∧
          final.streams.lookup streamId = some { stream with message := some received } ∧
          Request.Same received request) := by
  obtain ⟨first, last, begins, ends, collected⟩ := RequestIterator.collect_request request
  refine ⟨first, last, begins, ends,
    fun header member => startsWithColon_of_mem_pseudoHeaders member, collected, ?_, ?_⟩
  · intro session streamId stream found pending
    have start : session.streams.lookup streamId =
        some { stream with message := some (Message.make .server http20) } := by
      rw [found, ← pending]
    obtain ⟨final, ran, reached⟩ := run_receives (feedHttp2_receives streamId stream)
      (request.pseudoHeaders ++ request.headers.fields) start
    exact ⟨final, _, ran, reached, receiveAll_same request http20 plain⟩
  · intro session streamId stream found pending
    have start : session.streams.lookup streamId =
        some { stream with message := some (Message.make .server http30) } := by
      rw [found, ← pending]
    obtain ⟨final, ran, reached⟩ := run_receives (feedHttp3_receives streamId stream)
      (request.pseudoHeaders ++ request.headers.fields) start
    exact ⟨final, _, ran, reached, receiveAll_same request http30 plain⟩

/-- A request without a scheme, with a header. -/
def sampleRequest : Request :=
  { method := ascii "GET", path := ascii "/", headers := ⟨[⟨ascii "a", ascii "b"⟩], false⟩ }

/-- It arrives at an HTTP/2 server that has begun to receive headers on a stream. -/
theorem request_survives_sample :
    ∃ first last yielded final received,
      sampleRequest.beginIterator = some first ∧ Request.endIterator = some last ∧
      RequestIterator.iteration.collect last (yielded.length + 1) first = some yielded ∧
      run (feedHttp2 1) (Http2.onBeginHeaders ⟨∅⟩ 1).2 yielded = some final ∧
      final.streams.lookup 1 = some { message := some received } ∧
      Request.Same received sampleRequest := by
  obtain ⟨first, last, begins, ends, -, collected, survives, -⟩ :=
    request_survives sampleRequest (by
      intro field member
      rw [List.mem_singleton.mp member]
      exact fun impossible => nomatch impossible)
  obtain ⟨final, received, ran, reached, same⟩ := survives (Http2.onBeginHeaders ⟨∅⟩ 1).2 1
    { message := some (Message.make .server http20) } rfl rfl
  exact ⟨first, last, _, final, received, begins, ends, collected _ (Nat.lt_succ_self _), ran,
    reached, same⟩

end NativeLibs.Http
