/-
This file is about a message whose head announces its length: when do the
sending functions count it as completely sent? The head functions test whether
the length could be read and store the answer to that question in its place, so
the stream waits for one byte, or for none if the number did not fit. The
account is right exactly for the messages where that makes no difference.
-/

import NativeLibs.Http1.SendEffects
import NativeLibs.Library.Switch

namespace NativeLibs.Http1

open Http Library

/-! ### A sequence of body calls -/

/-- Body calls made one after another: the session after them, what they raised, and how many
body bytes were taken. -/
structure BodyRun where
  session : Session
  events : List Event := []
  bytes : Nat := 0

/-- The next body call, with its chunk and its `eof`. A refused call takes no bytes. -/
def sendNext (side : Side) (handler : Callbacks) (streamId : UInt64) (sent : BodyRun)
    (call : Bytes × Bool) : BodyRun :=
  let result := sendBodyImpl side handler sent.session streamId call.1 call.2
  { session := result.session
    events := sent.events ++ result.events
    bytes := sent.bytes + if result.status = .ok then call.1.length else 0 }

/-- A server counts the message as sent: the stream is gone and was reported. -/
def ServerSent (handler : Callbacks) (streamId : UInt64) (sent : BodyRun) : Prop :=
  sent.session.streams = [] ∧ finishedIds sent.events = reports handler [streamId]

/-- A client counts the message as sent: the stream at this place of the queue is marked. -/
def ClientSent (place : Nat) (sent : BodyRun) : Prop :=
  sent.session.streams[place]?.map (fun stream => stream.flags.reqSent) = some true

/-- At every point of a sequence of calls the message counts as sent exactly when the bytes
taken have reached the announced length. -/
def Accounts (side : Side) (handler : Callbacks) (streamId : UInt64) (counted : BodyRun → Prop)
    (start : BodyRun) (calls : List (Bytes × Bool)) (announced : Nat) : Prop :=
  ∀ count, counted ((calls.take count).foldl (sendNext side handler streamId) start) ↔
    announced ≤ ((calls.take count).foldl (sendNext side handler streamId) start).bytes

/-- The length the head functions store in place of the announced one. -/
def storedLength (announced : Nat) : Nat := (decide (announced < 2 ^ 64)).toNat

/-- The first chunk that the stored length takes for the whole body is the whole body. -/
def FirstCovers (announced : Nat) (calls : List (Bytes × Bool)) : Prop :=
  ∀ call, calls.find? (fun call => decide (storedLength announced ≤ call.1.length)) = some call →
    announced ≤ call.1.length

theorem isSome_toInteger_announced (announced : Nat) :
    (toInteger 64 (formatNat 10 announced) 10).isSome.toNat = storedLength announced := by
  rw [toInteger_formatNat, storedLength]
  by_cases fits : announced < 2 ^ 64
  · rw [if_pos fits, decide_eq_true fits]
    rfl
  · rw [if_neg fits, decide_eq_false fits]
    rfl

theorem responseContentLength_announced (headers : Headers) (announced : Nat)
    (plain : headers.get (ascii "Transfer-Encoding") = none)
    (length : headers.get (ascii "Content-Length") = some (formatNat 10 announced)) :
    responseContentLength headers = .size (storedLength announced) := by
  have notChunked : iequals [] (ascii "chunked") = false := by decide
  unfold responseContentLength Headers.gets
  rw [plain, length, Option.getD_none, notChunked, if_neg Bool.false_ne_true]
  exact congrArg ContentLength.size (isSome_toInteger_announced announced)

theorem requestContentLength_announced (headers : Headers) (announced : Nat)
    (plain : headers.get (ascii "Transfer-Encoding") = none)
    (length : headers.get (ascii "Content-Length") = some (formatNat 10 announced)) :
    requestContentLength headers = .size (storedLength announced) := by
  have notChunked : iequals [] (ascii "chunked") = false := by decide
  unfold requestContentLength Headers.gets
  rw [plain, length, Option.getD_none, notChunked, if_neg Bool.false_ne_true]
  exact congrArg ContentLength.size (isSome_toInteger_announced announced)

theorem storedLength_le_one (announced : Nat) : storedLength announced ≤ 1 := Bool.toNat_le _

/-- A refused call changes nothing. -/
theorem sendNext_refused (side : Side) (handler : Callbacks) (streamId : UInt64) (sent : BodyRun)
    (call : Bytes × Bool)
    (other : ∀ stream, activeStream side sent.session.streams = some stream →
      streamId ≠ stream.id.toUInt64) :
    sendNext side handler streamId sent call = sent := by
  obtain ⟨error, refused⟩ :=
    sendBodyImpl_refused side handler sent.session streamId call.1 call.2 other
  simp [sendNext, refused, rejected]

/-- A call on the active stream takes its bytes and settles the stream. -/
theorem sendNext_active (side : Side) (handler : Callbacks) (streamId : UInt64) (sent : BodyRun)
    (chunk : Bytes) (eof : Bool) (stream : Stream)
    (active : activeStream side sent.session.streams = some stream)
    (sameId : streamId = stream.id.toUInt64) :
    sendNext side handler streamId sent (chunk, eof) =
      let written := writtenStream handler stream chunk eof
      let settled := settle side handler
        { sent.session with streams := setActiveStream side sent.session.streams written } streamId
        written (completesBody stream.contentLength chunk eof)
      { session := settled.1
        events := sent.events ++ (outputs handler (bodyOutput stream chunk eof) ++ settled.2)
        bytes := sent.bytes + chunk.length } := by
  rw [sendNext, sendBodyImpl_active side handler sent.session streamId chunk eof stream active
    sameId]
  rfl

/-- The active stream, if it waits for this many bytes, is finished by a chunk that has as many. -/
theorem sendNext_waiting (side : Side) (handler : Callbacks) (streamId : UInt64) (sent : BodyRun)
    (chunk : Bytes) (eof : Bool) (stream : Stream) (remaining : Nat)
    (active : activeStream side sent.session.streams = some stream)
    (sameId : streamId = stream.id.toUInt64) (length : stream.contentLength = .size remaining) :
    sendNext side handler streamId sent (chunk, eof) =
      let written := writtenStream handler stream chunk eof
      let settled := settle side handler
        { sent.session with streams := setActiveStream side sent.session.streams written } streamId
        written (decide (remaining ≤ chunk.length))
      { session := settled.1
        events := sent.events ++ (outputs handler (bodyOutput stream chunk eof) ++ settled.2)
        bytes := sent.bytes + chunk.length } := by
  have complete : completesBody stream.contentLength chunk eof =
      decide (remaining ≤ chunk.length) := by
    rw [length]
    rfl
  rw [sendNext_active side handler streamId sent chunk eof stream active sameId, complete]

theorem chunk_eq_nil (remaining : Nat) (small : remaining ≤ 1) (chunk : Bytes)
    (short : decide (remaining ≤ chunk.length) = false) : chunk = [] := by
  rw [decide_eq_false_iff_not, not_le] at short
  exact List.eq_nil_of_length_eq_zero (Nat.lt_one_iff.mp (short.trans_le small))

/-! ### The server -/

/-- The stream is alone in the queue and waits for this many bytes. -/
def ServerWaits (streamId : UInt64) (remaining : Nat) (sent : BodyRun) : Prop :=
  ∃ stream, sent.session.streams = [stream] ∧ streamId = stream.id.toUInt64 ∧
    stream.contentLength = .size remaining ∧ finishedIds sent.events = []

/-- A stream that waits for at most one byte is finished by the first chunk that has as many. -/
theorem server_switch (handler : Callbacks) (streamId : UInt64) (remaining : Nat)
    (small : remaining ≤ 1) :
    Switch (sendNext .server handler streamId) BodyRun.bytes (fun call => call.1.length)
      (fun call => decide (remaining ≤ call.1.length)) (ServerWaits streamId remaining)
      (ServerSent handler streamId) where
  exclusive := by
    rintro sent ⟨stream, streams, -⟩ ⟨gone, -⟩
    rw [streams] at gone
    cases gone
  stays := by
    rintro sent ⟨chunk, eof⟩ ⟨stream, streams, sameId, length, unfinished⟩ short
    have active : activeStream .server sent.session.streams = some stream := by
      rw [streams]
      rfl
    obtain rfl := chunk_eq_nil remaining small chunk short
    rw [sendNext_waiting .server handler streamId sent [] eof stream remaining active sameId length,
      short]
    refine ⟨⟨writtenStream handler stream [] eof, ?_, ?_, ?_, ?_⟩, rfl⟩
    · simp [settle, setActiveStream, streams]
    · rw [writtenStream_id]
      exact sameId
    · simp [writtenStream, length]
    · simp [settle, unfinished]
  switches := by
    rintro sent ⟨chunk, eof⟩ ⟨stream, streams, sameId, length, unfinished⟩ enough
    have active : activeStream .server sent.session.streams = some stream := by
      rw [streams]
      rfl
    rw [sendNext_waiting .server handler streamId sent chunk eof stream remaining active sameId
      length, enough]
    refine ⟨⟨?_, ?_⟩, rfl⟩
    · simp [settle, finishSending, setActiveStream, streams]
    · simp [settle, finishSending, unfinished]
  keeps := by
    rintro sent call ⟨gone, reported⟩
    have same := sendNext_refused .server handler streamId sent call (by
      intro stream active
      rw [gone] at active
      cases active)
    rw [same]
    exact ⟨⟨gone, reported⟩, le_rfl⟩

/-- The response head of a message that may have a body and announces its length: it finishes
the stream at once if the number did not fit and this is no upgrade, and else the stream waits
for the stored length. -/
theorem sendResponse_announced (handler : Callbacks) (session : Session) (stream : Stream)
    (streams : session.streams = [stream]) (response : Response) (announced : Nat)
    (plain : response.headers.get (ascii "Transfer-Encoding") = none)
    (length : response.headers.get (ascii "Content-Length") = some (formatNat 10 announced))
    (mayHaveBody : cantHaveBody response.statusCode stream.flags.headRequest = false) :
    let result := sendResponse handler session stream.id.toUInt64 response
    let start : BodyRun := { session := result.session, events := result.events }
    if announced < 2 ^ 64 ∨ isUpgrade stream.flags response.headers = true then
      ServerWaits stream.id.toUInt64 (storedLength announced) start
    else ServerSent handler stream.id.toUInt64 start := by
  have stored := responseContentLength_announced response.headers announced plain length
  have notInterim : response.statusCode ≠ 100 ∧ response.statusCode ≠ 103 := by
    constructor
    · intro interim
      rw [interim] at mayHaveBody
      cases mayHaveBody
    · intro interim
      rw [interim] at mayHaveBody
      cases mayHaveBody
  have empty : storedLength announced = 0 ↔ ¬announced < 2 ^ 64 := by
    rw [storedLength, Bool.toNat_eq_zero, decide_eq_false_iff_not]
  simp only [sendResponse, streams, ne_eq, not_true_eq_false, if_false, stored, mayHaveBody,
    Bool.false_or, ContentLength.size.injEq, notInterim, not_false_eq_true, decide_true,
    Bool.and_true]
  by_cases fits : announced < 2 ^ 64
  · rw [if_pos (Or.inl fits), decide_eq_false fun zero => empty.mp zero fits, Bool.false_and,
      if_neg Bool.false_ne_true]
    exact ⟨_, rfl, rfl, rfl, finishedIds_raise_output _ _⟩
  · rw [decide_eq_true (empty.mpr fits), Bool.true_and]
    cases upgrade : isUpgrade stream.flags response.headers with
    | true =>
      rw [if_pos (Or.inr rfl), Bool.not_true, if_neg Bool.false_ne_true]
      exact ⟨_, rfl, rfl, rfl, finishedIds_raise_output _ _⟩
    | false =>
      rw [if_neg (not_or.mpr ⟨fits, Bool.false_ne_true⟩), Bool.not_false, if_pos rfl]
      refine ⟨rfl, ?_⟩
      rw [finishedIds_append, finishedIds_raise_output, finishedIds_raise_finished, List.nil_append]

/-! ### The client -/

/-- The stream is at the front of the queue, is not marked, and waits for one byte. -/
def ClientWaits (streamId : UInt64) (sent : BodyRun) : Prop :=
  ∃ stream rest, sent.session.streams = stream :: rest ∧ streamId = stream.id.toUInt64 ∧
    stream.contentLength = .size 1 ∧ stream.flags.reqSent = false

theorem clientSent_front (sent : BodyRun) (stream : Stream) (rest : List Stream)
    (streams : sent.session.streams = stream :: rest) :
    ClientSent 0 sent ↔ stream.flags.reqSent = true := by
  rw [ClientSent, streams]
  simp

theorem writtenStream_reqSent (handler : Callbacks) (stream : Stream) (chunk : Bytes)
    (eof : Bool) : (writtenStream handler stream chunk eof).flags.reqSent = stream.flags.reqSent := by
  unfold writtenStream
  split <;> rfl

/-- The first stream of a client waits for one byte and is marked by the first chunk that is
not empty. -/
theorem client_switch (handler : Callbacks) (streamId : UInt64) :
    Switch (sendNext .client handler streamId) BodyRun.bytes (fun call => call.1.length)
      (fun call => decide (1 ≤ call.1.length)) (ClientWaits streamId) (ClientSent 0) where
  exclusive := by
    rintro sent ⟨stream, rest, streams, -, -, unmarked⟩ marked
    rw [clientSent_front sent stream rest streams, unmarked] at marked
    cases marked
  stays := by
    rintro sent ⟨chunk, eof⟩ ⟨stream, rest, streams, sameId, length, unmarked⟩ short
    have active : activeStream .client sent.session.streams = some stream := by
      rw [streams]
      rfl
    obtain rfl := chunk_eq_nil 1 le_rfl chunk short
    rw [sendNext_waiting .client handler streamId sent [] eof stream 1 active sameId length, short]
    refine ⟨⟨writtenStream handler stream [] eof, rest, ?_, ?_, ?_, ?_⟩, rfl⟩
    · simp [settle, setActiveStream, streams]
    · rw [writtenStream_id]
      exact sameId
    · simp [writtenStream, length]
    · rw [writtenStream_reqSent]
      exact unmarked
  switches := by
    rintro sent ⟨chunk, eof⟩ ⟨stream, rest, streams, sameId, length, unmarked⟩ enough
    have active : activeStream .client sent.session.streams = some stream := by
      rw [streams]
      rfl
    rw [sendNext_waiting .client handler streamId sent chunk eof stream 1 active sameId length,
      enough]
    refine ⟨?_, rfl⟩
    simp [ClientSent, settle, finishSending, setActiveStream]
  keeps := by
    rintro sent ⟨chunk, eof⟩ marked
    refine ⟨?_, Nat.le_add_right _ _⟩
    by_cases named : ∃ stream, activeStream .client sent.session.streams = some stream ∧
        streamId = stream.id.toUInt64
    · obtain ⟨stream, active, sameId⟩ := named
      obtain ⟨rest, streams⟩ := List.head?_eq_some_iff.mp active
      have still := (clientSent_front sent stream rest streams).mp marked
      rw [sendNext_active .client handler streamId sent chunk eof stream active sameId]
      by_cases complete : completesBody stream.contentLength chunk eof = true
      · simp [ClientSent, settle, complete, finishSending, setActiveStream]
      · simp [ClientSent, settle, complete, setActiveStream, writtenStream_reqSent, still]
    · rw [sendNext_refused .client handler streamId sent (chunk, eof)
        fun stream active sameId => named ⟨stream, active, sameId⟩]
      exact marked

theorem foldl_sendNext_refused (handler : Callbacks) (streamId : UInt64) (start : BodyRun)
    (front : Stream) (rest : List Stream) (streams : start.session.streams = front :: rest)
    (other : streamId ≠ front.id.toUInt64) (calls : List (Bytes × Bool)) :
    calls.foldl (sendNext .client handler streamId) start = start := by
  induction calls with
  | nil => rfl
  | cons call rest inductionHypothesis =>
    rw [List.foldl_cons, sendNext_refused .client handler streamId start call]
    · exact inductionHypothesis
    · intro stream active
      rw [streams] at active
      obtain rfl := Option.some.inj active
      exact other

/-! ### The account -/

/-- The account of a server with one pending stream. -/
theorem server_accounts_iff (handler : Callbacks) (announced : Nat) (calls : List (Bytes × Bool))
    (session : Session) (stream : Stream) (streams : session.streams = [stream])
    (response : Response) (plain : response.headers.get (ascii "Transfer-Encoding") = none)
    (length : response.headers.get (ascii "Content-Length") = some (formatNat 10 announced))
    (mayHaveBody : cantHaveBody response.statusCode stream.flags.headRequest = false) :
    let head := sendResponse handler session stream.id.toUInt64 response
    Accounts .server handler stream.id.toUInt64 (ServerSent handler stream.id.toUInt64)
        { session := head.session, events := head.events } calls announced ↔
      (announced < 2 ^ 64 ∨ isUpgrade stream.flags response.headers = true) ∧
        1 ≤ announced ∧ FirstCovers announced calls := by
  have head := sendResponse_announced handler session stream streams response announced plain
    length mayHaveBody
  have switch := server_switch handler stream.id.toUInt64 (storedLength announced)
    (storedLength_le_one announced)
  by_cases waits : announced < 2 ^ 64 ∨ isUpgrade stream.flags response.headers = true
  · dsimp only at head
    rw [if_pos waits] at head
    refine (switch.accounts_iff _ calls announced head rfl).trans ?_
    exact ⟨fun both => ⟨waits, both⟩, fun all => all.2⟩
  · dsimp only at head
    rw [if_neg waits] at head
    refine ⟨fun accounts => ?_, fun all => absurd all.1 waits⟩
    -- The stream is gone right after the head, and the announced length is not zero.
    have zero : announced ≤ 0 := (accounts 0).mp head
    exact absurd (Or.inl (zero.trans_lt (by decide))) waits

/-- The account of a client whose stream is as `send_request` made it. -/
theorem client_accounts_iff (handler : Callbacks) (announced : Nat) (calls : List (Bytes × Bool))
    (session : Session) (request : Request) (stream : Stream)
    (sent : (sendRequest handler session request).2.1.streams = session.streams ++ [stream])
    (plain : request.headers.get (ascii "Transfer-Encoding") = none)
    (length : request.headers.get (ascii "Content-Length") = some (formatNat 10 announced))
    (notHead : request.method ≠ ascii "HEAD") (now : Session) (before rest : List Stream)
    (streams : now.streams = before ++ stream :: rest)
    (distinct : ∀ front, before.head? = some front → front.id ≠ stream.id) :
    Accounts .client handler stream.id.toUInt64 (ClientSent before.length) { session := now } calls
        announced ↔
      announced < 2 ^ 64 ∧ 1 ≤ announced ∧ (before = [] → FirstCovers announced calls) := by
  have stored := requestContentLength_announced request.headers announced plain length
  have made : stream = ⟨session.nextStreamId,
      { reqSent := decide (storedLength announced = 0) }, .size (storedLength announced)⟩ := by
    have last := List.append_cancel_left sent
    rw [← List.cons.inj last |>.1, stored]
    simp [notHead]
  have marked : ClientSent before.length { session := now } ↔ ¬announced < 2 ^ 64 := by
    rw [ClientSent, streams, List.getElem?_append_right le_rfl, Nat.sub_self, made]
    simp [storedLength]
  by_cases fits : announced < 2 ^ 64
  · have one : storedLength announced = 1 := by rw [storedLength, decide_eq_true fits]; rfl
    cases before with
    | nil =>
      have waits : ClientWaits stream.id.toUInt64 { session := now } := by
        refine ⟨stream, rest, streams, rfl, ?_, ?_⟩
        · rw [made, one]
        · rw [made, one]
          rfl
      have accounts := (client_switch handler stream.id.toUInt64).accounts_iff _ calls announced
        waits rfl
      unfold FirstCovers
      rw [one]
      refine accounts.trans ⟨fun both => ⟨fits, both.1, fun _ => both.2⟩, fun all => ?_⟩
      exact ⟨all.2.1, all.2.2 rfl⟩
    | cons front others =>
      have other : stream.id.toUInt64 ≠ front.id.toUInt64 := fun same =>
        distinct front rfl (UInt32.toUInt64_inj.mp same).symm
      have same := foldl_sendNext_refused handler stream.id.toUInt64 { session := now } front _
        streams other
      unfold Accounts
      simp only [same]
      rw [marked]
      refine ⟨fun accounts => ⟨fits, ?_, nofun⟩, fun all count => ?_⟩
      · by_contra none
        exact (accounts 0).mpr (Nat.lt_one_iff.mp (not_le.mp none)).le fits
      · exact ⟨fun overflow => absurd fits overflow, fun zero =>
          absurd (all.2.1.trans zero) (Nat.not_succ_le_zero 0)⟩
  · refine ⟨fun accounts => ?_, fun all => absurd all.1 fits⟩
    have zero : announced ≤ 0 := (accounts 0).mp (marked.mpr fits)
    exact absurd (zero.trans_lt (by decide)) fits

/-- For every announced length and every sequence of body calls, on both sides: the message
counts as sent exactly when the bytes taken reach the announced length if and only if that
length is not zero, the head could store it, and the first chunk that has as many bytes as the
stored length is the whole body. The client may have other requests before and behind. -/
theorem contentLength_accounts_iff (handler : Callbacks) (announced : Nat)
    (calls : List (Bytes × Bool)) :
    (∀ (session : Session) (stream : Stream) (response : Response),
      session.streams = [stream] →
      response.headers.get (ascii "Transfer-Encoding") = none →
      response.headers.get (ascii "Content-Length") = some (formatNat 10 announced) →
      cantHaveBody response.statusCode stream.flags.headRequest = false →
      let head := sendResponse handler session stream.id.toUInt64 response
      (Accounts .server handler stream.id.toUInt64 (ServerSent handler stream.id.toUInt64)
          { session := head.session, events := head.events } calls announced ↔
        (announced < 2 ^ 64 ∨ isUpgrade stream.flags response.headers = true) ∧
          1 ≤ announced ∧ FirstCovers announced calls)) ∧
    ∀ (session : Session) (request : Request) (stream : Stream),
      (sendRequest handler session request).2.1.streams = session.streams ++ [stream] →
      request.headers.get (ascii "Transfer-Encoding") = none →
      request.headers.get (ascii "Content-Length") = some (formatNat 10 announced) →
      request.method ≠ ascii "HEAD" →
      ∀ (now : Session) (before rest : List Stream), now.streams = before ++ stream :: rest →
      (∀ front, before.head? = some front → front.id ≠ stream.id) →
      (Accounts .client handler stream.id.toUInt64 (ClientSent before.length) { session := now }
          calls announced ↔
        announced < 2 ^ 64 ∧ 1 ≤ announced ∧ (before = [] → FirstCovers announced calls)) := by
  refine ⟨?_, ?_⟩
  · intro session stream response streams plain length mayHaveBody
    exact server_accounts_iff handler announced calls session stream streams response plain length
      mayHaveBody
  · intro session request stream sent plain length notHead now before rest streams distinct
    exact client_accounts_iff handler announced calls session request stream sent plain length
      notHead now before rest streams distinct

/-- The headers of a message of this length. -/
def lengthHeaders (announced : Nat) : Headers :=
  Headers.put {} (ascii "Content-Length") (formatNat 10 announced)

/-- A server with one pending request. -/
def pendingSession : Session := { nextStreamId := 2, streams := [{ id := 1 }] }

/-- The response head of a message of two bytes on that session. -/
def twoByteHead : SendResult :=
  sendResponse {} pendingSession 1 { Response.make http11 200 with headers := lengthHeaders 2 }

theorem contentLength_accounts_iff_twoBytes :
    Accounts .server {} 1 (ServerSent {} 1)
        { session := twoByteHead.session, events := twoByteHead.events }
        [(ascii "xy", false)] 2 ∧
      ∃ stream, (sendRequest {} {} { method := ascii "POST", headers := lengthHeaders 2 }).2.1.streams =
          [stream] ∧
        Accounts .client {} stream.id.toUInt64 (ClientSent 0) { session := { streams := [stream] } }
          [(ascii "xy", false)] 2 := by
  have covers : FirstCovers 2 [(ascii "xy", false)] := by
    rintro _ ⟨⟩
    decide
  obtain ⟨server, client⟩ := contentLength_accounts_iff {} 2 [(ascii "xy", false)]
  refine ⟨?_, _, rfl, ?_⟩
  · exact (server pendingSession { id := 1 }
      { Response.make http11 200 with headers := lengthHeaders 2 } rfl (by decide) (by decide)
      (by decide)).mpr ⟨Or.inl (by decide), by decide, covers⟩
  · exact (client {} { method := ascii "POST", headers := lengthHeaders 2 } _ rfl (by decide)
      (by decide) (by decide) _ [] [] rfl nofun).mpr ⟨by decide, by decide, fun _ => covers⟩

/-- One byte of a response of two bytes finishes its stream. -/
theorem oneByte_notAccounted :
    ¬Accounts .server {} 1 (ServerSent {} 1)
      { session := twoByteHead.session, events := twoByteHead.events }
      [(ascii "x", false), (ascii "y", false)] 2 := by
  intro accounts
  have early := (accounts 1).mp ⟨by decide, by decide⟩
  exact absurd early (by decide)

end NativeLibs.Http1
