/-
This file collects what the sending calls leave alone and what they do to the
queue. No sending call touches the parser context, the next stream id, or the
parts of a stream that only the callbacks write, and the streams it leaves are
the last ones of the queue. What it removes and what it reports as finished is
said exactly, call by call; both sides of the connection share these facts.
-/

import NativeLibs.Http1.CallbackEffects
import NativeLibs.Http1.Sending

namespace NativeLibs.Http1

open Http

/-! ### What the receiving side sees of a stream -/

/-- The parts of a stream that only the callbacks of the parser write. -/
structure ReceiveView where
  id : UInt32
  hasBody : Bool
  intermediateResponse : Bool

def receiveView (stream : Stream) : ReceiveView :=
  ⟨stream.id, stream.flags.hasBody, stream.flags.intermediateResponse⟩

/-- The session was only sent through: what the callbacks see of it is unchanged, except that
streams may be gone from the front of the queue. -/
structure SentThrough (before after : Session) : Prop where
  context : after.parserContext = before.parserContext
  nextId : after.nextStreamId = before.nextStreamId
  queue : after.streams.map receiveView <:+ before.streams.map receiveView

theorem SentThrough.refl (session : Session) : SentThrough session session :=
  ⟨rfl, rfl, List.suffix_rfl⟩

theorem SentThrough.trans {first second third : Session} (one : SentThrough first second)
    (two : SentThrough second third) : SentThrough first third :=
  ⟨two.context.trans one.context, two.nextId.trans one.nextId, two.queue.trans one.queue⟩

theorem SentThrough.ids {before after : Session} (sent : SentThrough before after) :
    after.streams.map Stream.id <:+ before.streams.map Stream.id := by
  have projected := sent.queue.map ReceiveView.id
  simpa [List.map_map, Function.comp_def, receiveView] using projected

theorem SentThrough.pop (session : Session) :
    SentThrough session { session with streams := session.streams.tail } := by
  refine ⟨rfl, rfl, ?_⟩
  rw [List.map_tail]
  exact List.tail_suffix _

/-- Writing to the active stream what only the sending calls write. -/
theorem SentThrough.write (side : Side) (session : Session) (stream written : Stream)
    (active : activeStream side session.streams = some stream)
    (same : receiveView written = receiveView stream) :
    SentThrough session
      { session with streams := setActiveStream side session.streams written } := by
  refine ⟨rfl, rfl, ?_⟩
  cases side with
  | server =>
    obtain ⟨front, streams⟩ := List.getLast?_eq_some_iff.mp active
    simp [streams, setActiveStream, same]
  | client =>
    obtain ⟨rest, streams⟩ := List.head?_eq_some_iff.mp active
    simp [streams, setActiveStream, same]

@[simp] theorem finishedIds_outputs (handler : Callbacks) (chunks : List Bytes) :
    finishedIds (outputs handler chunks) = [] := by
  unfold outputs
  split
  · simp [finishedIds]
  · rfl

/-! ### Body -/

theorem receiveView_writtenStream (handler : Callbacks) (stream : Stream) (chunk : Bytes)
    (eof : Bool) : receiveView (writtenStream handler stream chunk eof) = receiveView stream := by
  unfold writtenStream
  split <;> rfl

theorem writtenStream_id (handler : Callbacks) (stream : Stream) (chunk : Bytes) (eof : Bool) :
    (writtenStream handler stream chunk eof).id = stream.id :=
  congrArg ReceiveView.id (receiveView_writtenStream handler stream chunk eof)

theorem sendBodyImpl_sentThrough (side : Side) (handler : Callbacks) (session : Session)
    (streamId : UInt64) (chunk : Bytes) (eof : Bool) :
    SentThrough session (sendBodyImpl side handler session streamId chunk eof).session := by
  rcases sendBodyImpl_named_or_refused side handler session streamId chunk eof with
    ⟨stream, active, sameId⟩ | ⟨error, refused⟩
  · rw [sendBodyImpl_active side handler session streamId chunk eof stream active sameId]
    have written := SentThrough.write side session stream _ active
      (receiveView_writtenStream handler stream chunk eof)
    refine written.trans ?_
    simp only [settle]
    split
    · cases side with
      | server => exact SentThrough.pop _
      | client =>
        exact SentThrough.write .client _ _ _ (activeStream_setActiveStream _ _ _) rfl
    · exact SentThrough.refl _
  · rw [refused]
    exact SentThrough.refl session

/-- A body call of a server: it is refused, or it leaves the ids of the queue alone, or it
completes the message of the *last* stream, removes the *first* and reports its argument. -/
theorem sendBodyImpl_server_effect (handler : Callbacks) (session : Session) (streamId : UInt64)
    (chunk : Bytes) (eof : Bool) (last : Stream) (front : List Stream)
    (streams : session.streams = front ++ [last]) (sameId : streamId = last.id.toUInt64) :
    let result := sendBodyImpl .server handler session streamId chunk eof
    result.status = .ok ∧
      if completesBody last.contentLength chunk eof then
        result.session.streams.map Stream.id = (session.streams.map Stream.id).tail ∧
          finishedIds result.events = reports handler [streamId]
      else
        result.session.streams.map Stream.id = session.streams.map Stream.id ∧
          finishedIds result.events = [] := by
  have active : activeStream .server session.streams = some last := by
    rw [streams]
    exact List.getLast?_concat
  have ids := map_id_setActiveStream .server session.streams last
    (writtenStream handler last chunk eof) active
    (writtenStream_id handler last chunk eof)
  rw [sendBodyImpl_active .server handler session streamId chunk eof last active sameId]
  refine ⟨rfl, ?_⟩
  simp only [settle]
  split
  · simp only [finishSending, finishedIds_append, finishedIds_outputs, List.nil_append,
      finishedIds_raise_finished, and_true]
    rw [← ids, List.map_tail]
  · simp only [finishedIds_outputs, List.append_nil, and_true]
    exact ids

/-! ### Trailer -/

theorem SentThrough.mark (session : Session) (stream : Stream) (rest : List Stream)
    (streams : session.streams = stream :: rest) :
    SentThrough session { session with streams := stream.markLastChunk :: rest } := by
  have written := SentThrough.write .client session stream stream.markLastChunk
    (by rw [streams]; rfl) rfl
  rwa [streams] at written

theorem sendLastChunk_session (side : Side) (handler : Callbacks) (session : Session)
    (streamId : UInt32) :
    (sendLastChunk side handler session streamId).session =
      (sendBodyImpl side handler session streamId.toUInt64 [] false).session := by
  simp only [sendLastChunk]
  split <;> rfl

theorem finishTrailer_sentThrough (handler : Callbacks) (session : Session) (streamId : UInt32)
    (headers : Headers) (eof : Bool) :
    SentThrough session (finishTrailer handler session streamId headers eof).session := by
  unfold finishTrailer
  split
  · split
    · exact SentThrough.refl session
    · rename_i rest streams
      have popped := SentThrough.pop session
      rwa [streams] at popped
  · exact SentThrough.refl session

theorem sendTrailerImpl_sentThrough (side : Side) (handler : Callbacks) (session : Session)
    (streamId : UInt32) (headers : Headers) (eof : Bool) :
    SentThrough session (sendTrailerImpl side handler session streamId headers eof).session := by
  unfold sendTrailerImpl
  cases streams : session.streams with
  | nil => exact SentThrough.refl session
  | cons stream rest =>
    have marked := SentThrough.mark session stream rest streams
    have lastChunk := sendLastChunk_session side handler
      { session with streams := stream.markLastChunk :: rest } streamId ▸
      marked.trans (sendBodyImpl_sentThrough side handler _ streamId.toUInt64 [] false)
    dsimp only
    split
    · exact SentThrough.refl session
    · split
      · cases stream.flags.zeroChunkSent with
        | true => exact marked.trans (finishTrailer_sentThrough _ _ _ _ _)
        | false =>
          simp only [Bool.false_eq_true, if_false]
          split
          · exact lastChunk.trans (finishTrailer_sentThrough _ _ _ _ _)
          · exact lastChunk
      · exact marked

theorem sendTrailerImpl_refused (side : Side) (handler : Callbacks) (session : Session)
    (streamId : UInt32) (headers : Headers) (eof : Bool)
    (other : ∀ stream, session.streams.head? = some stream → streamId ≠ stream.id) :
    ∃ error, sendTrailerImpl side handler session streamId headers eof = rejected session error := by
  unfold sendTrailerImpl
  cases streams : session.streams with
  | nil => exact ⟨_, rfl⟩
  | cons stream rest => exact ⟨_, if_pos (other stream (by rw [streams]; rfl))⟩

/-- A trailer call names the front stream, or it is refused. -/
theorem sendTrailerImpl_named_or_refused (side : Side) (handler : Callbacks) (session : Session)
    (streamId : UInt32) (headers : Headers) (eof : Bool) :
    (∃ front rest, session.streams = front :: rest ∧ streamId = front.id) ∨
      ∃ error,
        sendTrailerImpl side handler session streamId headers eof = rejected session error := by
  by_cases named : ∃ front rest, session.streams = front :: rest ∧ streamId = front.id
  · exact Or.inl named
  · refine Or.inr (sendTrailerImpl_refused side handler session streamId headers eof ?_)
    intro front found sameId
    obtain ⟨rest, streams⟩ := List.head?_eq_some_iff.mp found
    exact named ⟨front, rest, streams, sameId⟩

section

variable (handler : Callbacks) (session : Session) (front : Stream) (rest : List Stream)
  (streams : session.streams = front :: rest) (headers : Headers) (eof : Bool)

include streams

theorem sendTrailerImpl_silent (side : Side) (silent : handler.onOutput = false) :
    let result := sendTrailerImpl side handler session front.id headers eof
    result.status = .ok ∧ result.events = [] ∧
      result.session.streams.map Stream.id = session.streams.map Stream.id := by
  simp [sendTrailerImpl, streams, silent]

/-- After the last chunk a trailer call writes the trailer and, at the end, removes the
stream. -/
theorem sendTrailerImpl_afterLastChunk (side : Side) (writes : handler.onOutput = true)
    (lastChunk : front.flags.zeroChunkSent = true) :
    let result := sendTrailerImpl side handler session front.id headers eof
    result.status = .ok ∧
      if eof then
        result.session.streams.map Stream.id = rest.map Stream.id ∧
          finishedIds result.events = reports handler [front.id.toUInt64]
      else
        result.session.streams.map Stream.id = session.streams.map Stream.id ∧
          finishedIds result.events = [] := by
  cases eof <;>
    simp [sendTrailerImpl, streams, writes, lastChunk, finishTrailer]

/-- Before the last chunk a trailer call of a server writes that chunk through a body call,
which looks at the other end of the queue and refuses. -/
theorem sendTrailerImpl_blocked (writes : handler.onOutput = true)
    (lastChunk : front.flags.zeroChunkSent = false)
    (behind : ∀ last ∈ rest.getLast?, last.id ≠ front.id) (nonempty : rest ≠ []) :
    let result := sendTrailerImpl .server handler session front.id headers eof
    (∃ error, result.status = .error error) ∧ result.events = [] ∧
      result.session.streams.map Stream.id = session.streams.map Stream.id := by
  obtain ⟨before, last, rfl⟩ := List.eq_nil_or_concat rest |>.resolve_left nonempty
  rw [List.concat_eq_append] at streams behind
  obtain ⟨error, refused⟩ := sendBodyImpl_refused .server handler
    { session with streams := front.markLastChunk :: (before ++ [last]) }
    front.id.toUInt64 [] false (by
      intro stream active sameId
      have found : stream = last := by
        simpa [activeStream, List.getLast?_cons] using active.symm
      exact behind last (by simp) (found ▸ (UInt32.toUInt64_inj.mp sameId).symm))
  simp [sendTrailerImpl, streams, writes, lastChunk, sendLastChunk, refused, rejected]

/-- Before the last chunk, and with nothing else in the queue, a trailer call of a server whose
content length is used up finishes the stream through the body call already. At the end it
then removes the front of an empty queue. -/
theorem sendTrailerImpl_single (writes : handler.onOutput = true)
    (lastChunk : front.flags.zeroChunkSent = false) (alone : rest = []) :
    let result := sendTrailerImpl .server handler session front.id headers eof
    if front.contentLength = .size 0 then
      if eof then result.status = .undefinedBehavior
      else
        result.status = .ok ∧ result.session.streams.map Stream.id = [] ∧
          finishedIds result.events = reports handler [front.id.toUInt64]
    else
      result.status = .ok ∧
        if eof then
          result.session.streams.map Stream.id = [] ∧
            finishedIds result.events = reports handler [front.id.toUInt64]
        else
          result.session.streams.map Stream.id = session.streams.map Stream.id ∧
            finishedIds result.events = [] := by
  subst alone
  have body := sendBodyImpl_active .server handler
    { session with streams := [front.markLastChunk] } front.id.toUInt64 [] false
    front.markLastChunk rfl rfl
  by_cases usedUp : front.contentLength = .size 0
  · cases eof <;>
      simp [sendTrailerImpl, streams, writes, lastChunk, sendLastChunk, body, usedUp,
        settle, completesBody, finishSending, setActiveStream, finishTrailer]
  · have unfinished : completesBody front.contentLength [] false = false := by
      unfold completesBody
      split
      · rename_i remaining found
        simpa [found] using usedUp
      · rfl
    have sameId : (writtenStream handler front.markLastChunk [] false).id = front.id :=
      writtenStream_id handler front.markLastChunk [] false
    cases eof <;>
      simp [sendTrailerImpl, streams, writes, lastChunk, sendLastChunk, body, usedUp,
        settle, unfinished, setActiveStream, sameId, finishTrailer]

end

/-! ### Head -/

/-- A response is refused, or leaves the ids of the queue alone, or removes the front stream,
which is the one it is for. -/
theorem sendResponse_effect (handler : Callbacks) (session : Session) (streamId : UInt64)
    (response : Response) :
    let result := sendResponse handler session streamId response
    (∃ error, result = rejected session error) ∨
      ∃ front rest, session.streams = front :: rest ∧ streamId = front.id.toUInt64 ∧
        result.status = .ok ∧ SentThrough session result.session ∧
        ((result.session.streams.map Stream.id = session.streams.map Stream.id ∧
            finishedIds result.events = []) ∨
          (result.session.streams = rest ∧
            finishedIds result.events = reports handler [streamId])) := by
  unfold sendResponse
  cases streams : session.streams with
  | nil => exact Or.inl ⟨_, rfl⟩
  | cons front rest =>
    by_cases other : streamId ≠ front.id.toUInt64
    · exact Or.inl ⟨_, if_pos other⟩
    · refine Or.inr ⟨front, rest, rfl, not_not.mp other, ?_⟩
      simp only [if_neg other]
      split
      · refine ⟨rfl, ?_, Or.inr ⟨rfl, by simp⟩⟩
        have popped := SentThrough.pop session
        rwa [streams] at popped
      · refine ⟨rfl, ?_, Or.inl ⟨rfl, by simp⟩⟩
        have written := SentThrough.write .client session front
          { front with contentLength := responseContentLength response.headers }
          (by rw [streams]; rfl) rfl
        rwa [streams] at written

/-! ### What the sending calls raise -/

/-- Only output and finished streams are reported. -/
def OnlySends (events : List Event) : Prop :=
  ∀ event ∈ events, (∃ chunk, event = .output chunk) ∨ ∃ streamId, event = .streamFinished streamId

theorem OnlySends.nil : OnlySends [] := fun _ member => absurd member List.not_mem_nil

theorem OnlySends.append {first second : List Event} (one : OnlySends first)
    (two : OnlySends second) : OnlySends (first ++ second) := by
  intro event member
  rcases List.mem_append.mp member with inFirst | inSecond
  · exact one event inFirst
  · exact two event inSecond

theorem OnlySends.output (chunk : Bytes) : OnlySends [.output chunk] := by
  intro event member
  exact Or.inl ⟨chunk, List.mem_singleton.mp member⟩

theorem OnlySends.raise_output (isSet : Bool) (chunk : Bytes) :
    OnlySends (raise isSet (.output chunk)) := by
  cases isSet with
  | false => exact OnlySends.nil
  | true => exact OnlySends.output chunk

theorem OnlySends.raise_finished (isSet : Bool) (streamId : UInt64) :
    OnlySends (raise isSet (.streamFinished streamId)) := by
  cases isSet with
  | false => exact OnlySends.nil
  | true =>
    intro event member
    exact Or.inr ⟨streamId, List.mem_singleton.mp member⟩

theorem OnlySends.outputs (handler : Callbacks) (chunks : List Bytes) :
    OnlySends (outputs handler chunks) := by
  unfold Http1.outputs
  split
  · intro event member
    obtain ⟨chunk, -, rfl⟩ := List.mem_map.mp member
    exact Or.inl ⟨chunk, rfl⟩
  · exact OnlySends.nil

theorem sendBodyImpl_onlySends (side : Side) (handler : Callbacks) (session : Session)
    (streamId : UInt64) (chunk : Bytes) (eof : Bool) :
    OnlySends (sendBodyImpl side handler session streamId chunk eof).events := by
  rcases sendBodyImpl_named_or_refused side handler session streamId chunk eof with
    ⟨stream, active, sameId⟩ | ⟨error, refused⟩
  · rw [sendBodyImpl_active side handler session streamId chunk eof stream active sameId]
    refine (OnlySends.outputs handler _).append ?_
    simp only [settle]
    split
    · cases side with
      | server => exact OnlySends.raise_finished _ _
      | client => exact OnlySends.nil
    · exact OnlySends.nil
  · rw [refused]
    exact OnlySends.nil

theorem sendLastChunk_onlySends (side : Side) (handler : Callbacks) (session : Session)
    (streamId : UInt32) : OnlySends (sendLastChunk side handler session streamId).events := by
  have body := sendBodyImpl_onlySends side handler session streamId.toUInt64 [] false
  simp only [sendLastChunk]
  split
  · exact body
  · exact body.append (OnlySends.output crlf)

theorem finishTrailer_onlySends (handler : Callbacks) (session : Session) (streamId : UInt32)
    (headers : Headers) (eof : Bool) :
    OnlySends (finishTrailer handler session streamId headers eof).events := by
  have trailer : OnlySends [.output headers.str, .output crlf] :=
    (OnlySends.output headers.str).append (OnlySends.output crlf)
  unfold finishTrailer
  split
  · split
    · exact trailer
    · exact trailer.append (OnlySends.raise_finished _ _)
  · exact OnlySends.output headers.str

theorem sendTrailerImpl_onlySends (side : Side) (handler : Callbacks) (session : Session)
    (streamId : UInt32) (headers : Headers) (eof : Bool) :
    OnlySends (sendTrailerImpl side handler session streamId headers eof).events := by
  unfold sendTrailerImpl
  cases session.streams with
  | nil => exact OnlySends.nil
  | cons stream rest =>
    dsimp only
    split
    · exact OnlySends.nil
    · split
      · cases stream.flags.zeroChunkSent with
        | true => exact OnlySends.nil.append (finishTrailer_onlySends _ _ _ _ _)
        | false =>
          simp only [Bool.false_eq_true, if_false]
          have lastChunk := sendLastChunk_onlySends side handler
            { session with streams := stream.markLastChunk :: rest } streamId
          split
          · exact lastChunk.append (finishTrailer_onlySends _ _ _ _ _)
          · exact lastChunk
      · exact OnlySends.nil

theorem sendResponse_onlySends (handler : Callbacks) (session : Session) (streamId : UInt64)
    (response : Response) : OnlySends (sendResponse handler session streamId response).events := by
  have head := OnlySends.raise_output handler.onOutput response.str
  unfold sendResponse
  split
  · exact OnlySends.nil
  · dsimp only
    split
    · exact OnlySends.nil
    · split
      · exact head.append (OnlySends.raise_finished _ _)
      · exact head

end NativeLibs.Http1
