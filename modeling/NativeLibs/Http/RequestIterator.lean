/-
This file embeds `Request::Iterator`, which walks over the pseudo-headers of a
request and then over its headers. The iterator is a state machine whose states
for empty fields fall through to the next one, with an iterator over the header
list inside that it has only in its last part.

An iterator over the header list is an index, and the length is its end. What the
source may not do, dereference the end or move beyond it, has no result.
-/

import NativeLibs.Http.Endpoint
import NativeLibs.Library.Iteration

namespace NativeLibs.Http

open Library

/-! ### The iterator -/

/-- `Request::Iterator::State`. -/
inductive IteratorState where
  | method
  | scheme
  | path
  | authority
  | headers
  | done
  deriving DecidableEq

/-- `(State) std::min((int) DONE, (int) m_state + 1)`. -/
def IteratorState.next : IteratorState → IteratorState
  | .method => .scheme
  | .scheme => .path
  | .path => .authority
  | .authority => .headers
  | .headers => .done
  | .done => .done

/-- `Request::Iterator`. -/
structure RequestIterator where
  obj : Option Request
  state : IteratorState
  current : Option Header := none
  headersIter : Option ℕ := none

namespace RequestIterator

/-- The case `DONE` of `update_current`. -/
def finish (iterator : RequestIterator) : RequestIterator :=
  { iterator with obj := none, state := .done, current := none }

/-- The case of a pseudo-header: one that is empty falls through. -/
def pseudo (iterator : RequestIterator) (state : IteratorState) (name value : Bytes)
    (fallthrough : Option RequestIterator) : Option RequestIterator :=
  if value ≠ [] then some { iterator with state, current := some ⟨name, value⟩ } else fallthrough

/-- The case `HEADERS`. -/
def updateHeaders (request : Request) (iterator : RequestIterator) : Option RequestIterator :=
  match iterator.headersIter with
  | some index =>
    if request.headers.length ≤ index then none
    else
      match request.headers.fields[index + 1]? with
      | some field =>
        some { iterator with
          state := .headers, current := some field, headersIter := some (index + 1) }
      | none => some (finish { iterator with headersIter := some (index + 1) })
  | none =>
    match request.headers.fields[0]? with
    | some field =>
      some { iterator with state := .headers, current := some field, headersIter := some 0 }
    | none => some iterator.finish

/-- The case `AUTHORITY`. -/
def updateAuthority (request : Request) (iterator : RequestIterator) : Option RequestIterator :=
  iterator.pseudo .authority pseudoHeaderNameAuthority request.authority
    (iterator.updateHeaders request)

/-- The case `PATH`. -/
def updatePath (request : Request) (iterator : RequestIterator) : Option RequestIterator :=
  iterator.pseudo .path pseudoHeaderNamePath request.path (iterator.updateAuthority request)

/-- The case `SCHEME`. -/
def updateScheme (request : Request) (iterator : RequestIterator) : Option RequestIterator :=
  iterator.pseudo .scheme pseudoHeaderNameScheme request.scheme (iterator.updatePath request)

/-- The case `METHOD`. -/
def updateMethod (request : Request) (iterator : RequestIterator) : Option RequestIterator :=
  iterator.pseudo .method pseudoHeaderNameMethod request.method (iterator.updateScheme request)

/-- `Request::Iterator::update_current`. -/
def updateCurrent (iterator : RequestIterator) : Option RequestIterator :=
  match iterator.obj with
  | none => some { iterator with state := .done, current := none }
  | some request =>
    match iterator.state with
    | .method => iterator.updateMethod request
    | .scheme => iterator.updateScheme request
    | .path => iterator.updatePath request
    | .authority => iterator.updateAuthority request
    | .headers => iterator.updateHeaders request
    | .done => some iterator.finish

/-- The constructor of `Request::Iterator`. -/
def make (obj : Option Request) : Option RequestIterator :=
  updateCurrent { obj, state := if obj.isNone then .done else .method }

/-- `Request::Iterator::operator++`. -/
def advance (iterator : RequestIterator) : Option RequestIterator :=
  if iterator.state ≠ .headers then
    updateCurrent { iterator with state := iterator.state.next }
  else do
    let index ← iterator.headersIter
    let request ← iterator.obj
    if index = request.headers.length then updateCurrent { iterator with state := .done }
    else updateCurrent iterator

/-- `Request::Iterator::operator==`. -/
def equals (left right : RequestIterator) : Bool :=
  left.state = right.state && (left.state ≠ .headers || left.headersIter = right.headersIter)

/-- A loop over the headers of a request. -/
def iteration : Iteration RequestIterator Header where
  equals := equals
  current := RequestIterator.current
  advance := advance

end RequestIterator

/-- `Request::begin`. -/
def Request.beginIterator (request : Request) : Option RequestIterator :=
  RequestIterator.make (some request)

/-- `Request::end`. -/
def Request.endIterator : Option RequestIterator := RequestIterator.make none

/-! ### What it yields -/

/-- A pseudo-header that is not empty. -/
def pseudoHeader (name value : Bytes) : List Header := if value ≠ [] then [⟨name, value⟩] else []

/-- The pseudo-headers of a request, in the order of the iterator. -/
def Request.pseudoHeaders (request : Request) : List Header :=
  pseudoHeader pseudoHeaderNameMethod request.method ++
    (pseudoHeader pseudoHeaderNameScheme request.scheme ++
      (pseudoHeader pseudoHeaderNamePath request.path ++
        pseudoHeader pseudoHeaderNameAuthority request.authority))

namespace RequestIterator

/-- The iterator behind the last header. -/
def atEnd : RequestIterator := { obj := none, state := .done }

/-- Moving an iterator to the end yields a list of headers. -/
abbrev Yields (iterator : RequestIterator) (headers : List Header) : Prop :=
  iteration.Yields atEnd iterator headers

theorem equals_atEnd (iterator : RequestIterator) (done : iterator.state = .done) :
    iteration.equals iterator atEnd = true := by
  simp [iteration, equals, atEnd, done]

theorem not_equals_atEnd (iterator : RequestIterator) (notDone : iterator.state ≠ .done) :
    iteration.equals iterator atEnd = false := by
  simp [iteration, equals, atEnd, notDone]

variable {request : Request}

/-- Within the header list the iterator yields what is left of it. -/
theorem yields_drop {iterator : RequestIterator} {index : ℕ} {field : Header}
    (obj : iterator.obj = some request) (state : iterator.state = .headers)
    (position : iterator.headersIter = some index)
    (found : request.headers.fields[index]? = some field)
    (current : iterator.current = some field) :
    Yields iterator (request.headers.fields.drop index) := by
  obtain ⟨within, here⟩ := List.getElem?_eq_some_iff.mp found
  have notDone : iterator.state ≠ .done := by
    rw [state]
    exact IteratorState.noConfusion
  have inside : ¬request.headers.length ≤ index := Nat.not_le.mpr within
  have notEnd : index ≠ request.headers.length := Nat.ne_of_lt within
  rw [List.drop_eq_getElem_cons within, here]
  cases following : request.headers.fields[index + 1]? with
  | none =>
    rw [List.drop_of_length_le (List.getElem?_eq_none_iff.mp following)]
    have advanced : iterator.advance =
        some (finish { iterator with headersIter := some (index + 1) }) := by
      simp [advance, updateCurrent, updateHeaders, state, position, obj, notEnd, inside, following]
    exact .cons (not_equals_atEnd _ notDone) current advanced (.nil (equals_atEnd _ rfl))
  | some second =>
    let next : RequestIterator :=
      { iterator with state := .headers, current := some second, headersIter := some (index + 1) }
    have advanced : iterator.advance = some next := by
      simp [advance, updateCurrent, updateHeaders, state, position, obj, notEnd, inside, following,
        next]
    exact .cons (not_equals_atEnd _ notDone) current advanced
      (yields_drop obj rfl rfl following rfl)
termination_by request.headers.fields.length - index

/-- A case of `update_current` moves an iterator that is not within the header list to where it
yields a list. -/
def Enters (request : Request) (update : RequestIterator → Option RequestIterator)
    (headers : List Header) : Prop :=
  ∀ iterator : RequestIterator, iterator.obj = some request → iterator.headersIter = none →
    ∃ next, update iterator = some next ∧ Yields next headers

theorem enters_headers : Enters request (updateHeaders request) request.headers.fields := by
  intro iterator obj position
  cases first : request.headers.fields with
  | nil => exact ⟨iterator.finish, by simp [updateHeaders, position, first],
    .nil (equals_atEnd _ rfl)⟩
  | cons field rest =>
    have found : request.headers.fields[0]? = some field := by rw [first]; rfl
    let next : RequestIterator :=
      { iterator with state := .headers, current := some field, headersIter := some 0 }
    have yields : Yields next (request.headers.fields.drop 0) := yields_drop obj rfl rfl found rfl
    rw [List.drop_zero, first] at yields
    exact ⟨next, by simp [updateHeaders, position, found, next], yields⟩

/-- A pseudo-header comes before what the next case yields. -/
theorem enters_pseudo {state : IteratorState} {name value : Bytes}
    {following : RequestIterator → Option RequestIterator} {headers : List Header}
    (notDone : state ≠ .done)
    (advances : ∀ iterator : RequestIterator, iterator.obj = some request →
      iterator.state = state →
      iterator.advance = following { iterator with state := state.next })
    (enters : Enters request following headers) :
    Enters request (fun iterator => iterator.pseudo state name value (following iterator))
      (pseudoHeader name value ++ headers) := by
  intro iterator obj position
  by_cases empty : value = []
  · obtain ⟨next, entered, yields⟩ := enters iterator obj position
    refine ⟨next, ?_, ?_⟩
    · simp [pseudo, empty, entered]
    · simpa [pseudoHeader, empty] using yields
  · let here : RequestIterator := { iterator with state, current := some ⟨name, value⟩ }
    obtain ⟨next, entered, yields⟩ := enters { here with state := state.next } obj position
    have advanced : here.advance = some next := (advances here obj rfl).trans entered
    refine ⟨here, by simp [pseudo, empty, here], ?_⟩
    have first : pseudoHeader name value ++ headers = ⟨name, value⟩ :: headers := by
      simp [pseudoHeader, empty]
    rw [first]
    exact .cons (not_equals_atEnd _ notDone) rfl advanced yields

theorem enters_method :
    Enters request (updateMethod request) (request.pseudoHeaders ++ request.headers.fields) := by
  have authority : Enters request (updateAuthority request) _ :=
    enters_pseudo IteratorState.noConfusion (fun iterator obj state => by
      simp [advance, updateCurrent, state, obj, IteratorState.next]) enters_headers
  have path : Enters request (updatePath request) _ :=
    enters_pseudo IteratorState.noConfusion (fun iterator obj state => by
      simp [advance, updateCurrent, state, obj, IteratorState.next]) authority
  have scheme : Enters request (updateScheme request) _ :=
    enters_pseudo IteratorState.noConfusion (fun iterator obj state => by
      simp [advance, updateCurrent, state, obj, IteratorState.next]) path
  have method : Enters request (updateMethod request) _ :=
    enters_pseudo IteratorState.noConfusion (fun iterator obj state => by
      simp [advance, updateCurrent, state, obj, IteratorState.next]) scheme
  simpa [Request.pseudoHeaders] using method

/-- Iterating over a request ends, and yields the pseudo-headers and then the headers. -/
theorem collect_request (request : Request) :
    ∃ first last, request.beginIterator = some first ∧ Request.endIterator = some last ∧
      ∀ rounds, (request.pseudoHeaders ++ request.headers.fields).length < rounds →
        iteration.collect last rounds first =
          some (request.pseudoHeaders ++ request.headers.fields) := by
  obtain ⟨first, entered, yields⟩ := enters_method ⟨some request, .method, none, none⟩ rfl rfl
  exact ⟨first, _, entered, rfl, fun rounds enough => Iteration.collect_of_yields yields enough⟩

end RequestIterator

end NativeLibs.Http
