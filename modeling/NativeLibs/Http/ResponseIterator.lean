/-
This file embeds `Response::Iterator`, which yields the status of a response as a
pseudo-header and then its headers, and follows the status through the setters of
a response. The iterator yields the status string as it is. The constructor and
the setter that take a status code write the string only if the version is above
HTTP/1.1 at that moment, and two more functions of the interface change the
version or the string alone, so that the string may be another text than the code.
-/

import NativeLibs.Http.Endpoint
import NativeLibs.Library.Iteration
import NativeLibs.Library.Runs

namespace NativeLibs.Http

open Library

/-! ### The iterator -/

/-- `Response::Iterator::State`. -/
inductive ResponseIteratorState where
  | status
  | headers
  | done
  deriving DecidableEq

/-- `(State) std::min((int) DONE, (int) m_state + 1)`. -/
def ResponseIteratorState.next : ResponseIteratorState → ResponseIteratorState
  | .status => .headers
  | .headers => .done
  | .done => .done

/-- `Response::Iterator`. -/
structure ResponseIterator where
  obj : Option Response
  state : ResponseIteratorState
  current : Option Header := none
  headersIter : Option ℕ := none

namespace ResponseIterator

/-- The case `DONE` of `update_current`. -/
def finish (iterator : ResponseIterator) : ResponseIterator :=
  { iterator with obj := none, state := .done, current := none }

/-- The case `HEADERS`. -/
def updateHeaders (response : Response) (iterator : ResponseIterator) : Option ResponseIterator :=
  match iterator.headersIter with
  | some index =>
    if response.headers.length ≤ index then none
    else
      match response.headers.fields[index + 1]? with
      | some field => some { iterator with current := some field, headersIter := some (index + 1) }
      | none => some (finish { iterator with headersIter := some (index + 1) })
  | none =>
    match response.headers.fields[0]? with
    | some field => some { iterator with current := some field, headersIter := some 0 }
    | none => some iterator.finish

/-- `Response::Iterator::update_current`. -/
def updateCurrent (iterator : ResponseIterator) : Option ResponseIterator :=
  match iterator.obj with
  | none => some { iterator with state := .done, current := none }
  | some response =>
    match iterator.state with
    | .status =>
      some { iterator with current := some ⟨pseudoHeaderNameStatus, response.statusString⟩ }
    | .headers => iterator.updateHeaders response
    | .done => some iterator.finish

/-- The constructor of `Response::Iterator`. -/
def make (obj : Option Response) : Option ResponseIterator :=
  updateCurrent { obj, state := if obj.isNone then .done else .status }

/-- `Response::Iterator::operator++`. -/
def advance (iterator : ResponseIterator) : Option ResponseIterator :=
  if iterator.state ≠ .headers then
    updateCurrent { iterator with state := iterator.state.next }
  else do
    let index ← iterator.headersIter
    let response ← iterator.obj
    if index = response.headers.length then updateCurrent { iterator with state := .done }
    else updateCurrent iterator

/-- `Response::Iterator::operator==`. -/
def equals (left right : ResponseIterator) : Bool :=
  left.state = right.state && (left.state ≠ .headers || left.headersIter = right.headersIter)

/-- A loop over the headers of a response. -/
def iteration : Iteration ResponseIterator Header where
  equals := equals
  current := ResponseIterator.current
  advance := advance

end ResponseIterator

/-- `Response::begin`. -/
def Response.beginIterator (response : Response) : Option ResponseIterator :=
  ResponseIterator.make (some response)

/-- `Response::end`. -/
def Response.endIterator : Option ResponseIterator := ResponseIterator.make none

/-! ### What it yields -/

namespace ResponseIterator

/-- The iterator behind the last header. -/
def atEnd : ResponseIterator := { obj := none, state := .done }

theorem equals_atEnd (iterator : ResponseIterator) (done : iterator.state = .done) :
    iteration.equals iterator atEnd = true := by
  simp [iteration, equals, atEnd, done]

theorem not_equals_atEnd (iterator : ResponseIterator) (notDone : iterator.state ≠ .done) :
    iteration.equals iterator atEnd = false := by
  simp [iteration, equals, atEnd, notDone]

variable {response : Response}

/-- Within the header list the iterator yields what is left of it. -/
theorem yields_drop {iterator : ResponseIterator} {index : ℕ} {field : Header}
    (obj : iterator.obj = some response) (state : iterator.state = .headers)
    (position : iterator.headersIter = some index)
    (found : response.headers.fields[index]? = some field)
    (current : iterator.current = some field) :
    iteration.Yields atEnd iterator (response.headers.fields.drop index) := by
  obtain ⟨within, here⟩ := List.getElem?_eq_some_iff.mp found
  have notDone : iterator.state ≠ .done := by
    rw [state]
    exact ResponseIteratorState.noConfusion
  have inside : ¬response.headers.length ≤ index := Nat.not_le.mpr within
  have notEnd : index ≠ response.headers.length := Nat.ne_of_lt within
  rw [List.drop_eq_getElem_cons within, here]
  cases following : response.headers.fields[index + 1]? with
  | none =>
    rw [List.drop_of_length_le (List.getElem?_eq_none_iff.mp following)]
    have advanced : iterator.advance =
        some (finish { iterator with headersIter := some (index + 1) }) := by
      simp [advance, updateCurrent, updateHeaders, state, position, obj, notEnd, inside, following]
    exact .cons (not_equals_atEnd _ notDone) current advanced (.nil (equals_atEnd _ rfl))
  | some second =>
    let next : ResponseIterator :=
      { iterator with current := some second, headersIter := some (index + 1) }
    have advanced : iterator.advance = some next := by
      simp [advance, updateCurrent, updateHeaders, state, position, obj, notEnd, inside, following,
        next]
    exact .cons (not_equals_atEnd _ notDone) current advanced
      (yields_drop obj state rfl following rfl)
termination_by response.headers.fields.length - index

theorem yields_headers (iterator : ResponseIterator) (obj : iterator.obj = some response)
    (state : iterator.state = .status) (position : iterator.headersIter = none) :
    ∃ next, iterator.advance = some next ∧
      iteration.Yields atEnd next response.headers.fields := by
  cases fields : response.headers.fields with
  | nil =>
    refine ⟨finish { iterator with state := .headers }, ?_, .nil (equals_atEnd _ rfl)⟩
    simp [advance, ResponseIteratorState.next, updateCurrent, updateHeaders, state, obj, position,
      fields]
  | cons field rest =>
    have found : response.headers.fields[0]? = some field := by
      rw [fields]
      rfl
    let next : ResponseIterator :=
      { iterator with state := .headers, current := some field, headersIter := some 0 }
    have yields : iteration.Yields atEnd next (response.headers.fields.drop 0) :=
      yields_drop obj rfl rfl found rfl
    rw [List.drop_zero, fields] at yields
    refine ⟨next, ?_, yields⟩
    simp [advance, ResponseIteratorState.next, updateCurrent, updateHeaders, state, obj, position,
      found, next]

theorem yields_response (response : Response) :
    ∃ first, response.beginIterator = some first ∧
      iteration.Yields atEnd first
        (⟨pseudoHeaderNameStatus, response.statusString⟩ :: response.headers.fields) := by
  let first : ResponseIterator :=
    { obj := some response, state := .status,
      current := some ⟨pseudoHeaderNameStatus, response.statusString⟩ }
  obtain ⟨next, advanced, later⟩ := yields_headers first rfl rfl rfl
  have notDone : first.state ≠ .done := ResponseIteratorState.noConfusion
  exact ⟨first, rfl, .cons (not_equals_atEnd first notDone) rfl advanced later⟩

end ResponseIterator

/-! ### The status and the setters -/

/-- The version is above HTTP/1.1. -/
def Response.AboveHttp11 (response : Response) : Prop := http11.code < response.version.code

instance (response : Response) : Decidable response.AboveHttp11 :=
  inferInstanceAs (Decidable (http11.code < response.version.code))

/-- The status string is the decimal form of the status code. -/
def Response.InStep (response : Response) : Prop :=
  response.statusString = formatInt response.statusCode

/-- If the version is above HTTP/1.1, a loop over the response yields the decimal form of the status
code as `:status`, then the headers, and ends. -/
def Response.StatusShown (response : Response) : Prop :=
  response.AboveHttp11 →
    ∃ first last, response.beginIterator = some first ∧ Response.endIterator = some last ∧
      ∀ rounds, response.headers.fields.length + 1 < rounds →
        ResponseIterator.iteration.collect last rounds first =
          some (⟨pseudoHeaderNameStatus, formatInt response.statusCode⟩ :: response.headers.fields)

theorem statusShown_iff (response : Response) :
    response.StatusShown ↔ (response.AboveHttp11 → response.InStep) := by
  obtain ⟨first, begins, yields⟩ := ResponseIterator.yields_response response
  have collected : ∀ rounds, response.headers.fields.length + 1 < rounds →
      ResponseIterator.iteration.collect ResponseIterator.atEnd rounds first =
        some (⟨pseudoHeaderNameStatus, response.statusString⟩ :: response.headers.fields) :=
    fun rounds enough => Iteration.collect_of_yields yields enough
  refine ⟨fun shown above => ?_, fun inStep above => ?_⟩
  · obtain ⟨other, last, otherBegins, ends, collects⟩ := shown above
    obtain rfl := Option.some.inj (begins.symm.trans otherBegins)
    obtain rfl : ResponseIterator.atEnd = last := Option.some.inj ends
    have enough := Nat.lt_succ_self (response.headers.fields.length + 1)
    have same := (collected _ enough).symm.trans (collects _ enough)
    exact congrArg Header.value (List.cons.inj (Option.some.inj same)).1
  · refine ⟨first, ResponseIterator.atEnd, begins, rfl, fun rounds enough => ?_⟩
    rw [collected rounds enough, inStep above]

/-- The constructors of a response that is not a copy of another one. -/
inductive ResponseConstructor where
  | ofVersion (version : Version)
  | ofStatusCode (version : Version) (statusCode : Int)

/-- The response a constructor makes. -/
def ResponseConstructor.response : ResponseConstructor → Response
  | .ofVersion version => { version }
  | .ofStatusCode version statusCode => Response.make version statusCode

/-- What is changed in a response. -/
inductive Setter where
  | version (version : Version)
  | statusCode (statusCode : Int)
  | statusString (statusString : Bytes)
  | headers (headers : Headers)

/-- A setter is called, which always has a result. -/
def setterStep (response : Response) : Setter → Option Response
  | .version version => some (response.setVersion version)
  | .statusCode statusCode => some (response.setStatusCode statusCode)
  | .statusString statusString => some (response.setStatusString statusString)
  | .headers headers => some { response with headers }

theorem setterStep_defined (response : Response) (setter : Setter) :
    ∃ next, setterStep response setter = some next := by
  cases setter with
  | version version => exact ⟨_, rfl⟩
  | statusCode statusCode => exact ⟨_, rfl⟩
  | statusString statusString => exact ⟨_, rfl⟩
  | headers headers => exact ⟨_, rfl⟩

/-- A call that leaves the status string in step, or the version at most HTTP/1.1: the version is
not raised while the string is another text, and above HTTP/1.1 the string is not set to one. -/
def KeepsStep (response : Response) : Setter → Prop
  | .version version => (response.setVersion version).AboveHttp11 → response.InStep
  | .statusCode _ => True
  | .statusString statusString =>
    response.AboveHttp11 → statusString = formatInt response.statusCode
  | .headers _ => True

theorem setStatusCode_inStep (response : Response) (statusCode : Int)
    (above : (response.setStatusCode statusCode).AboveHttp11) :
    (response.setStatusCode statusCode).InStep := if_pos above

/-- A setter leaves the string in step or the version low exactly if its call is one of those. -/
theorem setterStep_inStep_iff (response : Response)
    (before : response.AboveHttp11 → response.InStep) (setter : Setter) {next : Response}
    (set : setterStep response setter = some next) :
    (next.AboveHttp11 → next.InStep) ↔ KeepsStep response setter := by
  cases setter with
  | version version =>
    cases set
    exact Iff.rfl
  | statusCode statusCode =>
    cases set
    exact iff_of_true (setStatusCode_inStep response statusCode) trivial
  | statusString statusString =>
    cases set
    exact Iff.rfl
  | headers headers =>
    cases set
    exact iff_of_true before trivial

/-- A constructor with a status code writes the string; one without leaves it empty. -/
theorem constructed_inStep_iff (constructor : ResponseConstructor) :
    (constructor.response.AboveHttp11 → constructor.response.InStep) ↔
      ∀ version, constructor = .ofVersion version → ¬http11.code < version.code := by
  cases constructor with
  | ofVersion version =>
    have empty : ∀ code, ([] : Bytes) ≠ formatInt code := by
      intro code
      cases code with
      | ofNat number => exact (formatNat_ne_nil 10 number).symm
      | negSucc number => exact (List.cons_ne_nil _ _).symm
    constructor
    · rintro inStep other same above
      cases same
      exact empty _ (inStep above)
    · intro low above
      exact absurd above (low version rfl)
  | ofStatusCode version statusCode =>
    refine iff_of_true (fun above => if_pos above) fun other impossible => ?_
    cases impossible

/-- For every constructor and every sequence of setter calls: `:status` is the decimal form of the
status code whenever the version is above HTTP/1.1, exactly when the response was not constructed
from such a version alone, no call raises the version above HTTP/1.1 while the status string is
another text, and no call sets the string to another text above HTTP/1.1. -/
theorem statusShown_throughout_iff (constructor : ResponseConstructor) (setters : List Setter) :
    (∀ count, ∃ response, run setterStep constructor.response (setters.take count) = some response ∧
      response.StatusShown) ↔
      (∀ version, constructor = .ofVersion version → ¬http11.code < version.code) ∧
        Along setterStep KeepsStep constructor.response setters := by
  rw [← constructed_inStep_iff]
  have shows : ∀ response : Response, (response.AboveHttp11 → response.InStep) →
      response.StatusShown := fun response => (statusShown_iff response).mpr
  have keeps : ∀ (response : Response) (setter : Setter),
      (response.AboveHttp11 → response.InStep) → True → KeepsStep response setter →
      ∃ next, setterStep response setter = some next ∧ (next.AboveHttp11 → next.InStep) := by
    intro response setter before _ kept
    obtain ⟨next, set⟩ := setterStep_defined response setter
    exact ⟨next, set, (setterStep_inStep_iff response before setter set).mpr kept⟩
  have breaks : ∀ (response : Response) (setter : Setter) (next : Response),
      (response.AboveHttp11 → response.InStep) → True → ¬KeepsStep response setter →
      setterStep response setter = some next → ¬next.StatusShown := by
    intro response setter next before _ broken set shown
    exact broken ((setterStep_inStep_iff response before setter set).mp
      ((statusShown_iff next).mp shown))
  have throughout := fun start => run_throughout_iff shows keeps breaks start
    (.of_forall (fun _ _ => trivial) constructor.response setters)
  constructor
  · intro always
    obtain ⟨response, ran, shown⟩ := always 0
    cases ran
    have start := (statusShown_iff _).mp shown
    exact ⟨start, (throughout start).mp always⟩
  · rintro ⟨start, keeps⟩
    exact (throughout start).mpr keeps

/-- A response that is made for HTTP/2 without a code yields an empty `:status` although its code is
200, and one that is given a reason phrase yields that. -/
theorem statusString_yielded :
    (∃ response first last,
      run setterStep (ResponseConstructor.ofVersion http20).response [] = some response ∧
      response.statusCode = 200 ∧ response.beginIterator = some first ∧
      Response.endIterator = some last ∧
      ResponseIterator.iteration.collect last 2 first = some [⟨pseudoHeaderNameStatus, []⟩]) ∧
    ∃ response first last,
      run setterStep (ResponseConstructor.ofStatusCode http20 200).response
        [.statusString (ascii "OK")] = some response ∧
      response.statusCode = 200 ∧ response.beginIterator = some first ∧
      Response.endIterator = some last ∧
      ResponseIterator.iteration.collect last 2 first =
        some [⟨pseudoHeaderNameStatus, ascii "OK"⟩] :=
  ⟨⟨_, _, _, rfl, rfl, rfl, rfl, rfl⟩, ⟨_, _, _, rfl, rfl, rfl, rfl, rfl⟩⟩

/-- The code is changed above HTTP/1.1, and the string only below. -/
theorem statusShown_throughout_iff_changed :
    ∀ count, ∃ response,
      run setterStep (ResponseConstructor.ofStatusCode http20 200).response
        ([.statusCode 404, .version http11, .statusString (ascii "Not Found")].take count) =
        some response ∧ response.StatusShown := by
  refine (statusShown_throughout_iff _ _).mpr ⟨fun version impossible => ?_, ?_⟩
  · cases impossible
  · refine .cons rfl trivial (.cons rfl (fun above => ?_) (.cons rfl (fun above => ?_) trivial))
    · exact absurd above (by decide)
    · exact absurd above (by decide)

end NativeLibs.Http
