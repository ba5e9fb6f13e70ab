/-
This file embeds the lookups of `Headers` that go by a name: `contains`, `remove`,
and the iterator over the values of one header, through which a header can be
erased. Lookup and enumeration ignore the case of letters. `remove` does not, so
it agrees with them exactly when every header the name finds is spelled like it.

An iterator is an index into the header list, and the length is its end. What the
source may not do, dereference the end or move beyond it, has no result. The list
an iterator belongs to is an argument: after an erasure it is the new list, and
only the iterator `erase` returns is used with it.
-/

import NativeLibs.Http.Message
import NativeLibs.Library.Cursor
import NativeLibs.Library.Iteration

namespace NativeLibs.Http

open Library

/-! ### Lookups -/

/-- `Headers::contains`. -/
def Headers.contains (headers : Headers) (name : Bytes) : Bool := (headers.get name).isSome

/-- `Headers::remove`, with the number of headers that were removed. -/
def Headers.remove (headers : Headers) (name : Bytes) : ℕ × Headers :=
  let kept := headers.fields.filter fun field => !(field.name == name)
  (headers.length - kept.length, { headers with fields := kept })

/-! ### The iterator -/

/-- `Headers::ValueIterator`. -/
structure ValueIterator where
  current : ℕ
  last : ℕ
  name : Bytes
  value : Option Bytes := none
  deriving DecidableEq

namespace ValueIterator

/-- The condition of the loop in `operator++` and its increment, from a position on behind which
these headers are left. -/
def skip (last : ℕ) (name : Bytes) : ℕ → List Header → Option ℕ
  | position, [] => if position = last then some position else none
  | position, field :: rest =>
    if position ≠ last ∧ iequals field.name name = false then skip last name (position + 1) rest
    else some position

/-- `Headers::ValueIterator::operator++`. -/
def advance (headers : Headers) (iterator : ValueIterator) : Option ValueIterator :=
  if headers.length ≤ iterator.current then none
  else do
    let first := iterator.current + 1
    let current ← skip iterator.last iterator.name first (headers.fields.drop first)
    if current ≠ iterator.last then
      let field ← headers.fields[current]?
      return { iterator with current, value := some field.value }
    else return { iterator with current, value := none }

/-- The constructor of `Headers::ValueIterator`. -/
def make (headers : Headers) (first last : ℕ) (name : Bytes) : Option ValueIterator :=
  let iterator : ValueIterator := { current := first, last, name }
  if iterator.current ≠ iterator.last then do
    let field ← headers.fields[iterator.current]?
    if iequals field.name iterator.name then
      return { iterator with value := some field.value }
    else iterator.advance headers
  else some iterator

/-- A loop over values compares the positions of iterators. -/
def iteration (headers : Headers) : Iteration ValueIterator Bytes where
  equals left right := left.current = right.current
  current := ValueIterator.value
  advance := advance headers

end ValueIterator

namespace Headers

/-- `Headers::value_range`. -/
def valueRange (headers : Headers) (name : Bytes) : Option (ValueIterator × ValueIterator) := do
  let first ← ValueIterator.make headers 0 headers.length name
  let last ← ValueIterator.make headers headers.length headers.length name
  return (first, last)

/-- The values a loop over `value_range` enumerates. -/
def values (headers : Headers) (name : Bytes) : Option (List Bytes) := do
  let (first, last) ← headers.valueRange name
  (ValueIterator.iteration headers).collect last (headers.length + 1) first

/-- `Headers::erase` of a `ValueIterator`. -/
def eraseValue (headers : Headers) (iterator : ValueIterator) : Option (Headers × ValueIterator) :=
  if headers.length ≤ iterator.current then none
  else
    let erased := { headers with fields := headers.fields.eraseIdx iterator.current }
    (ValueIterator.make erased iterator.current erased.length iterator.name).map fun next =>
      (erased, next)

end Headers

/-! ### Where the iterator stands -/

/-- The header is found under a name. -/
def Header.hasName (name : Bytes) (field : Header) : Bool := iequals field.name name

/-- An iterator over the values of a name stands where a cursor stands. -/
structure Stands (name : Bytes) (headers : Headers) (iterator : ValueIterator)
    (cursor : Cursor Header) : Prop where
  fields : headers.fields = cursor.elements
  current : iterator.current = cursor.behind.length
  last : iterator.last = headers.length
  named : iterator.name = name
  value : iterator.value = cursor.ahead.head?.map Header.value

section

variable {name : Bytes} {headers : Headers}

theorem length_of_fields {behind ahead : List Header} (fields : headers.fields = behind ++ ahead) :
    headers.length = behind.length + ahead.length := by
  rw [Headers.length, fields, List.length_append]

theorem getElem?_behind {behind ahead : List Header} (fields : headers.fields = behind ++ ahead) :
    headers.fields[behind.length]? = ahead.head? := by
  rw [fields, List.getElem?_append_right le_rfl, Nat.sub_self, List.head?_eq_getElem?]

/-- The loop stops where a cursor stops. -/
theorem skip_eq (behind ahead : List Header) :
    ValueIterator.skip (behind.length + ahead.length) name behind.length ahead =
      some (Cursor.settle (Header.hasName name) ⟨behind, ahead⟩).behind.length := by
  induction ahead generalizing behind with
  | nil => simp [ValueIterator.skip, Cursor.settle]
  | cons field rest inductionHypothesis =>
    have inside : behind.length ≠ behind.length + (field :: rest).length := by
      rw [List.length_cons]
      omega
    by_cases found : iequals field.name name = true
    · rw [Cursor.settle_of_stop _ behind rest found, ValueIterator.skip,
        if_neg fun goesOn => Bool.false_ne_true (goesOn.2.symm.trans found)]
    · have passes : iequals field.name name = false := Bool.eq_false_iff.mpr found
      have later := inductionHypothesis (behind ++ [field])
      rw [List.length_append, List.length_singleton] at later
      rw [Cursor.settle_of_pass _ behind rest passes, ValueIterator.skip,
        if_pos ⟨inside, passes⟩, List.length_cons, ← later]
      congr 1
      omega

/-- `operator++` leaves the header it is at behind. -/
theorem stands_advance {iterator : ValueIterator} {behind : List Header} {field : Header}
    {rest : List Header} (fields : headers.fields = behind ++ field :: rest)
    (current : iterator.current = behind.length) (last : iterator.last = headers.length)
    (named : iterator.name = name) :
    ∃ next, iterator.advance headers = some next ∧
      Stands name headers next (Cursor.settle (Header.hasName name) ⟨behind ++ [field], rest⟩) := by
  have split : headers.fields = behind ++ [field] ++ rest := by
    rw [fields, List.append_assoc, List.singleton_append]
  have length := length_of_fields split
  have inside : ¬headers.length ≤ iterator.current := by
    rw [length, current, List.length_append, List.length_singleton]
    omega
  have behindLength : iterator.current + 1 = (behind ++ [field]).length := by
    rw [current, List.length_append, List.length_singleton]
  obtain ⟨target, settled⟩ : ∃ target,
      Cursor.settle (Header.hasName name) ⟨behind ++ [field], rest⟩ = target := ⟨_, rfl⟩
  have elements : headers.fields = target.elements := by
    rw [← settled, Cursor.elements_settle]
    exact split
  have skipped : ValueIterator.skip iterator.last iterator.name (iterator.current + 1)
      (headers.fields.drop (iterator.current + 1)) = some target.behind.length := by
    rw [behindLength, split, List.drop_left, last, named, length, skip_eq, settled]
  have targetLength := length_of_fields elements
  rw [settled, ValueIterator.advance, if_neg inside]
  simp only [skipped, Option.bind_eq_bind, Option.bind_some, getElem?_behind elements]
  cases ahead : target.ahead with
  | nil =>
    have atEnd : target.behind.length = iterator.last := by
      rw [last, targetLength, ahead, List.length_nil, Nat.add_zero]
    rw [if_neg (not_not.mpr atEnd)]
    exact ⟨_, rfl, elements, rfl, last, named, by rw [ahead]; rfl⟩
  | cons next others =>
    have notEnd : target.behind.length ≠ iterator.last := by
      rw [last, targetLength, ahead, List.length_cons]
      omega
    rw [if_pos notEnd]
    exact ⟨_, rfl, elements, rfl, last, named, by rw [ahead]; rfl⟩

theorem stands_make (name : Bytes) {behind ahead : List Header}
    (fields : headers.fields = behind ++ ahead) :
    ∃ iterator, ValueIterator.make headers behind.length headers.length name = some iterator ∧
      Stands name headers iterator (Cursor.settle (Header.hasName name) ⟨behind, ahead⟩) := by
  have length := length_of_fields fields
  cases ahead with
  | nil =>
    have atEnd : behind.length = headers.length := by rw [length, List.length_nil, Nat.add_zero]
    refine ⟨_, if_neg (not_not.mpr atEnd), ?_⟩
    rw [Cursor.settle]
    simp only [List.takeWhile_nil, List.dropWhile_nil, List.append_nil]
    exact ⟨fields, rfl, rfl, rfl, rfl⟩
  | cons field rest =>
    have notEnd : behind.length ≠ headers.length := by
      rw [length, List.length_cons]
      omega
    have here := getElem?_behind fields
    rw [List.head?_cons] at here
    simp only [ValueIterator.make, if_pos notEnd, here, Option.bind_eq_bind, Option.bind_some]
    by_cases found : iequals field.name name = true
    · rw [if_pos found, Cursor.settle_of_stop _ behind rest found]
      exact ⟨_, rfl, fields, rfl, rfl, rfl, rfl⟩
    · have passes : iequals field.name name = false := Bool.eq_false_iff.mpr found
      rw [if_neg found, Cursor.settle_of_pass _ behind rest passes]
      exact stands_advance fields rfl rfl rfl

/-- `erase` takes out the header the iterator is at and goes on from there. -/
theorem stands_eraseValue {iterator : ValueIterator} {behind : List Header} {field : Header}
    {rest : List Header} (fields : headers.fields = behind ++ field :: rest)
    (current : iterator.current = behind.length) (named : iterator.name = name) :
    ∃ next, headers.eraseValue iterator = some ({ headers with fields := behind ++ rest }, next) ∧
      Stands name { headers with fields := behind ++ rest } next
        (Cursor.settle (Header.hasName name) ⟨behind, rest⟩) := by
  have inside : ¬headers.length ≤ iterator.current := by
    rw [length_of_fields fields, current, List.length_cons]
    omega
  have erased : headers.fields.eraseIdx iterator.current = behind ++ rest := by
    rw [fields, current, List.eraseIdx_append_of_length_le le_rfl, Nat.sub_self,
      List.eraseIdx_cons_zero]
  have split : ({ headers with fields := behind ++ rest } : Headers).fields = behind ++ rest := rfl
  obtain ⟨next, made, stands⟩ := stands_make name split
  refine ⟨next, ?_, stands⟩
  simp only [Headers.eraseValue, if_neg inside, erased]
  rw [current, named, made, Option.map_some]

end

/-! ### What is enumerated -/

/-- The headers that are found under a name, in order. -/
def Headers.found (headers : Headers) (name : Bytes) : List Header :=
  headers.fields.filter (Header.hasName name)

section

variable {name : Bytes} {headers : Headers}

/-- An iterator yields the values of the headers ahead of it that have the name. -/
theorem yields_of_stands {last : ValueIterator} (atEnd : last.current = headers.length)
    {behind ahead : List Header} (fields : headers.fields = behind ++ ahead)
    {iterator : ValueIterator}
    (stands : Stands name headers iterator
      (Cursor.settle (Header.hasName name) ⟨behind, ahead⟩)) :
    (ValueIterator.iteration headers).Yields last iterator
      ((ahead.filter (Header.hasName name)).map Header.value) := by
  induction ahead generalizing behind iterator with
  | nil =>
    have current : iterator.current = behind.length := by
      rw [stands.current, Cursor.settle, List.takeWhile_nil, List.append_nil]
    have length := length_of_fields fields
    rw [List.length_nil, Nat.add_zero] at length
    exact .nil (decide_eq_true (current.trans (length.symm.trans atEnd.symm)))
  | cons field rest inductionHypothesis =>
    have split : headers.fields = behind ++ [field] ++ rest := by
      rw [fields, List.append_assoc, List.singleton_append]
    by_cases found : Header.hasName name field = true
    · rw [Cursor.settle_of_stop _ behind rest found] at stands
      rw [List.filter_cons_of_pos found, List.map_cons]
      have current : iterator.current = behind.length := stands.current
      have inside : iterator.current ≠ last.current := by
        rw [current, atEnd, length_of_fields fields, List.length_cons]
        omega
      obtain ⟨next, advanced, later⟩ := stands_advance fields current stands.last stands.named
      exact .cons (decide_eq_false inside) stands.value advanced (inductionHypothesis split later)
    · rw [Cursor.settle_of_pass _ behind rest (Bool.eq_false_iff.mpr found)] at stands
      rw [List.filter_cons_of_neg found]
      exact inductionHypothesis split stands

/-- The range over the values of a name begins at the first header that has it and ends at the end
of the list. -/
theorem valueRange_eq (headers : Headers) (name : Bytes) :
    ∃ first last, headers.valueRange name = some (first, last) ∧ last.current = headers.length ∧
      Stands name headers first (Cursor.settle (Header.hasName name) ⟨[], headers.fields⟩) := by
  obtain ⟨first, madeFirst, stands⟩ := stands_make name (List.nil_append headers.fields).symm
  have madeLast : ValueIterator.make headers headers.length headers.length name =
      some ⟨headers.length, headers.length, name, none⟩ := if_neg (not_not.mpr rfl)
  refine ⟨first, ⟨headers.length, headers.length, name, none⟩, ?_, rfl, stands⟩
  rw [List.length_nil] at madeFirst
  rw [Headers.valueRange, madeFirst, madeLast]
  rfl

theorem values_eq (headers : Headers) (name : Bytes) :
    headers.values name = some ((headers.found name).map Header.value) := by
  obtain ⟨first, last, range, atEnd, stands⟩ := valueRange_eq headers name
  have yields := yields_of_stands atEnd (List.nil_append headers.fields).symm stands
  have enough : ((headers.found name).map Header.value).length < headers.length + 1 := by
    rw [List.length_map]
    exact Nat.lt_succ_of_le (List.length_filter_le _ _)
  rw [Headers.values, range]
  exact Iteration.collect_of_yields yields enough

theorem get_eq_head (headers : Headers) (name : Bytes) :
    headers.get name = ((headers.found name).map Header.value).head? := by
  rw [List.head?_map, Headers.found, List.head?_filter]
  rfl

end

/-! ### Removal by name -/

/-- Removal does what lookup and enumeration suggest. -/
structure RemoveAgrees (headers : Headers) (name : Bytes) : Prop where
  gone : (headers.remove name).2.contains name = false
  counted : ∃ values, headers.values name = some values ∧
    (headers.remove name).1 = values.length
  kept : (headers.remove name).2.fields =
    headers.fields.filter fun field => !field.hasName name

theorem hasName_self (field : Header) : field.hasName field.name = true := beq_self_eq_true _

/-- For every header list and every name, `remove` agrees with lookup and enumeration exactly when
each header that the name finds is spelled like it. -/
theorem remove_agrees_iff (headers : Headers) (name : Bytes) :
    RemoveAgrees headers name ↔
      ∀ field ∈ headers.fields, field.hasName name = true → field.name = name := by
  constructor
  · intro agrees field member found
    by_contra differs
    have stays : field ∈ (headers.remove name).2.fields :=
      List.mem_filter.mpr ⟨member, by simpa using differs⟩
    have missing := agrees.gone
    rw [Headers.contains, Headers.get, Option.isSome_map, Option.isSome_eq_false_iff,
      Option.isNone_iff_eq_none, List.find?_eq_none] at missing
    exact missing field stays found
  · intro spelled
    have kept : (headers.fields.filter fun field => !(field.name == name)) =
        headers.fields.filter fun field => !field.hasName name := by
      refine List.filter_congr fun field member => congrArg (!·) ?_
      by_cases same : field.name = name
      · rw [← same, hasName_self, beq_self_eq_true]
      · have unfound : ¬field.hasName name = true := fun found => same (spelled field member found)
        rw [Bool.eq_false_iff.mpr unfound, beq_eq_false_iff_ne.mpr same]
    refine ⟨?_, ⟨_, values_eq headers name, ?_⟩, kept⟩
    · rw [Headers.contains, Headers.get, Option.isSome_map, Option.isSome_eq_false_iff,
        Option.isNone_iff_eq_none, List.find?_eq_none]
      intro field member found
      have stays : field ∈ headers.fields.filter fun field => !field.hasName name := kept ▸ member
      have unfound := (List.mem_filter.mp stays).2
      rw [show field.hasName name = true from found] at unfound
      exact Bool.false_ne_true unfound
    · have parts := List.length_eq_length_filter_add (l := headers.fields) (Header.hasName name)
      rw [Headers.remove, kept, List.length_map, Headers.found]
      exact Nat.sub_eq_of_eq_add parts

/-- A header list in which a name occurs in two spellings. -/
def twoSpellings : Headers := { fields := [⟨ascii "a", ascii "1"⟩, ⟨ascii "A", ascii "2"⟩] }

/-- `remove("a")` leaves the other spelling, and the name is still found. -/
theorem otherSpelling_stays :
    twoSpellings.values (ascii "a") = some [ascii "1", ascii "2"] ∧
      twoSpellings.remove (ascii "a") = (1, { fields := [⟨ascii "A", ascii "2"⟩] }) ∧
      (twoSpellings.remove (ascii "a")).2.contains (ascii "a") = true := by
  decide

/-- A name that occurs twice in its own spelling, next to another one. -/
theorem remove_agrees_iff_repeated :
    RemoveAgrees { fields := [⟨ascii "a", []⟩, ⟨ascii "b", []⟩, ⟨ascii "a", ascii "x"⟩] }
      (ascii "a") :=
  (remove_agrees_iff _ _).mpr (by decide)

/-! ### Erasing during a pass -/

/-- A header list, an iterator over it, and the values it has been at. -/
structure ErasingPass where
  headers : Headers
  iterator : ValueIterator
  visited : List Bytes := []

/-- One round of a loop that goes on until the end of the range, looks at the value and then erases
the header or moves on. -/
def erasingStep (pass : ErasingPass) (erases : Bool) : Option ErasingPass := do
  let (_, last) ← pass.headers.valueRange pass.iterator.name
  if (ValueIterator.iteration pass.headers).equals pass.iterator last then none
  let value ← pass.iterator.value
  let visited := pass.visited ++ [value]
  if erases then
    let (headers, iterator) ← pass.headers.eraseValue pass.iterator
    return { headers, iterator, visited }
  else
    let iterator ← pass.iterator.advance pass.headers
    return { pass with iterator, visited }

/-- A loop over the headers follows a pass of a cursor. -/
structure Follows (name : Bytes) (hasBody : Bool) (abstract : Cursor.Pass Header)
    (pass : ErasingPass) : Prop where
  stands : Stands name pass.headers pass.iterator abstract.cursor
  visited : pass.visited = abstract.visited.map Header.value
  hasBody : pass.headers.hasBody = hasBody

theorem erasingStep_follows (name : Bytes) (hasBody : Bool) (abstract : Cursor.Pass Header)
    (pass : ErasingPass) (erases : Bool) (follows : Follows name hasBody abstract pass)
    (defined : ∃ next, Cursor.passStep (Header.hasName name) abstract erases = some next) :
    ∃ next nextPass, Cursor.passStep (Header.hasName name) abstract erases = some next ∧
      erasingStep pass erases = some nextPass ∧ Follows name hasBody next nextPass := by
  obtain ⟨⟨⟨behind, ahead⟩, seen⟩, stands, visited, body⟩ := abstract, follows
  cases ahead with
  | nil =>
    obtain ⟨next, stepped⟩ := defined
    cases stepped
  | cons field rest =>
    have fields : pass.headers.fields = behind ++ field :: rest := stands.fields
    have current : pass.iterator.current = behind.length := stands.current
    obtain ⟨first, last, range, atEnd, -⟩ := valueRange_eq pass.headers pass.iterator.name
    have inside : ¬(ValueIterator.iteration pass.headers).equals pass.iterator last = true := by
      intro same
      have positions : pass.iterator.current = last.current := of_decide_eq_true same
      rw [current, atEnd, length_of_fields fields, List.length_cons] at positions
      omega
    have value : pass.iterator.value = some field.value := stands.value
    have looked : pass.visited ++ [field.value] = (seen ++ [field]).map Header.value := by
      rw [visited, List.map_append, List.map_singleton]
    cases erases with
    | true =>
      obtain ⟨iterator, erased, later⟩ := stands_eraseValue fields current stands.named
      refine ⟨_, ⟨_, iterator, pass.visited ++ [field.value]⟩, rfl, ?_, ⟨later, looked, body⟩⟩
      simp [erasingStep, range, inside, value, erased]
    | false =>
      obtain ⟨iterator, advanced, later⟩ := stands_advance fields current stands.last stands.named
      refine ⟨_, ⟨_, iterator, pass.visited ++ [field.value]⟩, rfl, ?_, ⟨later, looked, body⟩⟩
      simp [erasingStep, range, inside, value, advanced]

/-- Whatever is erased, one pass is at every header with the name once, in order, and leaves the
headers that were not erased. -/
theorem erasingPass_run (headers : Headers) (name : Bytes) (marked : List (Header × Bool))
    (marks : headers.fields = marked.map Prod.fst) :
    ∃ first last final, headers.valueRange name = some (first, last) ∧
      run erasingStep { headers, iterator := first }
        (Cursor.decisions (Header.hasName name) marked) = some final ∧
      final.visited = (headers.found name).map Header.value ∧
      final.headers =
        { headers with fields := Cursor.remaining (Header.hasName name) marked } ∧
      final.iterator.current = final.headers.length := by
  obtain ⟨first, last, range, -, stands⟩ := valueRange_eq headers name
  rw [marks] at stands
  have passed := Cursor.run_passStep (Header.hasName name) marked [] []
  have start : Follows name headers.hasBody
      ⟨Cursor.settle (Header.hasName name) ⟨[], marked.map Prod.fst⟩, []⟩
      { headers, iterator := first } := ⟨stands, rfl, rfl⟩
  obtain ⟨finalPass, final, ranPass, ran, follows⟩ :=
    run_simulation (erasingStep_follows name headers.hasBody) start (Along.of_run passed)
  obtain rfl := Option.some.inj (passed.symm.trans ranPass)
  have visits : Cursor.stopsOf (Header.hasName name) marked = headers.found name := by
    rw [Headers.found, marks, List.filter_map]
    rfl
  have fields : final.headers.fields = Cursor.remaining (Header.hasName name) marked :=
    follows.stands.fields.trans (List.append_nil _)
  refine ⟨first, last, final, range, ran, ?_, ?_, ?_⟩
  · rw [← visits]
    exact follows.visited
  · rw [← fields, ← follows.hasBody]
  · rw [follows.stands.current, Headers.length, fields, List.nil_append]

/-- For every header list and name: a loop over the range of values yields the values of exactly the
headers whose name is the same but for the case of letters, in order, and `get` is the first of
them. Erasing through an iterator takes out the header it is at and returns an iterator to the next
one with the name, or to the end. Whichever of these headers are erased during one pass, it is at
each of them once, in order, and leaves the others in order. -/
theorem headerValues_erasable (headers : Headers) (name : Bytes) :
    headers.values name = some ((headers.found name).map Header.value) ∧
      headers.get name = ((headers.found name).map Header.value).head? ∧
      (∀ (behind : List Header) (field : Header) (rest : List Header) (iterator : ValueIterator),
        headers.fields = behind ++ field :: rest → iterator.current = behind.length →
        iterator.name = name →
        ∃ next, headers.eraseValue iterator =
            some ({ headers with fields := behind ++ rest }, next) ∧
          next.current = behind.length + (rest.takeWhile fun other => !other.hasName name).length ∧
          next.last = (behind ++ rest).length ∧ next.name = name ∧
          next.value = (rest.find? (Header.hasName name)).map Header.value) ∧
      ∀ marked : List (Header × Bool), headers.fields = marked.map Prod.fst →
        ∃ first last final, headers.valueRange name = some (first, last) ∧
          run erasingStep { headers, iterator := first }
            (Cursor.decisions (Header.hasName name) marked) = some final ∧
          final.visited = (headers.found name).map Header.value ∧
          final.headers =
            { headers with fields := Cursor.remaining (Header.hasName name) marked } ∧
          final.iterator.current = final.headers.length := by
  refine ⟨values_eq headers name, get_eq_head headers name, ?_, erasingPass_run headers name⟩
  intro behind field rest iterator fields current named
  obtain ⟨next, erased, stands⟩ := stands_eraseValue fields current named
  refine ⟨next, erased, ?_, stands.last, stands.named, ?_⟩
  · rw [stands.current, Cursor.settle, List.length_append]
  · rw [stands.value, Cursor.head?_settle]

/-- The second of two headers is erased during a pass over both. -/
theorem headerValues_erasable_second :
    ∃ first last final, twoSpellings.valueRange (ascii "A") = some (first, last) ∧
      run erasingStep { headers := twoSpellings, iterator := first } [false, true] = some final ∧
      final.visited = [ascii "1", ascii "2"] ∧
      final.headers = { fields := [⟨ascii "a", ascii "1"⟩] } ∧ final.iterator.current = 1 := by
  obtain ⟨-, -, -, passes⟩ := headerValues_erasable twoSpellings (ascii "A")
  obtain ⟨first, last, final, range, ran, visited, left, atEnd⟩ :=
    passes [(⟨ascii "a", ascii "1"⟩, false), (⟨ascii "A", ascii "2"⟩, true)] rfl
  rw [left] at atEnd
  exact ⟨first, last, final, range, ran, visited, left, atEnd⟩

end NativeLibs.Http
