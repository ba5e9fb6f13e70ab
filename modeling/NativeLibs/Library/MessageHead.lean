/-
This file is the project's library on the head of an HTTP/1 message: a reference
parser that takes a start line, the field lines up to an empty one, and returns
what follows them. Lines are read as in the chunked coding, so a line end is a
carriage return with a line feed and nothing else. The start line is a request
line, three parts between single spaces, or a status line, whose last part may be
missing and may contain spaces.
-/

import NativeLibs.Library.Chunked

namespace NativeLibs.Library.MessageHead

open Chunked

/-! ### The parser -/

/-- The head of a message and what follows it. -/
structure Head where
  startLine : List UInt8
  fields : List (List UInt8 × List UInt8)
  rest : List UInt8
  deriving DecidableEq

/-- The names and values of field lines. -/
def fieldsOf : List (List UInt8) → Option (List (List UInt8 × List UInt8))
  | [] => some []
  | line :: others =>
    (fieldOf line).bind fun field => (fieldsOf others).map fun fields => field :: fields

/-- The head at the start of the input. -/
def parse (input : List UInt8) : Option Head :=
  (takeLine input).bind fun (startLine, after) =>
    (trailerLines input.length after).bind fun (lines, rest) =>
      (fieldsOf lines).map fun fields => ⟨startLine, fields, rest⟩

/-- The parts of a request line. -/
structure RequestLine where
  method : List UInt8
  target : List UInt8
  version : List UInt8
  deriving DecidableEq

/-- A request line has three parts, and the first two are not empty. -/
def requestLine (line : List UInt8) : Option RequestLine :=
  match line.splitOn 32 with
  | [method, target, version] =>
    if method = [] ∨ target = [] then none else some ⟨method, target, version⟩
  | _ => none

/-- The parts of a status line. -/
structure StatusLine where
  version : List UInt8
  statusCode : List UInt8
  reason : List UInt8
  deriving DecidableEq

/-- A status line has a version and a status code, and may have a reason phrase. -/
def statusLine (line : List UInt8) : Option StatusLine :=
  match line.dropWhile (· != 32) with
  | [] => none
  | _ :: rest =>
    some ⟨line.takeWhile (· != 32), rest.takeWhile (· != 32), (rest.dropWhile (· != 32)).tail⟩

/-! ### Reading what is written -/

/-- A field on the wire. -/
def fieldLine (field : List UInt8 × List UInt8) : List UInt8 := field.1 ++ ([58, 32] ++ field.2)

/-- A head on the wire: each line with its end, and an empty line. -/
def headBytes (startLine : List UInt8) (fields : List (List UInt8 × List UInt8)) : List UInt8 :=
  startLine ++ (lineEnd ++ trailerBytes (fields.map fieldLine))

/-- A field that can be written on a line. -/
structure WritableField (field : List UInt8 × List UInt8) : Prop where
  plain : PlainField field.1 field.2
  cleanName : CleanLine field.1
  cleanValue : CleanLine field.2

theorem WritableField.cleanLine {field : List UInt8 × List UInt8} (writable : WritableField field) :
    CleanLine (fieldLine field) := by
  have separator : CleanLine [58, 32] := by decide
  exact cleanLine_append writable.cleanName (cleanLine_append separator writable.cleanValue)

theorem fieldLine_ne_nil (field : List UInt8 × List UInt8) : fieldLine field ≠ [] := by
  rw [fieldLine]
  exact List.append_ne_nil_of_right_ne_nil _ (List.cons_ne_nil _ _)

theorem fieldsOf_map_fieldLine {fields : List (List UInt8 × List UInt8)}
    (writable : ∀ field ∈ fields, WritableField field) :
    fieldsOf (fields.map fieldLine) = some fields := by
  induction fields with
  | nil => rfl
  | cons field rest inductionHypothesis =>
    rw [List.forall_mem_cons] at writable
    rw [List.map_cons, fieldsOf, fieldLine, fieldOf_plain writable.1.plain, Option.bind_some,
      inductionHypothesis writable.2, Option.map_some]

theorem parse_headBytes {startLine : List UInt8} (clean : CleanLine startLine)
    {fields : List (List UInt8 × List UInt8)} (writable : ∀ field ∈ fields, WritableField field)
    (rest : List UInt8) :
    parse (headBytes startLine fields ++ rest) = some ⟨startLine, fields, rest⟩ := by
  have apart : headBytes startLine fields ++ rest =
      startLine ++ (lineEnd ++ (trailerBytes (fields.map fieldLine) ++ rest)) := by
    simp only [headBytes, List.append_assoc]
  have cleanLines : ∀ line ∈ fields.map fieldLine, CleanLine line := by
    rw [List.forall_mem_map]
    exact fun field member => (writable field member).cleanLine
  have filledLines : ∀ line ∈ fields.map fieldLine, line ≠ [] := by
    rw [List.forall_mem_map]
    exact fun field _ => fieldLine_ne_nil field
  have enough : (fields.map fieldLine).length < (headBytes startLine fields ++ rest).length := by
    have longer := length_lt_trailerBytes (fields.map fieldLine)
    rw [apart]
    simp only [List.length_append]
    omega
  rw [parse, apart, takeLine_append clean, Option.bind_some]
  simp only [← apart, trailerLines_append cleanLines filledLines rest enough, Option.bind_some,
    fieldsOf_map_fieldLine writable, Option.map_some]

theorem cleanLine_of_parse {input : List UInt8} {head : Head} (parsed : parse input = some head) :
    CleanLine head.startLine := by
  obtain ⟨⟨line, after⟩, taken, parsed⟩ := Option.bind_eq_some_iff.mp parsed
  obtain ⟨⟨lines, rest⟩, -, parsed⟩ := Option.bind_eq_some_iff.mp parsed
  obtain ⟨fields, -, rfl⟩ := Option.map_eq_some_iff.mp parsed
  simp only [takeLine] at taken
  split at taken
  · cases taken
  · rename_i noLineFeed
    obtain ⟨found, -, pair⟩ := Option.map_eq_some_iff.mp taken
    obtain ⟨rfl, -⟩ := Prod.mk.inj pair
    refine ⟨fun member => ?_, noLineFeed⟩
    exact absurd (List.mem_takeWhile_imp member) (by decide)

/-! ### Start lines -/

theorem requestLine_join {method target version : List UInt8} (methodFilled : method ≠ [])
    (targetFilled : target ≠ []) (noSpace : 32 ∉ method ∧ 32 ∉ target ∧ 32 ∉ version) :
    requestLine (method ++ ([32] ++ (target ++ ([32] ++ version)))) =
      some ⟨method, target, version⟩ := by
  have joined : method ++ ([32] ++ (target ++ ([32] ++ version))) =
      [32].intercalate [method, target, version] := by
    simp [List.intercalate]
  have parts : ([32].intercalate [method, target, version]).splitOn 32 =
      [method, target, version] := by
    refine List.splitOn_intercalate 32 (fun part member => ?_) (List.cons_ne_nil _ _)
    simp only [List.mem_cons, List.not_mem_nil, or_false] at member
    rcases member with rfl | rfl | rfl
    · exact noSpace.1
    · exact noSpace.2.1
    · exact noSpace.2.2
  rw [requestLine, joined, parts]
  exact if_neg (not_or.mpr ⟨methodFilled, targetFilled⟩)

theorem of_requestLine {line : List UInt8} {parts : RequestLine}
    (read : requestLine line = some parts) :
    line = parts.method ++ ([32] ++ (parts.target ++ ([32] ++ parts.version))) := by
  rw [requestLine] at read
  split at read
  · rename_i method target version split
    split at read
    · cases read
    · cases read
      have whole : [32].intercalate (line.splitOn 32) = line := List.intercalate_splitOn 32
      rw [split] at whole
      rw [← whole]
      simp [List.intercalate]
  · cases read

theorem statusLine_join {version statusCode : List UInt8} (noSpace : 32 ∉ version ∧ 32 ∉ statusCode)
    (reason : List UInt8) :
    statusLine (version ++ ([32] ++ (statusCode ++ if reason = [] then [] else [32] ++ reason))) =
      some ⟨version, statusCode, reason⟩ := by
  have unequal : ∀ part : List UInt8, 32 ∉ part → ∀ byte ∈ part, (byte != 32) = true := by
    intro part absent byte member
    refine bne_iff_ne.mpr fun same => absent ?_
    rwa [same] at member
  have inVersion := unequal version noSpace.1
  have inCode := unequal statusCode noSpace.2
  rw [statusLine, List.dropWhile_append_of_pos inVersion, List.takeWhile_append_of_pos inVersion]
  by_cases empty : reason = []
  · simp [empty, List.takeWhile_eq_self_iff.mpr inCode, List.dropWhile_eq_nil_iff.mpr inCode]
  · simp [empty, List.takeWhile_append_of_pos inCode, List.dropWhile_append_of_pos inCode]

end NativeLibs.Library.MessageHead
