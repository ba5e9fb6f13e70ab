/-
This file is the project's library on the chunked transfer coding of HTTP/1.1: a
reference decoder for a body that is sent as a sequence of chunks, with what it
makes of a sequence of well-formed chunks. A chunk is a line with its size in
hexadecimal, optionally followed by an extension, and then its bytes and a line
end. A chunk of size zero is the last one; the lines of the trailer section
follow it, up to an empty line.

The decoder is strict about line ends and keeps the last chunk in its result, so
that it can be counted. What stands behind the body is returned as it is.
-/

import Mathlib.Data.List.DropRight
import Mathlib.Data.List.TakeWhile
import Mathlib.Tactic

namespace NativeLibs.Library.Chunked

/-! ### Lines -/

/-- Carriage return and line feed. -/
def lineEnd : List UInt8 := [13, 10]

/-- A line without the characters of a line end. -/
def CleanLine (line : List UInt8) : Prop := 13 ∉ line ∧ 10 ∉ line

instance (line : List UInt8) : Decidable (CleanLine line) :=
  inferInstanceAs (Decidable (13 ∉ line ∧ 10 ∉ line))

theorem cleanLine_append {first second : List UInt8} (one : CleanLine first)
    (two : CleanLine second) : CleanLine (first ++ second) := by
  constructor
  · rw [List.mem_append, not_or]
    exact ⟨one.1, two.1⟩
  · rw [List.mem_append, not_or]
    exact ⟨one.2, two.2⟩

/-- What follows a line end. -/
def afterLineEnd : List UInt8 → Option (List UInt8)
  | first :: second :: rest => if first = 13 ∧ second = 10 then some rest else none
  | _ => none

/-- The first line of the input and what follows its line end. -/
def takeLine (input : List UInt8) : Option (List UInt8 × List UInt8) :=
  let line := input.takeWhile (· != 13)
  if 10 ∈ line then none
  else (afterLineEnd (input.dropWhile (· != 13))).map fun rest => (line, rest)

theorem afterLineEnd_append (rest : List UInt8) : afterLineEnd (lineEnd ++ rest) = some rest := rfl

theorem takeLine_append {line : List UInt8} (clean : CleanLine line) (rest : List UInt8) :
    takeLine (line ++ (lineEnd ++ rest)) = some (line, rest) := by
  have inside : ∀ byte ∈ line, (byte != 13) = true := by
    intro byte member
    refine bne_iff_ne.mpr fun same => clean.1 ?_
    rwa [same] at member
  have front : (line ++ (lineEnd ++ rest)).takeWhile (· != 13) = line := by
    rw [List.takeWhile_append_of_pos inside]
    exact List.append_nil line
  have back : (line ++ (lineEnd ++ rest)).dropWhile (· != 13) = lineEnd ++ rest := by
    rw [List.dropWhile_append_of_pos inside]
    rfl
  simp only [takeLine, front, back, if_neg clean.2, afterLineEnd_append, Option.map_some]

theorem length_afterLineEnd {input rest : List UInt8} (found : afterLineEnd input = some rest) :
    input.length = rest.length + 2 := by
  match input with
  | [] => cases found
  | [_] => cases found
  | first :: second :: others =>
    rw [afterLineEnd] at found
    split at found
    · rw [← Option.some.inj found]
      rfl
    · cases found

theorem length_takeLine {input line rest : List UInt8} (taken : takeLine input = some (line, rest)) :
    input.length = line.length + 2 + rest.length := by
  simp only [takeLine] at taken
  split at taken
  · cases taken
  · obtain ⟨after, found, pair⟩ := Option.map_eq_some_iff.mp taken
    obtain ⟨rfl, rfl⟩ := Prod.mk.inj pair
    have whole := congrArg List.length (List.takeWhile_append_dropWhile (p := (· != 13)) (l := input))
    rw [List.length_append, length_afterLineEnd found] at whole
    omega

/-! ### The size of a chunk -/

/-- The value of a hexadecimal digit, in either case. -/
def hexDigit (byte : UInt8) : Option Nat :=
  if 48 ≤ byte ∧ byte ≤ 57 then some (byte.toNat - 48)
  else if 65 ≤ byte ∧ byte ≤ 70 then some (byte.toNat - 55)
  else if 97 ≤ byte ∧ byte ≤ 102 then some (byte.toNat - 87)
  else none

/-- The number a run of hexadecimal digits stands for. -/
def hexValue (digits : List UInt8) : Nat :=
  digits.foldl (fun value digit => value * 16 + (hexDigit digit).getD 0) 0

/-- A space or a horizontal tab. -/
def isBlank (byte : UInt8) : Bool := byte = 32 || byte = 9

/-- The size a chunk's first line announces. An extension starts with a semicolon. -/
def chunkSize (line : List UInt8) : Option Nat :=
  let digits := line.takeWhile fun byte => (hexDigit byte).isSome
  let extension := line.dropWhile fun byte => (hexDigit byte).isSome
  if digits = [] then none
  else if extension = [] ∨ (extension.dropWhile isBlank).head? = some 59 then some (hexValue digits)
  else none

theorem chunkSize_of_digits {line : List UInt8} (nonempty : line ≠ [])
    (digits : ∀ byte ∈ line, (hexDigit byte).isSome) : chunkSize line = some (hexValue line) := by
  have front : (line.takeWhile fun byte => (hexDigit byte).isSome) = line :=
    List.takeWhile_eq_self_iff.mpr digits
  have back : (line.dropWhile fun byte => (hexDigit byte).isSome) = [] :=
    List.dropWhile_eq_nil_iff.mpr digits
  simp only [chunkSize, front, back, if_neg nonempty, true_or, if_true]

theorem cleanLine_of_digits {line : List UInt8}
    (digits : ∀ byte ∈ line, (hexDigit byte).isSome) : CleanLine line := by
  constructor
  · intro member
    exact absurd (digits 13 member) (by decide)
  · intro member
    exact absurd (digits 10 member) (by decide)

/-! ### The decoder -/

/-- A decoded body: the bytes of every chunk with the last one, the lines of the trailer section,
and what follows the body. -/
structure Body where
  chunks : List (List UInt8)
  trailer : List (List UInt8)
  rest : List UInt8
  deriving DecidableEq

/-- The lines up to an empty one, and what follows it. -/
def trailerLines : Nat → List UInt8 → Option (List (List UInt8) × List UInt8)
  | 0, _ => none
  | fuel + 1, input =>
    (takeLine input).bind fun (line, rest) =>
      if line = [] then some ([], rest)
      else (trailerLines fuel rest).map fun (lines, after) => (line :: lines, after)

/-- The decoder. Every chunk and every line of the trailer section takes one unit of fuel. -/
def decodeFrom : Nat → List UInt8 → Option Body
  | 0, _ => none
  | fuel + 1, input =>
    (takeLine input).bind fun (line, rest) =>
      (chunkSize line).bind fun size =>
        if size = 0 then
          (trailerLines fuel rest).map fun (lines, after) => ⟨[[]], lines, after⟩
        else if rest.length < size then none
        else
          (afterLineEnd (rest.drop size)).bind fun after =>
            (decodeFrom fuel after).map fun body =>
              { body with chunks := rest.take size :: body.chunks }

/-- The body at the start of the input. -/
def decode (input : List UInt8) : Option Body := decodeFrom input.length input

/-! ### Reading well-formed chunks -/

/-- A chunk with its first line. -/
structure Frame where
  line : List UInt8
  data : List UInt8
  digits : line ≠ [] ∧ ∀ byte ∈ line, (hexDigit byte).isSome
  announces : hexValue line = data.length
  nonempty : data ≠ []

namespace Frame

/-- The chunk on the wire. -/
def bytes (frame : Frame) : List UInt8 := frame.line ++ (lineEnd ++ (frame.data ++ lineEnd))

end Frame

/-- The lines of a trailer section on the wire, with the empty line behind them. -/
def trailerBytes (lines : List (List UInt8)) : List UInt8 := lines.flatMap (· ++ lineEnd) ++ lineEnd

theorem intercalate_append (separator : List UInt8) {lines : List (List UInt8)}
    (nonempty : lines ≠ []) :
    separator.intercalate lines ++ separator = lines.flatMap (· ++ separator) := by
  induction lines with
  | nil => exact absurd rfl nonempty
  | cons line rest inductionHypothesis =>
    cases rest with
    | nil => simp
    | cons next others =>
      rw [List.intercalate_cons_cons, List.append_assoc, List.append_assoc,
        inductionHypothesis (List.cons_ne_nil next others)]
      exact (List.append_assoc line separator _).symm

theorem trailerLines_append {lines : List (List UInt8)} (clean : ∀ line ∈ lines, CleanLine line)
    (nonempty : ∀ line ∈ lines, line ≠ []) (rest : List UInt8) {fuel : Nat}
    (enough : lines.length < fuel) :
    trailerLines fuel (trailerBytes lines ++ rest) = some (lines, rest) := by
  induction lines generalizing fuel with
  | nil =>
    obtain ⟨less, rfl⟩ := Nat.exists_eq_add_of_lt enough
    rfl
  | cons line others inductionHypothesis =>
    obtain ⟨less, rfl⟩ := Nat.exists_eq_add_of_lt enough
    have first := takeLine_append (clean line List.mem_cons_self) (trailerBytes others ++ rest)
    have apart : trailerBytes (line :: others) ++ rest =
        line ++ (lineEnd ++ (trailerBytes others ++ rest)) := by
      simp only [trailerBytes, List.flatMap_cons, List.append_assoc]
    rw [apart, trailerLines, first, Option.bind_some]
    simp only [if_neg (nonempty line List.mem_cons_self)]
    rw [inductionHypothesis (fun other member => clean other (List.mem_cons_of_mem _ member))
      (fun other member => nonempty other (List.mem_cons_of_mem _ member))
      (by rw [List.length_cons]; omega)]
    rfl

theorem decodeFrom_frame (frame : Frame) (rest : List UInt8) (fuel : Nat) :
    decodeFrom (fuel + 1) (frame.bytes ++ rest) =
      (decodeFrom fuel rest).map fun body =>
        { body with chunks := frame.data :: body.chunks } := by
  have apart : frame.bytes ++ rest =
      frame.line ++ (lineEnd ++ (frame.data ++ (lineEnd ++ rest))) := by
    simp only [Frame.bytes, List.append_assoc]
  have size : chunkSize frame.line = some frame.data.length := by
    rw [chunkSize_of_digits frame.digits.1 frame.digits.2, frame.announces]
  have positive : frame.data.length ≠ 0 := fun zero =>
    frame.nonempty (List.eq_nil_of_length_eq_zero zero)
  have complete : ¬(frame.data ++ (lineEnd ++ rest)).length < frame.data.length := by
    rw [List.length_append]
    omega
  rw [apart, decodeFrom, takeLine_append (cleanLine_of_digits frame.digits.2), Option.bind_some]
  simp only [size, Option.bind_some, if_neg positive, if_neg complete, List.drop_left,
    List.take_left, afterLineEnd_append]

/-- The decoder takes the last chunk and the trailer section. -/
theorem decodeFrom_last {line : List UInt8} (nonempty : line ≠ [])
    (digits : ∀ byte ∈ line, (hexDigit byte).isSome) (zero : hexValue line = 0)
    {lines : List (List UInt8)} (clean : ∀ trailer ∈ lines, CleanLine trailer)
    (filled : ∀ trailer ∈ lines, trailer ≠ []) (rest : List UInt8) {fuel : Nat}
    (enough : lines.length < fuel) :
    decodeFrom (fuel + 1) (line ++ (lineEnd ++ (trailerBytes lines ++ rest))) =
      some ⟨[[]], lines, rest⟩ := by
  rw [decodeFrom, takeLine_append (cleanLine_of_digits digits), Option.bind_some]
  simp only [chunkSize_of_digits nonempty digits, zero, Option.bind_some, if_true,
    trailerLines_append clean filled rest enough, Option.map_some]

theorem decodeFrom_frames (frames : List Frame) {input : List UInt8} {body : Body} {fuel : Nat}
    (decoded : decodeFrom fuel input = some body) :
    decodeFrom (frames.length + fuel) (frames.flatMap Frame.bytes ++ input) =
      some { body with chunks := frames.map Frame.data ++ body.chunks } := by
  induction frames with
  | nil =>
    rw [List.length_nil, Nat.zero_add]
    exact decoded
  | cons frame rest inductionHypothesis =>
    rw [List.length_cons, Nat.add_right_comm, List.flatMap_cons, List.append_assoc,
      decodeFrom_frame, inductionHypothesis]
    rfl

theorem length_le_frames (frames : List Frame) :
    frames.length ≤ (frames.flatMap Frame.bytes).length := by
  induction frames with
  | nil => exact le_rfl
  | cons frame rest inductionHypothesis =>
    have first : 0 < frame.bytes.length :=
      List.length_pos_of_ne_nil (List.append_ne_nil_of_left_ne_nil frame.digits.1 _)
    rw [List.flatMap_cons, List.length_append, List.length_cons]
    omega

theorem length_trailerBytes (lines : List (List UInt8)) :
    (trailerBytes lines).length = (lines.map fun line => line.length + 2).sum + 2 := by
  simp [trailerBytes, List.length_flatMap, lineEnd]

theorem length_lt_trailerBytes (lines : List (List UInt8)) :
    lines.length < (trailerBytes lines).length := by
  have each : lines.length ≤ (lines.map fun line => line.length + 2).sum := by
    induction lines with
    | nil => exact le_rfl
    | cons line rest inductionHypothesis =>
      rw [List.map_cons, List.sum_cons, List.length_cons]
      omega
  rw [length_trailerBytes]
  omega

/-- Frames, a last chunk and a trailer section are decoded to their data, the lines of the trailer
section, and what follows. -/
theorem decode_frames (frames : List Frame) {last : List UInt8} (nonempty : last ≠ [])
    (digits : ∀ byte ∈ last, (hexDigit byte).isSome) (zero : hexValue last = 0)
    {lines : List (List UInt8)} (clean : ∀ line ∈ lines, CleanLine line)
    (filled : ∀ line ∈ lines, line ≠ []) (rest : List UInt8) :
    decode (frames.flatMap Frame.bytes ++ (last ++ (lineEnd ++ (trailerBytes lines ++ rest)))) =
      some ⟨frames.map Frame.data ++ [[]], lines, rest⟩ := by
  have many := length_le_frames frames
  have longer := length_lt_trailerBytes lines
  have oneDigit := List.length_pos_of_ne_nil nonempty
  have enough : frames.length + (lines.length + 2) ≤
      (frames.flatMap Frame.bytes ++ (last ++ (lineEnd ++ (trailerBytes lines ++ rest)))).length := by
    simp only [List.length_append]
    omega
  -- the fuel the frames leave is enough for the last chunk and the trailer section
  obtain ⟨spare, length⟩ := Nat.exists_eq_add_of_le enough
  have shared : frames.length + (lines.length + 2) + spare =
      frames.length + (lines.length + 1 + spare + 1) := by omega
  rw [decode, length, shared, decodeFrom_frames frames
    (decodeFrom_last nonempty digits zero clean filled rest (by omega))]

/-! ### How much the decoder takes -/

theorem length_trailerLines {fuel : Nat} {input : List UInt8} {lines : List (List UInt8)}
    {rest : List UInt8} (taken : trailerLines fuel input = some (lines, rest)) :
    input.length = (trailerBytes lines).length + rest.length := by
  induction fuel generalizing input lines with
  | zero => cases taken
  | succ fuel inductionHypothesis =>
    rw [trailerLines] at taken
    obtain ⟨⟨line, after⟩, first, taken⟩ := Option.bind_eq_some_iff.mp taken
    have firstLength := length_takeLine first
    simp only at taken
    split at taken
    · rename_i empty
      obtain ⟨rfl, rfl⟩ := Prod.mk.inj (Option.some.inj taken)
      rw [firstLength, empty]
      rfl
    · obtain ⟨⟨others, behind⟩, later, pair⟩ := Option.map_eq_some_iff.mp taken
      obtain ⟨rfl, rfl⟩ := Prod.mk.inj pair
      have laterLength := inductionHypothesis later
      rw [length_trailerBytes] at laterLength ⊢
      rw [List.map_cons, List.sum_cons]
      dsimp only at laterLength ⊢
      omega

theorem length_decodeFrom {fuel : Nat} {input : List UInt8} {body : Body}
    (decoded : decodeFrom fuel input = some body) :
    (trailerBytes body.trailer).length + body.rest.length < input.length := by
  induction fuel generalizing input body with
  | zero => cases decoded
  | succ fuel inductionHypothesis =>
    rw [decodeFrom] at decoded
    obtain ⟨⟨line, rest⟩, first, decoded⟩ := Option.bind_eq_some_iff.mp decoded
    obtain ⟨size, -, decoded⟩ := Option.bind_eq_some_iff.mp decoded
    have firstLength := length_takeLine first
    simp only at decoded
    split at decoded
    · obtain ⟨⟨lines, after⟩, trailer, rfl⟩ := Option.map_eq_some_iff.mp decoded
      have trailerLength := length_trailerLines trailer
      dsimp only
      omega
    · split at decoded
      · cases decoded
      · obtain ⟨after, ended, decoded⟩ := Option.bind_eq_some_iff.mp decoded
        obtain ⟨later, decodedLater, rfl⟩ := Option.map_eq_some_iff.mp decoded
        have laterLength := inductionHypothesis decodedLater
        have endLength := length_afterLineEnd ended
        rw [List.length_drop] at endLength
        dsimp only
        omega

/-! ### Field lines -/

/-- The name and the value of a field line. Blanks around the value do not belong to it. -/
def fieldOf (line : List UInt8) : Option (List UInt8 × List UInt8) :=
  let name := line.takeWhile (· != 58)
  match line.dropWhile (· != 58) with
  | [] => none
  | _ :: value =>
    if name = [] then none else some (name, (value.dropWhile isBlank).rdropWhile isBlank)

/-- A name that ends before the colon and a value without blanks around it. -/
structure PlainField (name value : List UInt8) : Prop where
  nonempty : name ≠ []
  noColon : 58 ∉ name
  first : ∀ byte ∈ value.head?, isBlank byte = false
  last : ∀ byte ∈ value.getLast?, isBlank byte = false

theorem fieldOf_plain {name value : List UInt8} (plain : PlainField name value) :
    fieldOf (name ++ ([58, 32] ++ value)) = some (name, value) := by
  have inside : ∀ byte ∈ name, (byte != 58) = true := by
    intro byte member
    refine bne_iff_ne.mpr fun same => plain.noColon ?_
    rwa [same] at member
  have front : (name ++ ([58, 32] ++ value)).takeWhile (· != 58) = name := by
    rw [List.takeWhile_append_of_pos inside]
    exact List.append_nil name
  have back : (name ++ ([58, 32] ++ value)).dropWhile (· != 58) = [58, 32] ++ value := by
    rw [List.dropWhile_append_of_pos inside]
    rfl
  have stripped : ((32 :: value).dropWhile isBlank).rdropWhile isBlank = value := by
    have leading : (32 :: value).dropWhile isBlank = value := by
      rw [List.dropWhile_cons_of_pos rfl]
      cases value with
      | nil => rfl
      | cons byte rest =>
        exact List.dropWhile_cons_of_neg (Bool.eq_false_iff.mp (plain.first byte rfl))
    rw [leading, List.rdropWhile_eq_self_iff]
    intro nonempty
    exact Bool.eq_false_iff.mp (plain.last _ (List.getLast?_eq_some_getLast nonempty))
  simp only [fieldOf, front, back]
  simp only [List.cons_append, List.nil_append, if_neg plain.nonempty, stripped]

end NativeLibs.Library.Chunked
