/-
This file is the project's library on how a POSIX shell breaks a command line into
words. It models the token recognition and the quoting of the shell language:
single quotes, double quotes, the backslash in and outside double quotes, blanks,
operators and comments. Operators of several characters are not joined, and an
expansion is not followed: its characters are only told apart from those that
stand for themselves.

A reader takes one character after another. Between two words it is in the same
state as at the start, up to the tokens it has read, so a text can be read apart
from what stands before it.
-/

import Mathlib.Tactic

namespace NativeLibs.Library.Shell

/-! ### Words -/

/-- A character of a word. A quoted one stands for itself, a bare one may have a meaning for the
shell, as the start of an expansion, as part of a pattern or of a reserved word. -/
inductive Part where
  | literal (char : UInt8)
  | bare (char : UInt8)
  deriving DecidableEq

/-- What a command line is broken into. -/
inductive Token where
  | word (parts : List Part)
  | operator (char : UInt8)
  deriving DecidableEq

/-- Where the reader is. -/
inductive Mode where
  | outside
  | escape
  | single
  | double
  | doubleEscape
  | comment
  deriving DecidableEq

/-- The reader: its mode, the word it is in, if it is in one, and the tokens before. -/
structure Reader where
  mode : Mode := .outside
  word : Option (List Part) := none
  tokens : List Token := []
  deriving DecidableEq

/-- `'`. -/
def singleQuote : UInt8 := 39

/-- `"`. -/
def doubleQuote : UInt8 := 34

/-- `\`. -/
def backslash : UInt8 := 92

/-- The end of a line. -/
def newline : UInt8 := 10

/-- `#`. -/
def numberSign : UInt8 := 35

/-- A space and a tab. -/
def blanks : List UInt8 := [32, 9]

/-- `&`, `|`, `;`, `<`, `>`, `(`, `)` and the end of a line. -/
def operators : List UInt8 := [38, 124, 59, 60, 62, 40, 41, newline]

/-- `$` and the grave accent, which keep their meaning in double quotes. -/
def expansions : List UInt8 := [36, 96]

namespace Reader

/-- The word is there, also if it has no characters. -/
def beginWord (reader : Reader) : Reader := { reader with word := some (reader.word.getD []) }

def add (reader : Reader) (part : Part) : Reader :=
  { reader with word := some (reader.word.getD [] ++ [part]) }

def finishWord (reader : Reader) : Reader :=
  { reader with
    word := none
    tokens := reader.tokens ++ (reader.word.map Token.word).toList }

def addOperator (reader : Reader) (char : UInt8) : Reader :=
  { reader with tokens := reader.tokens ++ [.operator char] }

/-- A character outside quotes. -/
def outside (reader : Reader) (char : UInt8) : Reader :=
  if char = singleQuote then { reader.beginWord with mode := .single }
  else if char = doubleQuote then { reader.beginWord with mode := .double }
  else if char = backslash then { reader with mode := .escape }
  else if char ∈ blanks then reader.finishWord
  else if char ∈ operators then reader.finishWord.addOperator char
  else if char = numberSign ∧ reader.word = none then { reader with mode := .comment }
  else reader.add (.bare char)

/-- A character behind a backslash outside quotes. Before the end of a line, it joins the lines. -/
def escape (reader : Reader) (char : UInt8) : Reader :=
  if char = newline then { reader with mode := .outside }
  else { reader.add (.literal char) with mode := .outside }

/-- A character in single quotes. -/
def single (reader : Reader) (char : UInt8) : Reader :=
  if char = singleQuote then { reader with mode := .outside } else reader.add (.literal char)

/-- A character in double quotes. -/
def double (reader : Reader) (char : UInt8) : Reader :=
  if char = doubleQuote then { reader with mode := .outside }
  else if char = backslash then { reader with mode := .doubleEscape }
  else if char ∈ expansions then reader.add (.bare char)
  else reader.add (.literal char)

/-- A character behind a backslash in double quotes, where the backslash has a meaning only before a
few characters. -/
def doubleEscape (reader : Reader) (char : UInt8) : Reader :=
  if char = newline then { reader with mode := .double }
  else if char = doubleQuote ∨ char = backslash ∨ char ∈ expansions then
    { reader.add (.literal char) with mode := .double }
  else { (reader.add (.literal backslash)).add (.literal char) with mode := .double }

/-- A character of a comment. -/
def comment (reader : Reader) (char : UInt8) : Reader :=
  if char = newline then { reader.addOperator char with mode := .outside } else reader

/-- One character. -/
def step (reader : Reader) (char : UInt8) : Reader :=
  match reader.mode with
  | .outside => reader.outside char
  | .escape => reader.escape char
  | .single => reader.single char
  | .double => reader.double char
  | .doubleEscape => reader.doubleEscape char
  | .comment => reader.comment char

/-- The reader behind a text. -/
def read (reader : Reader) (text : List UInt8) : Reader := text.foldl step reader

theorem read_append (reader : Reader) (first second : List UInt8) :
    reader.read (first ++ second) = (reader.read first).read second := List.foldl_append

theorem read_cons (reader : Reader) (char : UInt8) (text : List UInt8) :
    reader.read (char :: text) = (reader.step char).read text := rfl

/-- The tokens of a text that has been read, unless a quotation is not closed. -/
def finish (reader : Reader) : Option (List Token) :=
  if reader.mode = .outside ∨ reader.mode = .comment then some reader.finishWord.tokens else none

end Reader

/-- The tokens of a command line, which ends at its first zero character. -/
def tokens (line : List UInt8) : Option (List Token) :=
  (Reader.read {} (line.takeWhile (· ≠ 0))).finish

/-- A text ends a word that stands before it. -/
def Delimits (text : List UInt8) : Prop :=
  text = [] ∨ ∃ char rest, text = char :: rest ∧ (char ∈ blanks ∨ char ∈ operators)

/-! ### Quoting -/

namespace Reader

/-- Between single quotes every character but the quote stands for itself. -/
theorem read_single {parts : List Part} {tokens : List Token} {text : List UInt8}
    (unquoted : singleQuote ∉ text) :
    Reader.read ⟨.single, some parts, tokens⟩ text =
      ⟨.single, some (parts ++ text.map Part.literal), tokens⟩ := by
  induction text generalizing parts with
  | nil => rw [List.map_nil, List.append_nil]; rfl
  | cons char text inductionHypothesis =>
    rw [List.mem_cons, not_or] at unquoted
    have taken : Reader.step ⟨.single, some parts, tokens⟩ char =
        ⟨.single, some (parts ++ [.literal char]), tokens⟩ := if_neg (Ne.symm unquoted.1)
    rw [read_cons, taken, inductionHypothesis unquoted.2, List.append_assoc, List.map_cons]
    rfl

/-! ### What was read before -/

/-- The reader with tokens before those it has. -/
def behind (earlier : List Token) (reader : Reader) : Reader :=
  { reader with tokens := earlier ++ reader.tokens }

theorem behind_mode (earlier : List Token) (reader : Reader) :
    (reader.behind earlier).mode = reader.mode := rfl

theorem behind_finishWord (earlier : List Token) (reader : Reader) :
    (reader.behind earlier).finishWord = reader.finishWord.behind earlier := by
  rw [finishWord, finishWord, behind, behind, List.append_assoc]

theorem behind_addOperator (earlier : List Token) (reader : Reader) (char : UInt8) :
    (reader.behind earlier).addOperator char = (reader.addOperator char).behind earlier := by
  rw [addOperator, addOperator, behind, behind, List.append_assoc]

theorem behind_step (earlier : List Token) (reader : Reader) (char : UInt8) :
    (reader.behind earlier).step char = (reader.step char).behind earlier := by
  rw [step, step, behind_mode]
  cases reader.mode with
  | outside =>
    simp only [outside, behind_finishWord, behind_addOperator, apply_ite (behind earlier)]
    rfl
  | escape =>
    simp only [escape, apply_ite (behind earlier)]
    rfl
  | single =>
    simp only [single, apply_ite (behind earlier)]
    rfl
  | double =>
    simp only [double, apply_ite (behind earlier)]
    rfl
  | doubleEscape =>
    simp only [doubleEscape, apply_ite (behind earlier)]
    rfl
  | comment =>
    simp only [comment, behind_addOperator, apply_ite (behind earlier)]
    rfl

theorem behind_read (earlier : List Token) (reader : Reader) (text : List UInt8) :
    (reader.behind earlier).read text = (reader.read text).behind earlier := by
  induction text generalizing reader with
  | nil => rfl
  | cons char text inductionHypothesis =>
    rw [read_cons, read_cons, behind_step, inductionHypothesis]

theorem behind_finish (earlier : List Token) (reader : Reader) :
    (reader.behind earlier).finish = reader.finish.map (earlier ++ ·) := by
  rw [finish, finish, behind_finishWord, behind_mode]
  by_cases closed : reader.mode = .outside ∨ reader.mode = .comment
  · rw [if_pos closed, if_pos closed]
    rfl
  · rw [if_neg closed, if_neg closed]
    rfl

/-- A word outside quotes ends before a blank or an operator. -/
theorem step_delimiter (parts : List Part) (earlier : List Token) {char : UInt8}
    (delimiter : char ∈ blanks ∨ char ∈ operators) :
    Reader.step ⟨.outside, some parts, earlier⟩ char =
      Reader.step ⟨.outside, none, earlier ++ [.word parts]⟩ char := by
  have ended : finishWord ⟨.outside, some parts, earlier⟩ =
      finishWord ⟨.outside, none, earlier ++ [.word parts]⟩ := by
    rw [finishWord, finishWord]
    exact congrArg (Reader.mk .outside none) (List.append_nil _).symm
  have every : (blanks ++ operators).all (fun char =>
      char != singleQuote && (char != doubleQuote && char != backslash)) = true := rfl
  have plain := List.all_eq_true.mp every char (List.mem_append.mpr delimiter)
  rw [Bool.and_eq_true, Bool.and_eq_true, bne_iff_ne, bne_iff_ne, bne_iff_ne] at plain
  show outside _ char = outside _ char
  rw [outside, outside, if_neg plain.1, if_neg plain.1, if_neg plain.2.1, if_neg plain.2.1,
    if_neg plain.2.2, if_neg plain.2.2, ended]
  by_cases blank : char ∈ blanks
  · rw [if_pos blank, if_pos blank]
  · have operator := delimiter.resolve_left blank
    rw [if_neg blank, if_neg blank, if_pos operator, if_pos operator]

theorem finish_read_delimited (parts : List Part) (earlier : List Token) {after : List UInt8}
    (delimits : Delimits after) :
    (Reader.read ⟨.outside, some parts, earlier⟩ after).finish =
      (Reader.read {} after).finish.map fun later => earlier ++ .word parts :: later := by
  have apart : Reader.read ⟨.outside, none, earlier ++ [.word parts]⟩ after =
      (Reader.read {} after).behind (earlier ++ [.word parts]) := by
    rw [← behind_read, behind, List.append_nil]
  have shifted : (Reader.read ⟨.outside, none, earlier ++ [.word parts]⟩ after).finish =
      (Reader.read {} after).finish.map fun later => earlier ++ .word parts :: later := by
    rw [apart, behind_finish]
    simp only [List.append_assoc, List.singleton_append]
  rw [← shifted]
  rcases delimits with rfl | ⟨char, rest, rfl, delimiter⟩
  · exact congrArg some (List.append_nil _).symm
  · rw [read_cons, read_cons, step_delimiter parts earlier delimiter]

end Reader

end NativeLibs.Library.Shell
