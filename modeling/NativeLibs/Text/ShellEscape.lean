/-
This file models `utils::escape_argument_for_shell`. It puts an argument between
single quotes, and for every single quote in it closes the quotation, writes the
quote behind a backslash and opens a new one. A shell reads that as one word, in
which every character stands for itself.
-/

import NativeLibs.Library.ShellWords
import NativeLibs.Text.Bytes

namespace NativeLibs

open Library Shell

/-- `utils::escape_argument_for_shell`. -/
def escapeArgumentForShell (arg : Bytes) : Bytes :=
  arg.foldl (fun out ch => if ch ≠ 39 then out ++ [ch] else out ++ ascii "'\\''") [39] ++ [39]

/-- What is written for one character. -/
def escapeChar (ch : UInt8) : Bytes := if ch ≠ 39 then [ch] else ascii "'\\''"

theorem escapeArgumentForShell_eq (arg : Bytes) :
    escapeArgumentForShell arg = singleQuote :: (arg.flatMap escapeChar ++ [singleQuote]) := by
  have written : ∀ out : Bytes,
      arg.foldl (fun out ch => if ch ≠ 39 then out ++ [ch] else out ++ ascii "'\\''") out =
        out ++ arg.flatMap escapeChar := by
    induction arg with
    | nil => exact fun out => (List.append_nil out).symm
    | cons ch arg inductionHypothesis =>
      intro out
      rw [List.foldl_cons, inductionHypothesis, List.flatMap_cons, ← List.append_assoc, escapeChar,
        apply_ite (out ++ ·)]
  rw [escapeArgumentForShell, written, List.append_assoc]
  rfl

theorem read_escapeChar (parts : List Part) (earlier : List Token) (ch : UInt8) :
    Reader.read ⟨.single, some parts, earlier⟩ (escapeChar ch) =
      ⟨.single, some (parts ++ [.literal ch]), earlier⟩ := by
  by_cases quote : ch = 39
  · subst quote
    rfl
  · rw [escapeChar, if_pos quote, Reader.read_single]
    · rfl
    · rw [List.mem_singleton]
      exact Ne.symm quote

theorem read_flatMap_escapeChar (parts : List Part) (earlier : List Token) (arg : Bytes) :
    Reader.read ⟨.single, some parts, earlier⟩ (arg.flatMap escapeChar) =
      ⟨.single, some (parts ++ arg.map Part.literal), earlier⟩ := by
  induction arg generalizing parts with
  | nil => rw [List.map_nil, List.append_nil]; rfl
  | cons ch arg inductionHypothesis =>
    rw [List.flatMap_cons, Reader.read_append, read_escapeChar, inductionHypothesis,
      List.append_assoc, List.map_cons]
    rfl

theorem read_escapeArgumentForShell (earlier : List Token) (arg : Bytes) :
    Reader.read ⟨.outside, none, earlier⟩ (escapeArgumentForShell arg) =
      ⟨.outside, some (arg.map Part.literal), earlier⟩ := by
  have opened : Reader.step ⟨.outside, none, earlier⟩ singleQuote =
      ⟨.single, some [], earlier⟩ := rfl
  rw [escapeArgumentForShell_eq, Reader.read_cons, opened, Reader.read_append,
    read_flatMap_escapeChar, List.nil_append]
  rfl

theorem zero_notMem_escapeArgumentForShell {arg : Bytes} (noZero : 0 ∉ arg) :
    0 ∉ escapeArgumentForShell arg := by
  rw [escapeArgumentForShell_eq, List.mem_cons, List.mem_append, List.mem_flatMap,
    List.mem_singleton]
  rintro (quote | ⟨ch, member, written⟩ | quote)
  · exact absurd quote (by decide)
  · rw [escapeChar] at written
    split at written
    · exact noZero (List.mem_singleton.mp written ▸ member)
    · exact absurd written (by decide)
  · exact absurd quote (by decide)

/-- A shell takes an escaped argument that stands between two words of a command line as exactly one
word, which consists of the characters of the argument and in which every character stands for
itself. -/
theorem tokens_escapeArgumentForShell (before arg after : Bytes) (noZero : 0 ∉ arg)
    (noZeroBefore : 0 ∉ before) (noZeroAfter : 0 ∉ after) {earlier : List Token}
    (between : Reader.read {} before = ⟨.outside, none, earlier⟩) (delimits : Delimits after) :
    tokens (before ++ (escapeArgumentForShell arg ++ after)) =
      (tokens after).map fun later => earlier ++ .word (arg.map Part.literal) :: later := by
  have whole {text : Bytes} (clean : 0 ∉ text) : text.takeWhile (· ≠ 0) = text :=
    List.takeWhile_eq_self_iff.mpr fun char member =>
      decide_eq_true fun zero => clean (zero ▸ member)
  have clean : 0 ∉ before ++ (escapeArgumentForShell arg ++ after) := by
    rw [List.mem_append, List.mem_append, not_or, not_or]
    exact ⟨noZeroBefore, zero_notMem_escapeArgumentForShell noZero, noZeroAfter⟩
  rw [tokens, tokens, whole clean, whole noZeroAfter, Reader.read_append, between,
    Reader.read_append, read_escapeArgumentForShell, Reader.finish_read_delimited _ _ delimits]

/-- An argument with a command in it and with quotes, in a command line with another command. -/
theorem tokens_escapeArgumentForShell_injection :
    tokens (ascii "echo " ++ (escapeArgumentForShell (ascii "'; rm $x") ++ ascii "&")) =
      (tokens (ascii "&")).map fun later =>
        [.word ((ascii "echo").map Part.bare)] ++
          .word ((ascii "'; rm $x").map Part.literal) :: later :=
  tokens_escapeArgumentForShell (ascii "echo ") (ascii "'; rm $x") (ascii "&") (by decide)
    (by decide) (by decide) rfl (.inr ⟨38, [], rfl, .inr (by decide)⟩)

end NativeLibs
