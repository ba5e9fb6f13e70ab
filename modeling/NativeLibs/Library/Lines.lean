/-
This file is the project's library on the lines of a text. Some letters end a
line. Reading a text letter by letter keeps the line that has begun and the
position of its first letter, and gives a line with its position whenever one
ends. What is given does not depend on how the text is cut into pieces, and a
line is what stands between its position and the next letter that ends a line.
-/

import Mathlib.Data.List.DropRight
import Mathlib.Tactic

namespace NativeLibs.Library

variable {Letter : Type*} (ends : Letter → Bool)

/-- The lines that end in a text, each with its position, when a line has begun before it; and the
line that has begun at the end. -/
def scanLines : ℕ × List Letter → List Letter → List (ℕ × List Letter) × ℕ × List Letter
  | begun, [] => ([], begun)
  | (position, line), letter :: rest =>
    if ends letter then
      let (ended, last) := scanLines (position + line.length + 1, []) rest
      ((position, line) :: ended, last)
    else scanLines (position, line ++ [letter]) rest

theorem scanLines_append (begun : ℕ × List Letter) (first second : List Letter) :
    scanLines ends begun (first ++ second) =
      ((scanLines ends begun first).1 ++ (scanLines ends (scanLines ends begun first).2 second).1,
        (scanLines ends (scanLines ends begun first).2 second).2) := by
  induction first generalizing begun with
  | nil => rfl
  | cons letter first inductionHypothesis =>
    obtain ⟨position, line⟩ := begun
    rw [List.cons_append, scanLines, scanLines]
    by_cases here : ends letter = true
    · simp only [if_pos here, inductionHypothesis]
      rfl
    · simp only [if_neg here, inductionHypothesis]

variable {ends}

theorem scanLines_of_none (position : ℕ) (line : List Letter) {text : List Letter}
    (within : ∀ letter ∈ text, ends letter = false) :
    scanLines ends (position, line) text = ([], (position, line ++ text)) := by
  induction text generalizing line with
  | nil => rw [List.append_nil]; rfl
  | cons letter text inductionHypothesis =>
    rw [List.forall_mem_cons] at within
    rw [scanLines, within.1, if_neg Bool.false_ne_true, inductionHypothesis _ within.2,
      List.append_assoc, List.singleton_append]

/-- A line up to its end. -/
theorem scanLines_of_line (position : ℕ) {text : List Letter} {letter : Letter}
    (within : ∀ other ∈ text, ends other = false) (here : ends letter = true) (rest : List Letter) :
    scanLines ends (position, []) (text ++ letter :: rest) =
      ((position, text) :: (scanLines ends (position + text.length + 1, []) rest).1,
        (scanLines ends (position + text.length + 1, []) rest).2) := by
  rw [scanLines_append, scanLines_of_none position [] within, scanLines, if_pos here]
  rfl

theorem scanLines_length {position : ℕ} {line text : List Letter} {ended : List (ℕ × List Letter)}
    {last : ℕ × List Letter} (scanned : scanLines ends (position, line) text = (ended, last)) :
    last.1 + last.2.length = position + line.length + text.length := by
  induction text generalizing position line ended with
  | nil =>
    cases scanned
    rfl
  | cons letter text inductionHypothesis =>
    rw [scanLines] at scanned
    by_cases here : ends letter = true
    · rw [if_pos here] at scanned
      have total := inductionHypothesis (Prod.ext rfl (Prod.ext_iff.mp scanned).2)
      rw [total, List.length_nil, List.length_cons]
      omega
    · rw [if_neg here] at scanned
      rw [inductionHypothesis scanned, List.length_append, List.length_singleton, List.length_cons]
      omega

theorem le_of_mem_scanLines (position : ℕ) (line text : List Letter) {found : ℕ × List Letter}
    (member : found ∈ (scanLines ends (position, line) text).1 ++
      [(scanLines ends (position, line) text).2]) :
    found.1 + found.2.length ≤ position + line.length + text.length := by
  induction text generalizing position line with
  | nil =>
    rw [scanLines, List.nil_append, List.mem_singleton] at member
    rw [member]
    exact le_rfl
  | cons letter text inductionHypothesis =>
    rw [scanLines] at member
    rw [List.length_cons]
    by_cases here : ends letter = true
    · simp only [if_pos here, List.cons_append, List.mem_cons] at member
      rcases member with rfl | later
      · exact Nat.le_add_right _ _
      · have bound := inductionHypothesis _ _ later
        rw [List.length_nil] at bound
        omega
    · rw [if_neg here] at member
      have bound := inductionHypothesis _ _ member
      rw [List.length_append, List.length_singleton] at bound
      omega

/-- What stands before the first letter at which a condition fails. -/
theorem takeWhile_append_stop {goesOn : Letter → Bool} {line rest : List Letter}
    (within : ∀ letter ∈ line, goesOn letter = true)
    (stop : ∀ letter, rest.head? = some letter → goesOn letter = false) :
    (line ++ rest).takeWhile goesOn = line := by
  rw [List.takeWhile_append_of_pos within]
  cases rest with
  | nil => rw [List.takeWhile_nil, List.append_nil]
  | cons letter more =>
    rw [List.takeWhile_cons, stop letter rfl, if_neg Bool.false_ne_true, List.append_nil]

theorem takeWhile_line {line rest : List Letter} (within : ∀ letter ∈ line, ends letter = false)
    (next : rest = [] ∨ ∃ letter more, rest = letter :: more ∧ ends letter = true) :
    (line ++ rest).takeWhile (fun letter => !ends letter) = line := by
  refine takeWhile_append_stop (fun letter member => ?_) fun letter head => ?_
  · rw [within letter member, Bool.not_false]
  · obtain rfl | ⟨first, more, rfl, here⟩ := next
    · cases head
    · cases head
      rw [here, Bool.not_true]

/-- A line is what stands between its position and the next letter that ends one. -/
theorem takeWhile_drop_of_mem_scanLines (before : List Letter) {line : List Letter}
    (text : List Letter) (within : ∀ letter ∈ line, ends letter = false) {found : ℕ × List Letter}
    (member : found ∈ (scanLines ends (before.length, line) text).1 ++
      [(scanLines ends (before.length, line) text).2]) :
    ((before ++ (line ++ text)).drop found.1).takeWhile (fun letter => !ends letter) = found.2 := by
  induction text generalizing before line with
  | nil =>
    rw [scanLines, List.nil_append, List.mem_singleton] at member
    rw [member, List.drop_left]
    exact takeWhile_line within (.inl rfl)
  | cons letter text inductionHypothesis =>
    rw [scanLines] at member
    by_cases here : ends letter = true
    · simp only [if_pos here, List.cons_append, List.mem_cons] at member
      rcases member with rfl | later
      · rw [List.drop_left]
        exact takeWhile_line within (.inr ⟨letter, text, rfl, here⟩)
      · have read := inductionHypothesis (before ++ (line ++ [letter])) (List.forall_mem_nil _)
        simp only [List.length_append, List.length_singleton, ← Nat.add_assoc] at read
        have same := read later
        simpa using same
    · rw [if_neg here] at member
      have lineWithin : ∀ other ∈ line ++ [letter], ends other = false := by
        rw [List.forall_mem_append, List.forall_mem_singleton]
        exact ⟨within, Bool.eq_false_iff.mpr here⟩
      have read := inductionHypothesis before lineWithin member
      rw [List.append_assoc, List.singleton_append] at read
      exact read

theorem rtakeWhile_append_cons (before : List Letter) {letter : Letter} (rest : List Letter)
    (here : ends letter = true) :
    (before ++ letter :: rest).rtakeWhile (fun other => !ends other) =
      rest.rtakeWhile (fun other => !ends other) := by
  have stops : (letter :: before.reverse).takeWhile (fun other => !ends other) = [] := by
    rw [List.takeWhile_cons, here, Bool.not_true, if_neg Bool.false_ne_true]
  rw [List.rtakeWhile, List.rtakeWhile, List.reverse_append, List.reverse_cons, List.append_assoc,
    List.singleton_append, List.takeWhile_append, stops, List.append_nil]
  split
  · rename_i whole
    rw [(List.takeWhile_prefix _).eq_of_length whole]
  · rfl

theorem scanLines_last {position : ℕ} {line text : List Letter} {ended : List (ℕ × List Letter)}
    {last : ℕ × List Letter} (scanned : scanLines ends (position, line) text = (ended, last))
    (within : ∀ letter ∈ line, ends letter = false) :
    last.2 = (line ++ text).rtakeWhile (fun letter => !ends letter) := by
  induction text generalizing position line ended with
  | nil =>
    cases scanned
    rw [List.append_nil, eq_comm]
    refine List.rtakeWhile_eq_self_iff.mpr fun letter member => ?_
    rw [within letter member]
    rfl
  | cons letter text inductionHypothesis =>
    rw [scanLines] at scanned
    by_cases here : ends letter = true
    · rw [if_pos here] at scanned
      rw [inductionHypothesis (Prod.ext rfl (Prod.ext_iff.mp scanned).2) (List.forall_mem_nil _),
        List.nil_append, rtakeWhile_append_cons line text here]
    · have lineWithin : ∀ other ∈ line ++ [letter], ends other = false := by
        rw [List.forall_mem_append, List.forall_mem_singleton]
        exact ⟨within, Bool.eq_false_iff.mpr here⟩
      rw [if_neg here] at scanned
      rw [inductionHypothesis scanned lineWithin, List.append_assoc, List.singleton_append]

end NativeLibs.Library
