/-
This file models `word_wrap` of `common/utils.cpp`. A line ends where the width
is used up, or at the last space before that if it would end inside a word, and
the spaces behind a line are skipped. Every line has at least one character, so
the loop comes to an end, and the lines with the spaces between them make up the
text.
-/

import NativeLibs.Text.Split

namespace NativeLibs

/-! ### The loop -/

/-- `' '`. -/
def space : UInt8 := 32

/-- The number of characters of the line that begins at a position. -/
def lineWidth (text : Bytes) (width curPos : ℕ) : ℕ :=
  let curWidth := if text.length - curPos < width then text.length - curPos else width
  let segment := (text.drop curPos).take curWidth
  -- not at the end, and the next character is not a space
  if curPos + curWidth < text.length ∧ text[curPos + curWidth]? ≠ some space then
    match findLastOf segment [space] with
    | some lastSpacePos => if lastSpacePos ≠ 0 then lastSpacePos else curWidth
    | none => curWidth
  else curWidth

/-- The inner loop: the first position from a given one on that holds no space. -/
def skipSpaces (text : Bytes) (curPos : ℕ) : ℕ :=
  curPos + ((text.drop curPos).takeWhile (· = space)).length

/-- The outer loop, for at most so many rounds. -/
def wrapLoop (text : Bytes) (width : ℕ) : ℕ → ℕ → Option (List Bytes)
  | 0, _ => none
  | rounds + 1, curPos =>
    if curPos < text.length then
      let curWidth := lineWidth text width curPos
      let segment := (text.drop curPos).take curWidth
      (wrapLoop text width rounds (skipSpaces text (curPos + curWidth))).map (segment :: ·)
    else some []

/-- `word_wrap`, if so many rounds are enough for its loop. -/
def wordWrap (rounds : ℕ) (text : Bytes) (width : ℕ) : Option (List Bytes) :=
  if width = 0 ∨ text.length ≤ width then some [text] else wrapLoop text width rounds 0

/-! ### One line -/

theorem findLastOf_lt {str delim : Bytes} {index : ℕ} (found : findLastOf str delim = some index) :
    index < str.length := by
  rw [findLastOf] at found
  obtain ⟨behind, searched, rfl⟩ := Option.map_eq_some_iff.mp found
  obtain ⟨inside, -, -⟩ := List.findIdx?_eq_some_iff_getElem.mp searched
  rw [List.length_reverse] at inside
  omega

/-- A line has a character, keeps to the width and ends in the text. -/
theorem lineWidth_spec (text : Bytes) {width curPos : ℕ} (positive : 1 ≤ width)
    (inside : curPos < text.length) :
    0 < lineWidth text width curPos ∧ lineWidth text width curPos ≤ width ∧
      curPos + lineWidth text width curPos ≤ text.length := by
  have full : ∀ curWidth,
      curWidth = (if text.length - curPos < width then text.length - curPos else width) →
      0 < curWidth ∧ curWidth ≤ width ∧ curPos + curWidth ≤ text.length := by
    intro curWidth same
    split at same <;> omega
  rw [lineWidth]
  generalize whole :
    (if text.length - curPos < width then text.length - curPos else width) = curWidth
  have bounds := full curWidth whole.symm
  split
  · cases found : findLastOf ((text.drop curPos).take curWidth) [space] with
    | none => exact bounds
    | some lastSpacePos =>
      have shorter := findLastOf_lt found
      rw [List.length_take] at shorter
      simp only
      split <;> omega
  · exact bounds

/-- What is skipped are spaces. -/
theorem skipSpaces_spec (text : Bytes) (curPos : ℕ) :
    curPos ≤ skipSpaces text curPos ∧
      ∃ gap : Bytes, (∀ c ∈ gap, c = space) ∧
        text.drop curPos = gap ++ text.drop (skipSpaces text curPos) := by
  refine ⟨Nat.le_add_right _ _, (text.drop curPos).takeWhile (· = space), fun c member => ?_, ?_⟩
  · have holds := List.mem_takeWhile_imp member
    exact of_decide_eq_true holds
  · rw [skipSpaces, ← List.drop_drop]
    exact (List.prefix_iff_eq_append.mp (List.takeWhile_prefix _)).symm

/-! ### All lines -/

/-- A text that is a first line, then spaces, then the text of the other lines. -/
inductive Wrapping : Bytes → List Bytes → Prop where
  | nil : Wrapping [] []
  | cons {line gap text : Bytes} {lines : List Bytes} (spaces : ∀ c ∈ gap, c = space)
      (later : Wrapping text lines) : Wrapping (line ++ (gap ++ text)) (line :: lines)

/-- The loop from a position on: with more rounds than characters are left it returns lines that
keep to the width and make up the rest of the text with spaces between them. -/
theorem wrapLoop_spec (text : Bytes) {width : ℕ} (positive : 1 ≤ width) (curPos : ℕ) :
    ∃ lines, (∀ rounds, text.length - curPos < rounds →
        wrapLoop text width rounds curPos = some lines) ∧
      (∀ line ∈ lines, line.length ≤ width) ∧ Wrapping (text.drop curPos) lines := by
  induction remaining : text.length - curPos using Nat.strong_induction_on generalizing curPos with
  | _ left inductionHypothesis =>
    by_cases inside : curPos < text.length
    · obtain ⟨progress, fits, within⟩ := lineWidth_spec text positive inside
      obtain ⟨ahead, gap, spaces, parts⟩ :=
        skipSpaces_spec text (curPos + lineWidth text width curPos)
      have shorter :
          text.length - skipSpaces text (curPos + lineWidth text width curPos) < left := by
        omega
      obtain ⟨lines, returned, keepWidth, later⟩ := inductionHypothesis _ shorter _ rfl
      refine ⟨(text.drop curPos).take (lineWidth text width curPos) :: lines,
        fun rounds enough => ?_, List.forall_mem_cons.mpr ⟨?_, keepWidth⟩, ?_⟩
      · cases rounds with
        | zero => exact absurd enough (Nat.not_lt_zero _)
        | succ rounds =>
          rw [wrapLoop, if_pos inside]
          simp only
          rw [returned rounds (by omega), Option.map_some]
      · exact (List.length_take_le _ _).trans fits
      · have wrapping : Wrapping ((text.drop curPos).take (lineWidth text width curPos) ++ (gap ++
            text.drop (skipSpaces text (curPos + lineWidth text width curPos))))
            ((text.drop curPos).take (lineWidth text width curPos) :: lines) := .cons spaces later
        rwa [← parts, ← List.drop_drop, List.take_append_drop] at wrapping
    · refine ⟨[], fun rounds enough => ?_, fun _ absent => absurd absent List.not_mem_nil, ?_⟩
      · cases rounds with
        | zero => exact absurd enough (Nat.not_lt_zero _)
        | succ rounds => rw [wrapLoop, if_neg inside]
      · rw [List.drop_eq_nil_of_le (Nat.le_of_not_lt inside)]
        exact .nil

/-- For every positive width the function comes to an end, and the lines keep to the width and make
up the text, from its first character on, with nothing but spaces behind each line. -/
theorem wordWrap_lossless (text : Bytes) (width : ℕ) (positive : 1 ≤ width) :
    ∃ lines, (∀ rounds, text.length < rounds → wordWrap rounds text width = some lines) ∧
      lines ≠ [] ∧ (∀ line ∈ lines, line.length ≤ width) ∧ Wrapping text lines := by
  by_cases short : text.length ≤ width
  · refine ⟨[text], fun rounds _ => if_pos (.inr short), List.cons_ne_nil _ _,
      List.forall_mem_singleton.mpr short, ?_⟩
    have whole : Wrapping (text ++ ([] ++ [])) [text] :=
      .cons (fun _ absent => absurd absent List.not_mem_nil) .nil
    rwa [List.append_nil, List.append_nil] at whole
  · have loops : ¬(width = 0 ∨ text.length ≤ width) := by omega
    obtain ⟨lines, returned, keepWidth, wrapping⟩ := wrapLoop_spec text positive 0
    rw [List.drop_zero] at wrapping
    refine ⟨lines, fun rounds enough => ?_, ?_, keepWidth, wrapping⟩
    · rw [wordWrap, if_neg loops]
      exact returned rounds enough
    · rintro rfl
      cases wrapping
      exact short (Nat.zero_le width)

/-- A line that would end inside a word ends before it. -/
theorem wordWrap_lossless_insideWord :
    wordWrap 17 (ascii "hello world test") 10 = some [ascii "hello", ascii "world test"] ∧
      ∃ lines, (∀ rounds, (ascii "hello world test").length < rounds →
          wordWrap rounds (ascii "hello world test") 10 = some lines) ∧
        lines ≠ [] ∧ (∀ line ∈ lines, line.length ≤ 10) ∧
        Wrapping (ascii "hello world test") lines :=
  ⟨rfl, wordWrap_lossless (ascii "hello world test") 10 (by decide)⟩

end NativeLibs
