/-
This file is about the words of a text that `word_wrap` wraps. The lines it returns
are views of the text, so they have a place in it, and a word is kept if it lies
inside one of them. A line that would end inside a word is cut back to its last
space, unless that space is its first character. So a word is torn exactly if it
is as long as the width and stands behind a single space at the start of the text.
-/

import NativeLibs.Text.WordWrap

namespace NativeLibs

/-! ### Lines with their places -/

/-- A `std::string_view` of a text, by its first position and its length. -/
structure TextView where
  start : ℕ
  length : ℕ
  deriving DecidableEq

namespace TextView

/-- The position behind a view. -/
def stop (view : TextView) : ℕ := view.start + view.length

/-- The characters of a view. -/
def read (text : Bytes) (view : TextView) : Bytes := (text.drop view.start).take view.length

/-- The first view has all of the second. -/
def Contains (view other : TextView) : Prop := view.start ≤ other.start ∧ other.stop ≤ view.stop

end TextView

/-- The outer loop of `word_wrap`, with the places of its lines. -/
def wrapViewLoop (text : Bytes) (width : ℕ) : ℕ → ℕ → Option (List TextView)
  | 0, _ => none
  | rounds + 1, curPos =>
    if curPos < text.length then
      let curWidth := lineWidth text width curPos
      (wrapViewLoop text width rounds (skipSpaces text (curPos + curWidth))).map
        (⟨curPos, curWidth⟩ :: ·)
    else some []

/-- `word_wrap`, with the places of its lines. -/
def wordWrapViews (rounds : ℕ) (text : Bytes) (width : ℕ) : Option (List TextView) :=
  if width = 0 ∨ text.length ≤ width then some [⟨0, text.length⟩]
  else wrapViewLoop text width rounds 0

theorem wrapLoop_eq_views (text : Bytes) (width rounds curPos : ℕ) :
    wrapLoop text width rounds curPos =
      (wrapViewLoop text width rounds curPos).map (List.map (TextView.read text)) := by
  induction rounds generalizing curPos with
  | zero => rfl
  | succ rounds inductionHypothesis =>
    rw [wrapLoop, wrapViewLoop]
    by_cases inside : curPos < text.length
    · rw [if_pos inside, if_pos inside]
      simp only [inductionHypothesis, Option.map_map]
      rfl
    · rw [if_neg inside, if_neg inside]
      rfl

theorem wordWrap_eq_views (rounds : ℕ) (text : Bytes) (width : ℕ) :
    wordWrap rounds text width =
      (wordWrapViews rounds text width).map (List.map (TextView.read text)) := by
  rw [wordWrap, wordWrapViews]
  by_cases short : width = 0 ∨ text.length ≤ width
  · rw [if_pos short, if_pos short, Option.map_some, List.map_singleton, TextView.read,
      List.drop_zero, List.take_length]
  · rw [if_neg short, if_neg short, wrapLoop_eq_views]

/-! ### Words -/

/-- A maximal run of characters that are no spaces. -/
structure IsWord (text : Bytes) (word : TextView) : Prop where
  nonempty : 0 < word.length
  inside : word.stop ≤ text.length
  letters : ∀ index, word.start ≤ index → index < word.stop → text[index]? ≠ some space
  before : word.start = 0 ∨ text[word.start - 1]? = some space
  after : word.stop = text.length ∨ text[word.stop]? = some space

theorem no_space_behind_first {piece : Bytes}
    (unusable : ∀ index, findLastOf piece [space] = some index → index = 0) {index : ℕ}
    (behind : 0 < index) : piece[index]? ≠ some space := by
  intro isSpace
  obtain ⟨-, absent⟩ | ⟨front, back, parts, absent, found⟩ := findLastOf_cases piece space
  · exact absent (List.mem_of_getElem? isSpace)
  · have nothing : front = [] := List.length_eq_zero_iff.mp (unusable _ found)
    obtain ⟨previous, rfl⟩ := Nat.exists_eq_add_one_of_ne_zero behind.ne'
    rw [parts, nothing, List.nil_append, List.getElem?_cons_succ] at isSpace
    exact absent (List.mem_of_getElem? isSpace)

/-- How a line can end: at the end of the text, before a space, or at the full width with no space
behind its first character. -/
theorem lineWidth_cases (text : Bytes) (width : ℕ) {curPos : ℕ} (inside : curPos < text.length) :
    curPos + lineWidth text width curPos = text.length ∨
      text[curPos + lineWidth text width curPos]? = some space ∨
      lineWidth text width curPos = width ∧
        ∀ index, curPos < index → index < curPos + width → text[index]? ≠ some space := by
  rw [lineWidth]
  generalize whole :
    (if text.length - curPos < width then text.length - curPos else width) = curWidth
  by_cases ends : curPos + curWidth = text.length
  · rw [if_neg (by omega)]
    exact .inl ends
  have full : curWidth = width ∧ curPos + width < text.length := by
    split at whole <;> omega
  obtain ⟨rfl, ahead⟩ := full
  by_cases clean : text[curPos + curWidth]? = some space
  · rw [if_neg fun both => both.2 clean]
    exact .inr (.inl clean)
  rw [if_pos ⟨ahead, clean⟩]
  have place {index : ℕ} (within : index < curWidth) :
      ((text.drop curPos).take curWidth)[index]? = text[curPos + index]? := by
    rw [List.getElem?_take_of_lt within, List.getElem?_drop]
  have unbroken (unusable : ∀ index,
      findLastOf ((text.drop curPos).take curWidth) [space] = some index → index = 0) (index : ℕ)
      (behind : curPos < index) (before : index < curPos + curWidth) :
      text[index]? ≠ some space := by
    have none_ := no_space_behind_first unusable (Nat.sub_pos_of_lt behind)
    rwa [place (Nat.sub_lt_left_of_lt_add behind.le before), Nat.add_sub_cancel' behind.le] at none_
  obtain ⟨notFound, -⟩ | ⟨front, back, parts, -, found⟩ :=
    findLastOf_cases ((text.drop curPos).take curWidth) space
  · rw [notFound]
    refine .inr (.inr ⟨rfl, unbroken fun index found => ?_⟩)
    cases notFound.symm.trans found
  · have here : ((text.drop curPos).take curWidth)[front.length]? = some space := by
      rw [parts, List.getElem?_append_right le_rfl, Nat.sub_self, List.getElem?_cons_zero]
    have within := findLastOf_lt found
    rw [List.length_take, lt_min_iff] at within
    rw [place within.1] at here
    rw [found]
    by_cases usable : front.length ≠ 0
    · simp only [if_pos usable]
      exact .inr (.inl here)
    · simp only [if_neg usable]
      -- the only space of the line is its first character
      refine .inr (.inr ⟨trivial, unbroken fun index other => ?_⟩)
      exact (Option.some.inj (other.symm.trans found)).trans (not_not.mp usable)

theorem skipSpaces_stops (text : Bytes) (curPos : ℕ) :
    (∀ index, curPos ≤ index → index < skipSpaces text curPos → text[index]? = some space) ∧
      text[skipSpaces text curPos]? ≠ some space := by
  have joined : (text.drop curPos).takeWhile (· = space) ++
      (text.drop curPos).dropWhile (· = space) = text.drop curPos :=
    List.takeWhile_append_dropWhile
  constructor
  · intro index behind before
    have within : index - curPos < ((text.drop curPos).takeWhile (· = space)).length := by
      rw [skipSpaces] at before
      omega
    have holds := List.mem_takeWhile_imp (List.getElem_mem within)
    have here : text[index]? = (text.drop curPos)[index - curPos]? := by
      rw [List.getElem?_drop, Nat.add_sub_cancel' behind]
    rw [here, ← joined, List.getElem?_append_left within, List.getElem?_eq_getElem within,
      of_decide_eq_true holds]
  · intro isSpace
    have stopped := List.head?_dropWhile_not (fun byte => decide (byte = space)) (text.drop curPos)
    rw [skipSpaces, ← List.getElem?_drop, ← congrArg (fun list : Bytes => list[_]?) joined,
      List.getElem?_append_right le_rfl, Nat.sub_self, ← List.head?_eq_getElem?] at isSpace
    rw [isSpace] at stopped
    exact absurd stopped (by decide)

/-! ### Torn words -/

/-- The text begins with a single space and a word as long as the width, which has more than one
character. -/
def TornWord (text : Bytes) (width : ℕ) : Prop :=
  2 ≤ width ∧ text.head? = some space ∧ IsWord text ⟨1, width⟩

/-- A word that begins inside a line ends inside it, unless the line begins with the single space at
the start of the text and the word is as long as the width. -/
theorem stop_le_of_start_lt {text : Bytes} {width curPos : ℕ} {word : TextView}
    (inside : curPos < text.length) (atStart : curPos = 0 ∨ text[curPos]? ≠ some space)
    (isWord : IsWord text word) (short : word.length ≤ width) (notTorn : ¬TornWord text width)
    (begins : curPos ≤ word.start) (within : word.start < curPos + lineWidth text width curPos) :
    word.stop ≤ curPos + lineWidth text width curPos := by
  by_contra beyond
  have size : word.stop = word.start + word.length := rfl
  have bound := isWord.inside
  have letter := isWord.letters _ within.le (Nat.lt_of_not_le beyond)
  rcases lineWidth_cases text width inside with ends | clean | ⟨full, noSpace⟩
  · omega
  · exact letter clean
  rw [full] at within beyond
  rcases isWord.before with atZero | afterSpace
  · omega
  · have first : word.start - 1 = curPos := by
      by_contra behind
      have different : word.start ≠ curPos := by omega
      exact noSpace (word.start - 1) (by omega) (by omega) afterSpace
    rw [first] at afterSpace
    have zero := atStart.resolve_right (not_not.mpr afterSpace)
    rw [zero, ← List.head?_eq_getElem?] at afterSpace
    have whole : word = ⟨1, width⟩ := by
      obtain ⟨start, length⟩ := word
      simp only [TextView.mk.injEq]
      simp only at *
      omega
    rw [whole] at isWord within
    exact notTorn ⟨by simp only at within; omega, afterSpace, isWord⟩

/-- The loop from a position on: every line is the first one or begins behind it, and the words from
there on that keep to the width lie inside one line. -/
theorem wrapViewLoop_spec (text : Bytes) {width : ℕ} (positive : 1 ≤ width) (curPos : ℕ)
    (atStart : curPos = 0 ∨ text[curPos]? ≠ some space) :
    ∃ lines, (∀ rounds, text.length - curPos < rounds →
        wrapViewLoop text width rounds curPos = some lines) ∧
      (∀ line ∈ lines, line = ⟨curPos, lineWidth text width curPos⟩ ∨
        curPos + lineWidth text width curPos ≤ line.start) ∧
      (¬TornWord text width → ∀ word, IsWord text word → word.length ≤ width →
        curPos ≤ word.start → ∃ line ∈ lines, line.Contains word) := by
  induction remaining : text.length - curPos using Nat.strong_induction_on generalizing curPos with
  | _ left inductionHypothesis =>
    by_cases inside : curPos < text.length
    · obtain ⟨progress, -, -⟩ := lineWidth_spec text positive inside
      obtain ⟨ahead, -⟩ := skipSpaces_spec text (curPos + lineWidth text width curPos)
      obtain ⟨skipped, stopped⟩ := skipSpaces_stops text (curPos + lineWidth text width curPos)
      obtain ⟨lines, returned, later, kept⟩ :=
        inductionHypothesis _ (by omega) _ (.inr stopped) rfl
      refine ⟨⟨curPos, lineWidth text width curPos⟩ :: lines, fun rounds enough => ?_,
        List.forall_mem_cons.mpr ⟨.inl rfl, fun line member => .inr ?_⟩,
        fun notTorn word isWord short begins => ?_⟩
      · cases rounds with
        | zero => exact absurd enough (Nat.not_lt_zero _)
        | succ rounds =>
          rw [wrapViewLoop, if_pos inside]
          simp only
          rw [returned rounds (by omega), Option.map_some]
      · rcases later line member with rfl | behind
        · exact ahead
        · omega
      · by_cases within : word.start < curPos + lineWidth text width curPos
        · exact ⟨_, List.mem_cons_self, begins,
            stop_le_of_start_lt inside atStart isWord short notTorn begins within⟩
        · -- a word behind the line begins behind the spaces that are skipped
          have beyond : skipSpaces text (curPos + lineWidth text width curPos) ≤ word.start := by
            by_contra before
            refine isWord.letters word.start le_rfl (Nat.lt_add_of_pos_right isWord.nonempty) ?_
            exact skipped word.start (Nat.le_of_not_lt within) (Nat.lt_of_not_le before)
          obtain ⟨line, member, contains⟩ := kept notTorn word isWord short beyond
          exact ⟨line, List.mem_cons_of_mem _ member, contains⟩
    · refine ⟨[], fun rounds enough => ?_, fun _ absent => absurd absent List.not_mem_nil,
        fun _ word isWord _ begins => ?_⟩
      · cases rounds with
        | zero => exact absurd enough (Nat.not_lt_zero _)
        | succ rounds => rw [wrapViewLoop, if_neg inside]
      · have bound : word.start + word.length ≤ text.length := isWord.inside
        have letter := isWord.nonempty
        omega

theorem lineWidth_of_torn {text : Bytes} {width : ℕ} (torn : TornWord text width) :
    lineWidth text width 0 = width := by
  obtain ⟨wide, -, isWord⟩ := torn
  have bound : 1 + width ≤ text.length := isWord.inside
  have inside : 0 < text.length := by omega
  obtain ⟨progress, fits, -⟩ := lineWidth_spec text (by omega : 1 ≤ width) inside
  rcases lineWidth_cases text width inside with ends | clean | ⟨full, -⟩
  · omega
  · -- a line does not end inside the word before a space
    rw [Nat.zero_add] at clean
    exact absurd clean (isWord.letters _ progress (lt_of_le_of_lt fits (Nat.lt_add_of_pos_left
      Nat.one_pos)))
  · exact full

/-- For every width the function comes to an end. Every word that is not longer than the width lies
inside one line exactly if the text does not begin with a single space and a word as long as the
width, of more than one character. -/
theorem wordWrap_keepsWords_iff (text : Bytes) (width : ℕ) :
    (∃ lines, (∀ rounds, text.length < rounds → wordWrapViews rounds text width = some lines) ∧
        ∀ word, IsWord text word → word.length ≤ width → ∃ line ∈ lines, line.Contains word) ↔
      ¬TornWord text width := by
  by_cases short : width = 0 ∨ text.length ≤ width
  · refine iff_of_true ⟨[⟨0, text.length⟩], fun rounds _ => if_pos short, ?_⟩ ?_
    · intro word isWord _
      refine ⟨_, List.mem_singleton_self _, Nat.zero_le _, ?_⟩
      exact isWord.inside.trans (Nat.zero_add _).ge
    · rintro ⟨wide, -, isWord⟩
      have bound : 1 + width ≤ text.length := isWord.inside
      omega
  · have positive : 1 ≤ width := by omega
    obtain ⟨lines, returned, places, kept⟩ := wrapViewLoop_spec text positive 0 (.inl rfl)
    have wrapped : ∀ rounds, text.length < rounds →
        wordWrapViews rounds text width = some lines := by
      intro rounds enough
      rw [wordWrapViews, if_neg short]
      exact returned rounds enough
    constructor
    · rintro ⟨others, alike, whole⟩ torn
      have same : lines = others := Option.some.inj
        ((wrapped _ (Nat.lt_succ_self _)).symm.trans (alike _ (Nat.lt_succ_self _)))
      have wide := torn.1
      obtain ⟨line, member, begins, ends⟩ := whole ⟨1, width⟩ torn.2.2 le_rfl
      have place := places line (same ▸ member)
      rw [lineWidth_of_torn torn] at place
      simp only [TextView.stop] at begins ends
      rcases place with rfl | behind
      · simp only at ends
        omega
      · omega
    · intro notTorn
      exact ⟨lines, wrapped, fun word isWord fits =>
        kept notTorn word isWord fits (Nat.zero_le _)⟩

/-- The word `abc` behind a single space does not lie inside one line of three characters. -/
theorem leadingSpace_tearsWord :
    wordWrapViews 5 (ascii " abc") 3 = some [⟨0, 3⟩, ⟨3, 1⟩] ∧
      wordWrap 5 (ascii " abc") 3 = some [ascii " ab", ascii "c"] ∧
      IsWord (ascii " abc") ⟨1, 3⟩ ∧
      ¬∃ line ∈ [(⟨0, 3⟩ : TextView), ⟨3, 1⟩], line.Contains ⟨1, 3⟩ := by
  refine ⟨rfl, rfl, ⟨by decide, by decide, ?_, .inr rfl, .inl rfl⟩, ?_⟩
  · intro index begins ends
    have range : index = 1 ∨ index = 2 ∨ index = 3 := by
      simp only [TextView.stop] at begins ends
      omega
    rcases range with rfl | rfl | rfl <;> decide
  · rintro ⟨line, member, contains⟩
    simp only [List.mem_cons, List.not_mem_nil, or_false] at member
    rcases member with rfl | rfl
    · exact absurd contains.2 (by decide)
    · exact absurd contains.1 (by decide)

end NativeLibs
