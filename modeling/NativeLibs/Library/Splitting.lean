/-
This file is the project's library on splitting a text at a delimiter. The
occurrences of the delimiter are searched from left to right, each behind the
one before, and the parts are what stands between them. Joined with the
delimiter they give the text back. If the empty parts are left out this is so
only if there are none, or if the text is empty.

A loop that cuts a text knows a search from a position on and the width of what
is cut out. `CutsInto` says which parts it finds.
-/

import Mathlib.Tactic

namespace NativeLibs.Library

variable {Letter : Type*}

/-! ### Occurrences -/

section

variable [BEq Letter]

/-- The first position at which the delimiter occurs. -/
def occurrence (delimiter text : List Letter) : Option ℕ :=
  text.tails.findIdx? fun suffix => delimiter.isPrefixOf suffix

/-- The parts of a text, of which at most so many are cut off. -/
def partsWithin (delimiter : List Letter) : ℕ → List Letter → List (List Letter)
  | 0, text => [text]
  | cuts + 1, text =>
    match occurrence delimiter text with
    | none => [text]
    | some position =>
      text.take position :: partsWithin delimiter cuts (text.drop (position + delimiter.length))

/-- The parts of a text. -/
def parts (delimiter text : List Letter) : List (List Letter) :=
  partsWithin delimiter text.length text

variable [LawfulBEq Letter]

theorem occurrence_eq_none_iff (delimiter text : List Letter) :
    occurrence delimiter text = none ↔ ¬delimiter <:+: text := by
  rw [occurrence, List.findIdx?_eq_none_iff, List.infix_iff_prefix_suffix]
  simp only [List.mem_tails, not_exists, not_and]
  refine forall_congr' fun suffix => ?_
  rw [← List.isPrefixOf_iff_prefix, ← Bool.not_eq_true]
  exact imp_not_comm

/-- The delimiter stands where it is found. -/
theorem prefix_of_occurrence {delimiter text : List Letter} {position : ℕ}
    (found : occurrence delimiter text = some position) :
    position ≤ text.length ∧ delimiter <+: text.drop position := by
  obtain ⟨inside, here, -⟩ := List.findIdx?_eq_some_iff_getElem.mp found
  rw [List.getElem_tails, List.isPrefixOf_iff_prefix] at here
  rw [List.length_tails] at inside
  exact ⟨Nat.le_of_lt_succ inside, here⟩

theorem eq_of_occurrence {delimiter text : List Letter} {position : ℕ}
    (found : occurrence delimiter text = some position) :
    text = text.take position ++ (delimiter ++ text.drop (position + delimiter.length)) := by
  obtain ⟨-, rest, joined⟩ := prefix_of_occurrence found
  have behind : text.drop (position + delimiter.length) = rest := by
    rw [← List.drop_drop, ← joined, List.drop_left]
  rw [behind, joined, List.take_append_drop]

theorem le_of_occurrence {delimiter text : List Letter} {position : ℕ}
    (found : occurrence delimiter text = some position) :
    position + delimiter.length ≤ text.length := by
  obtain ⟨inside, here⟩ := prefix_of_occurrence found
  have fits := here.length_le
  rw [List.length_drop] at fits
  omega

theorem occurrence_append (before : List Letter) {first : Letter} (later rest : List Letter)
    (free : first ∉ before) :
    occurrence (first :: later) (before ++ (first :: later ++ rest)) = some before.length := by
  induction before with
  | nil =>
    have here : (first :: later).isPrefixOf (first :: (later ++ rest)) = true :=
      List.isPrefixOf_iff_prefix.mpr ⟨rest, rfl⟩
    rw [occurrence, List.nil_append, List.cons_append, List.tails_cons, List.findIdx?_cons,
      if_pos here]
    rfl
  | cons letter before inductionHypothesis =>
    rw [List.mem_cons, not_or] at free
    have elsewhere : (first :: later).isPrefixOf (letter :: (before ++ (first :: later ++ rest))) =
        false := by
      rw [List.isPrefixOf, beq_false_of_ne free.1, Bool.false_and]
    rw [occurrence] at inductionHypothesis ⊢
    rw [List.cons_append, List.tails_cons, List.findIdx?_cons, elsewhere,
      if_neg Bool.false_ne_true, inductionHypothesis free.2]
    rfl

/-! ### Parts -/

theorem length_drop_lt {delimiter text : List Letter} (nonempty : delimiter ≠ []) {position : ℕ}
    (found : occurrence delimiter text = some position) :
    (text.drop (position + delimiter.length)).length < text.length := by
  have within := le_of_occurrence found
  have wide := List.length_pos_iff.mpr nonempty
  rw [List.length_drop]
  omega

/-- A fact about all texts from texts without the delimiter and from what stands behind its first
occurrence. -/
theorem splitting_induction {delimiter : List Letter} (nonempty : delimiter ≠ [])
    {motive : List Letter → Prop}
    (last : ∀ text, occurrence delimiter text = none → motive text)
    (cut : ∀ text position, occurrence delimiter text = some position →
      motive (text.drop (position + delimiter.length)) → motive text)
    (text : List Letter) : motive text := by
  induction size : text.length using Nat.strong_induction_on generalizing text with
  | _ length inductionHypothesis =>
    cases found : occurrence delimiter text with
    | none => exact last text found
    | some position =>
      have shorter := length_drop_lt nonempty found
      rw [size] at shorter
      exact cut text position found (inductionHypothesis _ shorter _ rfl)

theorem partsWithin_succ {delimiter : List Letter} (nonempty : delimiter ≠ []) {cuts : ℕ}
    {text : List Letter} (enough : text.length ≤ cuts) :
    partsWithin delimiter (cuts + 1) text = partsWithin delimiter cuts text := by
  induction cuts generalizing text with
  | zero =>
    rw [partsWithin, partsWithin]
    cases found : occurrence delimiter text with
    | none => rfl
    | some position =>
      have shorter := length_drop_lt nonempty found
      omega
  | succ cuts inductionHypothesis =>
    rw [partsWithin, partsWithin]
    cases found : occurrence delimiter text with
    | none => rfl
    | some position =>
      have shorter := length_drop_lt nonempty found
      simp only
      rw [inductionHypothesis (by omega)]

theorem partsWithin_eq_parts {delimiter : List Letter} (nonempty : delimiter ≠ []) {cuts : ℕ}
    {text : List Letter} (enough : text.length ≤ cuts) :
    partsWithin delimiter cuts text = parts delimiter text := by
  induction cuts, enough using Nat.le_induction with
  | base => rfl
  | succ cuts enough inductionHypothesis =>
    rw [partsWithin_succ nonempty enough, inductionHypothesis]

theorem parts_of_absent {delimiter text : List Letter} (nonempty : delimiter ≠ [])
    (absent : occurrence delimiter text = none) : parts delimiter text = [text] := by
  rw [← partsWithin_eq_parts nonempty (Nat.le_succ _), partsWithin, absent]

theorem parts_of_found {delimiter text : List Letter} (nonempty : delimiter ≠ []) {position : ℕ}
    (found : occurrence delimiter text = some position) :
    parts delimiter text =
      text.take position :: parts delimiter (text.drop (position + delimiter.length)) := by
  rw [← partsWithin_eq_parts nonempty (Nat.le_succ _), partsWithin, found]
  simp only
  rw [partsWithin_eq_parts nonempty (length_drop_lt nonempty found).le]

theorem parts_ne_nil {delimiter : List Letter} (nonempty : delimiter ≠ []) (text : List Letter) :
    parts delimiter text ≠ [] := by
  cases found : occurrence delimiter text with
  | none =>
    rw [parts_of_absent nonempty found]
    exact List.cons_ne_nil _ _
  | some position =>
    rw [parts_of_found nonempty found]
    exact List.cons_ne_nil _ _

theorem intercalate_parts {delimiter : List Letter} (nonempty : delimiter ≠ [])
    (text : List Letter) : delimiter.intercalate (parts delimiter text) = text := by
  induction text using splitting_induction nonempty with
  | last text absent => rw [parts_of_absent nonempty absent, List.intercalate_singleton]
  | cut text position found inductionHypothesis =>
    rw [parts_of_found nonempty found,
      List.intercalate_cons_of_ne_nil (parts_ne_nil nonempty _), inductionHypothesis,
      List.append_assoc, ← eq_of_occurrence found]

end

/-! ### Joining -/

theorem length_intercalate (delimiter : List Letter) (pieces : List (List Letter)) :
    (delimiter.intercalate pieces).length =
      (pieces.map List.length).sum + (pieces.length - 1) * delimiter.length := by
  induction pieces with
  | nil => simp
  | cons piece pieces inductionHypothesis =>
    cases pieces with
    | nil => simp
    | cons second pieces =>
      rw [List.intercalate_cons_cons, List.length_append, List.length_append, inductionHypothesis]
      simp only [List.map_cons, List.sum_cons, List.length_cons, Nat.add_sub_cancel, Nat.succ_mul]
      omega

theorem intercalate_joined (delimiter : List Letter) (pieces : List (List Letter))
    (first second : List Letter) :
    delimiter.intercalate (pieces ++ [first ++ delimiter ++ second]) =
      delimiter.intercalate (pieces ++ [first] ++ [second]) := by
  induction pieces with
  | nil => simp
  | cons piece pieces inductionHypothesis =>
    rw [List.cons_append, List.cons_append, List.cons_append,
      List.intercalate_cons_of_ne_nil (List.append_ne_nil_of_right_ne_nil _ (List.cons_ne_nil _ _)),
      List.intercalate_cons_of_ne_nil (List.append_ne_nil_of_right_ne_nil _ (List.cons_ne_nil _ _)),
      inductionHypothesis]

theorem length_parts_le [BEq Letter] [LawfulBEq Letter] {delimiter : List Letter}
    (nonempty : delimiter ≠ []) (text : List Letter) :
    (parts delimiter text).length ≤ text.length + 1 := by
  have total := length_intercalate delimiter (parts delimiter text)
  have joints := Nat.le_mul_of_pos_right ((parts delimiter text).length - 1)
    (List.length_pos_iff.mpr nonempty)
  rw [intercalate_parts nonempty] at total
  omega

theorem sum_length_filter [DecidableEq Letter] (pieces : List (List Letter)) :
    ((pieces.filter fun piece => piece ≠ []).map List.length).sum =
      (pieces.map List.length).sum := by
  induction pieces with
  | nil => rfl
  | cons piece pieces inductionHypothesis =>
    by_cases empty : piece = []
    · rw [List.filter_cons_of_neg (by simp [empty]), inductionHypothesis, empty]
      simp
    · rw [List.filter_cons_of_pos (by simp [empty]), List.map_cons, List.map_cons, List.sum_cons,
        List.sum_cons, inductionHypothesis]

/-- The empty pieces can be left out without a loss exactly if there are none, or if nothing is
joined to anything. -/
theorem intercalate_filter_eq_iff [DecidableEq Letter] {delimiter : List Letter}
    (nonempty : delimiter ≠ []) (pieces : List (List Letter)) :
    delimiter.intercalate (pieces.filter fun piece => piece ≠ []) = delimiter.intercalate pieces ↔
      delimiter.intercalate pieces = [] ∨ [] ∉ pieces := by
  have wide := List.length_pos_iff.mpr nonempty
  have all := length_intercalate delimiter pieces
  have kept := length_intercalate delimiter (pieces.filter fun piece => piece ≠ [])
  rw [sum_length_filter] at kept
  constructor
  · intro same
    by_contra lossy
    rw [not_or, not_not] at lossy
    have fewer : (pieces.filter fun piece => piece ≠ []).length < pieces.length :=
      List.length_filter_lt_length_iff_exists.mpr ⟨[], lossy.2, by simp⟩
    have remaining : (pieces.filter fun piece => piece ≠ []) ≠ [] := by
      intro nothing
      rw [nothing, List.intercalate_nil] at same
      exact lossy.1 same.symm
    have positive := List.length_pos_iff.mpr remaining
    have joints : ((pieces.filter fun piece => piece ≠ []).length - 1) * delimiter.length <
        (pieces.length - 1) * delimiter.length :=
      Nat.mul_lt_mul_of_pos_right (by omega) wide
    rw [same] at kept
    omega
  · rintro (empty | absent)
    · have fewer : ((pieces.filter fun piece => piece ≠ []).length - 1) * delimiter.length ≤
          (pieces.length - 1) * delimiter.length :=
        Nat.mul_le_mul_right _ (Nat.sub_le_sub_right (List.length_filter_le _ _) 1)
      rw [empty, List.length_nil] at all
      rw [empty]
      exact List.length_eq_zero_iff.mp (by omega)
    · rw [List.filter_eq_self.mpr]
      intro piece member
      exact decide_eq_true fun empty => absent (empty ▸ member)

/-! ### Cutting loops -/

/-- The parts that are found from a position on, with a search for the next place to cut and the
width of what is cut out there. -/
inductive CutsInto (find : ℕ → Option ℕ) (width : ℕ) (text : List Letter) :
    ℕ → List (List Letter) → Prop where
  | last {seek : ℕ} (inside : seek ≤ text.length) (absent : find seek = none) :
      CutsInto find width text seek [text.drop seek]
  | next {seek position : ℕ} {pieces : List (List Letter)} (found : find seek = some position)
      (ahead : seek ≤ position) (later : CutsInto find width text (position + width) pieces) :
      CutsInto find width text seek ((text.drop seek).take (position - seek) :: pieces)

/-- A search for the next occurrence of a delimiter cuts a text into its parts. -/
theorem cut_parts [BEq Letter] [LawfulBEq Letter] {delimiter : List Letter}
    (nonempty : delimiter ≠ []) {text : List Letter} {find : ℕ → Option ℕ}
    (searches : ∀ seek ≤ text.length,
      find seek = (occurrence delimiter (text.drop seek)).map (seek + ·))
    {seek : ℕ} (inside : seek ≤ text.length) :
    CutsInto find delimiter.length text seek (parts delimiter (text.drop seek)) := by
  induction rest : text.drop seek using splitting_induction nonempty generalizing seek with
  | last behind absent =>
    subst rest
    rw [parts_of_absent nonempty absent]
    exact .last inside (by rw [searches seek inside, absent, Option.map_none])
  | cut behind position found inductionHypothesis =>
    subst rest
    have within := le_of_occurrence found
    rw [List.length_drop] at within
    have further : text.drop (seek + position + delimiter.length) =
        (text.drop seek).drop (position + delimiter.length) := by
      rw [List.drop_drop, Nat.add_assoc]
    have later := inductionHypothesis (by omega) further
    have here : find seek = some (seek + position) := by
      rw [searches seek inside, found, Option.map_some]
    have whole := CutsInto.next here (Nat.le_add_right _ _) later
    rw [Nat.add_sub_cancel_left] at whole
    rw [parts_of_found nonempty found]
    exact whole

/-- The parts of a text around the first letter of a kind. -/
theorem splitOnP_of_found {separates : Letter → Bool} {text : List Letter} {position : ℕ}
    (found : text.findIdx? separates = some position) :
    position < text.length ∧
      text.splitOnP separates =
        text.take position :: (text.drop (position + 1)).splitOnP separates := by
  obtain ⟨inside, here, before⟩ := List.findIdx?_eq_some_iff_getElem.mp found
  have free : ∀ letter ∈ text.take position, separates letter = false := by
    intro letter member
    obtain ⟨index, within, rfl⟩ := List.mem_take_iff_getElem.mp member
    exact Bool.eq_false_iff.mpr (before index (lt_min_iff.mp within).1)
  have whole : text = text.take position ++ text[position] :: text.drop (position + 1) := by
    rw [← List.drop_eq_getElem_cons inside, List.take_append_drop]
  refine ⟨inside, ?_⟩
  conv_lhs => rw [whole]
  exact List.splitOnP_append_cons_of_forall_mem free _ here _

theorem cut_splitOnP {separates : Letter → Bool} {text : List Letter} {find : ℕ → Option ℕ}
    (searches : ∀ seek, find seek = ((text.drop seek).findIdx? separates).map (seek + ·))
    {seek : ℕ} (inside : seek ≤ text.length) :
    CutsInto find 1 text seek ((text.drop seek).splitOnP separates) := by
  induction size : text.length - seek using Nat.strong_induction_on generalizing seek with
  | _ size inductionHypothesis =>
    have search := searches seek
    cases found : (text.drop seek).findIdx? separates with
    | none =>
      rw [List.splitOnP_eq_singleton (List.findIdx?_eq_none_iff.mp found)]
      refine .last inside ?_
      rw [search, found, Option.map_none]
    | some position =>
      obtain ⟨within, cut⟩ := splitOnP_of_found found
      rw [List.length_drop] at within
      have later := inductionHypothesis (text.length - (seek + position + 1)) (by omega)
        (by omega : seek + position + 1 ≤ text.length) rfl
      have here : find seek = some (seek + position) := by
        rw [search, found, Option.map_some]
      have whole := CutsInto.next here (Nat.le_add_right _ _) later
      rw [Nat.add_sub_cancel_left, Nat.add_assoc, ← List.drop_drop] at whole
      rw [cut]
      exact whole

/-- A delimiter of one letter occurs where the letter does. -/
theorem occurrence_singleton [BEq Letter] [LawfulBEq Letter] (letter : Letter)
    (text : List Letter) : occurrence [letter] text = text.findIdx? (· == letter) := by
  induction text with
  | nil => rfl
  | cons first text inductionHypothesis =>
    have here : [letter].isPrefixOf (first :: text) = (first == letter) := by
      rw [List.isPrefixOf, List.isPrefixOf, Bool.and_true, Bool.beq_comm]
    rw [occurrence] at inductionHypothesis ⊢
    rw [List.tails_cons, List.findIdx?_cons, List.findIdx?_cons, here, inductionHypothesis]

theorem parts_singleton [BEq Letter] [LawfulBEq Letter] (letter : Letter) (text : List Letter) :
    parts [letter] text = text.splitOn letter := by
  have nonempty : [letter] ≠ [] := List.cons_ne_nil _ _
  rw [List.splitOn_eq_splitOnP]
  induction text using splitting_induction nonempty with
  | last text absent =>
    rw [parts_of_absent nonempty absent]
    rw [occurrence_singleton, List.findIdx?_eq_none_iff] at absent
    exact (List.splitOnP_eq_singleton absent).symm
  | cut text position found inductionHypothesis =>
    rw [parts_of_found nonempty found, inductionHypothesis]
    rw [occurrence_singleton] at found
    exact (splitOnP_of_found found).2.symm

theorem length_splitOnP (separates : Letter → Bool) (text : List Letter) :
    (text.splitOnP separates).length = text.countP separates + 1 := by
  induction text with
  | nil => rfl
  | cons letter text inductionHypothesis =>
    rw [List.splitOnP_cons_eq_if_modifyHead, List.countP_cons]
    by_cases here : separates letter = true
    · rw [if_pos here, if_pos here, List.length_cons, inductionHypothesis]
    · rw [if_neg here, if_neg here, List.length_modifyHead, inductionHypothesis]

end NativeLibs.Library
