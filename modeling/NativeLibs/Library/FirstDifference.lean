/-
This file is the project's library on the first place at which two lists differ.
Two lists either are such that one begins with the other, or have a common part
behind which their next elements differ. The lexicographic order is decided there.
-/

import Mathlib.Tactic

namespace NativeLibs.Library

variable {Element : Type*}

/-- Behind a common part the next elements of two lists differ. -/
structure FirstDifference (common : List Element) (first second : Element)
    (left right : List Element) : Prop where
  differ : first ≠ second
  left : ∃ rest, left = common ++ first :: rest
  right : ∃ rest, right = common ++ second :: rest

namespace FirstDifference

variable {common left right : List Element} {first second : Element}

theorem symm (difference : FirstDifference common first second left right) :
    FirstDifference common second first right left :=
  ⟨difference.differ.symm, difference.right, difference.left⟩

theorem cons (element : Element) (difference : FirstDifference common first second left right) :
    FirstDifference (element :: common) first second (element :: left) (element :: right) := by
  obtain ⟨differ, ⟨leftRest, rfl⟩, ⟨rightRest, rfl⟩⟩ := difference
  exact ⟨differ, ⟨leftRest, rfl⟩, ⟨rightRest, rfl⟩⟩

theorem append (difference : FirstDifference common first second left right)
    (leftMore rightMore : List Element) :
    FirstDifference common first second (left ++ leftMore) (right ++ rightMore) := by
  obtain ⟨differ, ⟨leftRest, rfl⟩, ⟨rightRest, rfl⟩⟩ := difference
  exact ⟨differ, ⟨leftRest ++ leftMore, List.append_assoc _ _ _⟩,
    ⟨rightRest ++ rightMore, List.append_assoc _ _ _⟩⟩

theorem ne (difference : FirstDifference common first second left right) : left ≠ right := by
  obtain ⟨differ, ⟨leftRest, rfl⟩, ⟨rightRest, rfl⟩⟩ := difference
  intro same
  exact differ (List.cons.inj (List.append_cancel_left same)).1

theorem length_lt (difference : FirstDifference common first second left right) :
    common.length < min left.length right.length := by
  obtain ⟨-, ⟨leftRest, rfl⟩, ⟨rightRest, rfl⟩⟩ := difference
  simp only [List.length_append, List.length_cons]
  omega

theorem lt_iff [LT Element] [Std.Irrefl fun one other : Element => one < other]
    (difference : FirstDifference common first second left right) :
    left < right ↔ first < second := by
  obtain ⟨differ, ⟨leftRest, rfl⟩, ⟨rightRest, rfl⟩⟩ := difference
  induction common with
  | nil =>
    rw [List.nil_append, List.nil_append, List.cons_lt_cons_iff]
    exact or_iff_left fun same => differ same.1
  | cons element common inductionHypothesis =>
    rw [List.cons_append, List.cons_append, List.cons_lt_cons_iff, ← inductionHypothesis]
    refine ⟨fun less => ?_, fun less => .inr ⟨rfl, less⟩⟩
    rcases less with less | ⟨-, less⟩
    · exact absurd less (Std.Irrefl.irrefl element)
    · exact less

end FirstDifference

/-- Two lists of which none begins with the other have a first difference. -/
theorem prefix_or_firstDifference (left right : List Element) :
    left <+: right ∨ right <+: left ∨
      ∃ common first second, FirstDifference common first second left right := by
  classical
  induction left generalizing right with
  | nil => exact .inl (List.nil_prefix)
  | cons element left inductionHypothesis =>
    cases right with
    | nil => exact .inr (.inl List.nil_prefix)
    | cons other right =>
      by_cases same : element = other
      · subst same
        rcases inductionHypothesis right with shorter | longer | ⟨common, first, second, difference⟩
        · exact .inl ((List.prefix_cons_inj element).mpr shorter)
        · exact .inr (.inl ((List.prefix_cons_inj element).mpr longer))
        · exact .inr (.inr ⟨element :: common, first, second, difference.cons element⟩)
      · exact .inr (.inr ⟨[], element, other, same, ⟨left, rfl⟩, ⟨right, rfl⟩⟩)

section

variable [LT Element] [Std.Irrefl fun one other : Element => one < other]

theorem lt_append_iff (left rest : List Element) : left < left ++ rest ↔ rest ≠ [] := by
  induction left with
  | nil =>
    cases rest with
    | nil => exact iff_of_false (List.not_lt_nil []) (not_not.mpr rfl)
    | cons element rest => exact iff_of_true (List.nil_lt_cons element rest) (List.cons_ne_nil _ _)
  | cons element left inductionHypothesis =>
    rw [List.cons_append, List.cons_lt_cons_iff, ← inductionHypothesis]
    refine ⟨fun less => ?_, fun less => .inr ⟨rfl, less⟩⟩
    rcases less with less | ⟨-, less⟩
    · exact absurd less (Std.Irrefl.irrefl element)
    · exact less

theorem not_append_lt (left rest : List Element) : ¬left ++ rest < left := by
  induction left with
  | nil => exact List.not_lt_nil _
  | cons element left inductionHypothesis =>
    rw [List.cons_append, List.cons_lt_cons_iff]
    rintro (less | ⟨-, less⟩)
    · exact absurd less (Std.Irrefl.irrefl element)
    · exact inductionHypothesis less

end

end NativeLibs.Library
