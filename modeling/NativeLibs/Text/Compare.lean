/-
This file models how byte strings are compared: the two functions of the C library
that the code uses, and the views of bytes, whose `char_traits` compare with the
one that takes its arguments for C strings.

`strncmp` takes two strings for equal as soon as both have a zero byte at the same
place, whatever stands behind it. A comparison of views then goes by their lengths
alone. It agrees with the order of the bytes exactly when the two do not differ
behind a common zero byte, or differ there in the direction of their lengths.
-/

import NativeLibs.Library.FirstDifference
import NativeLibs.Text.Bytes

namespace NativeLibs

open Library

/-! ### The functions -/

/-- How the C library compares two bytes that differ. Of the number it returns only the sign is
specified. -/
def compareByte (left right : UInt8) : Ordering := if left < right then .lt else .gt

/-- `memcmp`, which is never asked for more bytes than both sides have. -/
def memcmp : Bytes → Bytes → ℕ → Ordering
  | left :: lefts, right :: rights, count + 1 =>
    if left ≠ right then compareByte left right else memcmp lefts rights count
  | _, _, _ => .eq

/-- `strncmp`, which is never asked for more bytes than both sides have. -/
def strncmp : Bytes → Bytes → ℕ → Ordering
  | left :: lefts, right :: rights, count + 1 =>
    if left ≠ right then compareByte left right
    else if left = 0 then .eq
    else strncmp lefts rights count
  | _, _, _ => .eq

/-- `std::char_traits<unsigned char>::compare`. -/
def charTraitsCompare (left right : Bytes) (size : ℕ) : Ordering := strncmp left right size

/-- `basic_string_view::compare`. -/
def viewCompare (left right : Bytes) : Ordering :=
  let result := charTraitsCompare left right (min left.length right.length)
  if result ≠ .eq then result else compare left.length right.length

/-- `operator==` of two views. -/
def viewEquals (left right : Bytes) : Bool :=
  left.length = right.length && viewCompare left right = .eq

/-- `operator<` of two views. -/
def viewLess (left right : Bytes) : Bool := viewCompare left right = .lt

/-! ### What they return -/

theorem compareByte_ne_eq (left right : UInt8) : compareByte left right ≠ .eq := by
  rw [compareByte]
  split
  · exact Ordering.noConfusion
  · exact Ordering.noConfusion

theorem compareByte_lt_iff (left right : UInt8) : compareByte left right = .lt ↔ left < right := by
  rw [compareByte]
  split
  · rename_i less
    exact iff_of_true rfl less
  · rename_i notLess
    exact iff_of_false Ordering.noConfusion notLess

theorem compareByte_gt_iff {left right : UInt8} (differ : left ≠ right) :
    compareByte left right = .gt ↔ right < left := by
  rw [compareByte]
  split
  · rename_i less
    exact iff_of_false Ordering.noConfusion (UInt8.lt_asymm less)
  · rename_i notLess
    refine iff_of_true rfl ?_
    exact (UInt8.lt_or_lt_of_ne differ).resolve_left notLess

theorem strncmp_zero (left right : Bytes) : strncmp left right 0 = .eq := by
  rw [strncmp]
  exact fun _ _ _ _ _ _ _ => Nat.noConfusion

theorem strncmp_self (bytes : Bytes) (leftRest rightRest : Bytes) :
    strncmp (bytes ++ leftRest) (bytes ++ rightRest) bytes.length = .eq := by
  induction bytes with
  | nil => exact strncmp_zero leftRest rightRest
  | cons byte bytes inductionHypothesis =>
    rw [List.cons_append, List.cons_append, List.length_cons, strncmp, if_neg (not_not.mpr rfl),
      inductionHypothesis, ite_self]

theorem strncmp_of_difference {common left right : Bytes} {first second : UInt8}
    (difference : FirstDifference common first second left right) {count : ℕ}
    (reached : common.length < count) :
    strncmp left right count = if 0 ∈ common then .eq else compareByte first second := by
  obtain ⟨differ, ⟨leftRest, rfl⟩, ⟨rightRest, rfl⟩⟩ := difference
  induction common generalizing count with
  | nil =>
    obtain ⟨less, rfl⟩ := Nat.exists_eq_add_of_lt reached
    rw [if_neg List.not_mem_nil, List.nil_append, List.nil_append, strncmp, if_pos differ]
  | cons byte common inductionHypothesis =>
    obtain ⟨less, rfl⟩ := Nat.exists_eq_add_of_lt reached
    rw [List.cons_append, List.cons_append, strncmp, if_neg (not_not.mpr rfl)]
    by_cases zero : byte = 0
    · rw [if_pos zero, if_pos (zero ▸ List.mem_cons_self)]
    · have later : 0 ∈ byte :: common ↔ 0 ∈ common :=
        List.mem_cons.trans (or_iff_right fun same => zero same.symm)
      rw [if_neg zero, inductionHypothesis (by rw [List.length_cons]; omega)]
      simp only [later]

/-- `memcmp` finds two areas equal when they are. -/
theorem memcmp_eq_iff {left right : Bytes} {count : ℕ} (leftSize : count ≤ left.length)
    (rightSize : count ≤ right.length) :
    memcmp left right count = .eq ↔ left.take count = right.take count := by
  induction count generalizing left right with
  | zero => simp [memcmp]
  | succ count inductionHypothesis =>
    obtain ⟨first, left, rfl⟩ := List.exists_cons_of_length_pos (Nat.zero_lt_of_lt leftSize)
    obtain ⟨second, right, rfl⟩ := List.exists_cons_of_length_pos (Nat.zero_lt_of_lt rightSize)
    rw [memcmp, List.take_succ_cons, List.take_succ_cons, List.cons_eq_cons]
    by_cases same : first = second
    · rw [if_neg (not_not.mpr same), and_iff_right same]
      exact inductionHypothesis (Nat.le_of_succ_le_succ leftSize) (Nat.le_of_succ_le_succ rightSize)
    · rw [if_pos same]
      exact iff_of_false (compareByte_ne_eq first second) fun both => same both.1

/-- `memcmp` orders two areas lexicographically. -/
theorem memcmp_lt_iff {left right : Bytes} {count : ℕ} (leftSize : count ≤ left.length)
    (rightSize : count ≤ right.length) :
    memcmp left right count = .lt ↔ left.take count < right.take count := by
  induction count generalizing left right with
  | zero => simp [memcmp]
  | succ count inductionHypothesis =>
    obtain ⟨first, left, rfl⟩ := List.exists_cons_of_length_pos (Nat.zero_lt_of_lt leftSize)
    obtain ⟨second, right, rfl⟩ := List.exists_cons_of_length_pos (Nat.zero_lt_of_lt rightSize)
    rw [memcmp, List.take_succ_cons, List.take_succ_cons, List.cons_lt_cons_iff]
    by_cases same : first = second
    · subst same
      rw [if_neg (not_not.mpr rfl), or_iff_right (UInt8.lt_irrefl first), and_iff_right rfl]
      exact inductionHypothesis (Nat.le_of_succ_le_succ leftSize) (Nat.le_of_succ_le_succ rightSize)
    · rw [if_pos same, compareByte_lt_iff, or_iff_left fun both => same both.1]

/-! ### Views -/

theorem viewCompare_of_eq {left right : Bytes}
    (same : strncmp left right (min left.length right.length) = .eq) :
    viewCompare left right = compare left.length right.length := by
  rw [viewCompare, charTraitsCompare, same]
  rfl

theorem viewCompare_of_difference {common left right : Bytes} {first second : UInt8}
    (difference : FirstDifference common first second left right) :
    viewCompare left right =
      if 0 ∈ common then compare left.length right.length else compareByte first second := by
  have compared := strncmp_of_difference difference difference.length_lt
  by_cases zero : 0 ∈ common
  · rw [if_pos zero] at compared ⊢
    exact viewCompare_of_eq compared
  · rw [if_neg zero] at compared ⊢
    rw [viewCompare, charTraitsCompare, compared]
    exact if_pos (compareByte_ne_eq first second)

theorem viewCompare_of_prefix (left rest : Bytes) :
    viewCompare left (left ++ rest) = compare left.length (left ++ rest).length ∧
      viewCompare (left ++ rest) left = compare (left ++ rest).length left.length := by
  have shorter : left.length ≤ (left ++ rest).length := by
    rw [List.length_append]
    exact Nat.le_add_right _ _
  constructor
  · refine viewCompare_of_eq ?_
    rw [min_eq_left shorter]
    simpa using strncmp_self left [] rest
  · refine viewCompare_of_eq ?_
    rw [min_eq_right shorter]
    simpa using strncmp_self left rest []

/-! ### Agreement with the order of bytes -/

/-- Two views compare like the sequences of their bytes. -/
structure ComparesAsBytes (left right : Bytes) : Prop where
  equals : viewEquals left right = true ↔ left = right
  less : viewLess left right = true ↔ left < right
  compareEqual : viewCompare left right = .eq ↔ left = right
  compareLess : viewCompare left right = .lt ↔ left < right
  compareGreater : viewCompare left right = .gt ↔ right < left

/-- The two operators follow `compare`. -/
theorem comparesAsBytes_iff (left right : Bytes) :
    ComparesAsBytes left right ↔ (viewCompare left right = .eq ↔ left = right) ∧
      (viewCompare left right = .lt ↔ left < right) ∧
      (viewCompare left right = .gt ↔ right < left) := by
  constructor
  · intro compares
    exact ⟨compares.compareEqual, compares.compareLess, compares.compareGreater⟩
  · rintro ⟨equal, less, greater⟩
    refine ⟨?_, ?_, equal, less, greater⟩
    · rw [viewEquals, Bool.and_eq_true, decide_eq_true_iff, decide_eq_true_iff, equal]
      exact and_iff_right_of_imp fun same => congrArg List.length same
    · rw [viewLess, decide_eq_true_iff]
      exact less

/-- Views that differ behind a common zero byte differ there in the direction of their lengths. -/
def HiddenInOrder (left right : Bytes) : Prop :=
  ∀ common first second, FirstDifference common first second left right → 0 ∈ common →
    (first < second ∧ left.length < right.length) ∨ (second < first ∧ right.length < left.length)

theorem comparesAsBytes_of_difference {common left right : Bytes} {first second : UInt8}
    (difference : FirstDifference common first second left right) :
    ComparesAsBytes left right ↔ (0 ∈ common →
      (first < second ∧ left.length < right.length) ∨
        (second < first ∧ right.length < left.length)) := by
  have before : left < right ↔ first < second := difference.lt_iff
  have after : right < left ↔ second < first := difference.symm.lt_iff
  rw [comparesAsBytes_iff, viewCompare_of_difference difference, before, after,
    iff_false_right difference.ne]
  by_cases zero : 0 ∈ common
  · rw [if_pos zero, forall_prop_of_true zero, compare_eq_iff_eq, compare_lt_iff_lt,
      compare_gt_iff_gt]
    constructor
    · rintro ⟨unequal, less, greater⟩
      rcases Nat.lt_or_gt_of_ne unequal with shorter | longer
      · exact .inl ⟨less.mp shorter, shorter⟩
      · exact .inr ⟨greater.mp longer, longer⟩
    · rintro (⟨less, shorter⟩ | ⟨greater, longer⟩)
      · exact ⟨shorter.ne, iff_of_true shorter less,
          iff_of_false shorter.not_gt (UInt8.lt_asymm less)⟩
      · exact ⟨longer.ne', iff_of_false longer.not_gt (UInt8.lt_asymm greater),
          iff_of_true longer greater⟩
  · rw [if_neg zero]
    refine iff_of_true ⟨compareByte_ne_eq first second, compareByte_lt_iff first second,
      compareByte_gt_iff difference.differ⟩ fun common => absurd common zero

theorem comparesAsBytes_of_beginning (left rest : Bytes) :
    ComparesAsBytes left (left ++ rest) ∧ ComparesAsBytes (left ++ rest) left := by
  have before : left.length < (left ++ rest).length ↔ left < left ++ rest := by
    rw [lt_append_iff, List.length_append, ← List.length_pos_iff]
    omega
  have after : ¬(left ++ rest).length < left.length := by
    rw [List.length_append]
    omega
  have same : left.length = (left ++ rest).length ↔ left = left ++ rest := by
    rw [List.self_eq_append_right, List.length_append, ← List.length_eq_zero_iff]
    omega
  obtain ⟨shorter, longer⟩ := viewCompare_of_prefix left rest
  rw [comparesAsBytes_iff, comparesAsBytes_iff, shorter, longer]
  simp only [compare_eq_iff_eq, compare_lt_iff_lt, compare_gt_iff_gt]
  refine ⟨⟨same, before, iff_of_false after (not_append_lt left rest)⟩,
    eq_comm.trans (same.trans eq_comm), iff_of_false after (not_append_lt left rest), before⟩

/-- For all byte strings: views of them compare like the sequences of their bytes exactly when they
do not differ behind a common zero byte, or differ there in the direction of their lengths. -/
theorem viewCompare_agrees_iff (left right : Bytes) :
    ComparesAsBytes left right ↔ HiddenInOrder left right := by
  constructor
  · intro compares common first second difference
    exact (comparesAsBytes_of_difference difference).mp compares
  · intro inOrder
    rcases prefix_or_firstDifference left right with shorter | longer | differs
    · obtain ⟨rest, rfl⟩ := shorter
      exact (comparesAsBytes_of_beginning left rest).1
    · obtain ⟨rest, rfl⟩ := longer
      exact (comparesAsBytes_of_beginning right rest).2
    · obtain ⟨common, first, second, difference⟩ := differs
      exact (comparesAsBytes_of_difference difference).mpr
        (inOrder common first second difference)

/-- Two views that differ behind a zero byte compare as equal. -/
theorem zeroByte_hides :
    viewEquals [0, 1] [0, 2] = true ∧ viewLess [0, 1] [0, 2] = false ∧
      viewCompare [0, 1] [0, 2] = .eq ∧ ([0, 1] : Bytes) < [0, 2] := by
  decide

/-- Views with a zero byte behind their first difference. -/
theorem viewCompare_agrees_iff_zeroBehind : ComparesAsBytes [7, 1, 0] [7, 2, 0] := by
  refine (viewCompare_agrees_iff _ _).mpr fun common first second difference zero => ?_
  obtain ⟨-, ⟨leftRest, left⟩, ⟨rightRest, right⟩⟩ := difference
  cases common with
  | nil => cases zero
  | cons byte common =>
    obtain ⟨seven, left⟩ := List.cons.inj left
    obtain ⟨-, right⟩ := List.cons.inj right
    cases common with
    | nil =>
      rw [List.mem_singleton, ← seven] at zero
      exact absurd zero (by decide)
    | cons other common =>
      have differs := (List.cons.inj left).1.trans (List.cons.inj right).1.symm
      exact absurd differs (by decide)

end NativeLibs
