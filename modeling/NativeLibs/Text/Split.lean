/-
This file models how `common/utils.h` trims a string and how `common/utils.cpp`
cuts one in two at a delimiter. A cut at the first occurrence of one character
is what stands before it and what stands behind it, and both parts are trimmed.
-/

import Mathlib.Data.List.DropRight
import NativeLibs.Library.Splitting
import NativeLibs.Text.Bytes

namespace NativeLibs

/-! ### Trimming -/

/-- `std::isspace` in the "C" locale: a blank, and the characters from tab to carriage return. -/
def isSpace (byte : UInt8) : Bool := byte = 32 || 9 ≤ byte && byte ≤ 13

/-- `utils::ltrim`. -/
def ltrim (str : Bytes) : Bytes := str.dropWhile isSpace

/-- `utils::rtrim`. -/
def rtrim (str : Bytes) : Bytes := str.rdropWhile isSpace

/-- `utils::trim`. -/
def trim (str : Bytes) : Bytes := rtrim (ltrim str)

/-! ### Cutting in two -/

/-- `std::string_view::find_first_of`. -/
def findFirstOf (str delim : Bytes) : Option Nat := str.findIdx? fun byte => delim.contains byte

/-- `std::string_view::find_first_of` from a position on. -/
def findFirstOfFrom (str delim : Bytes) (pos : Nat) : Option Nat :=
  (findFirstOf (str.drop pos) delim).map (pos + ·)

/-- `std::string_view::find_last_of`. -/
def findLastOf (str delim : Bytes) : Option Nat :=
  (findFirstOf str.reverse delim).map fun index => str.length - 1 - index

/-- `std::string_view::find` of a string from a position on. -/
def findFrom (str needle : Bytes) (pos : Nat) : Option Nat :=
  if str.length < pos then none
  else ((str.drop pos).tails.findIdx? fun suffix => needle.isPrefixOf suffix).map (pos + ·)

/-- What stands before a position of a string and what stands behind it. -/
def cutAt (str : Bytes) : Option Nat → Bytes × Bytes
  | some seek => (str.take seek, str.drop (seek + 1))
  | none => (str, [])

/-- `split2` of `utils.cpp`. -/
def split2 (str delim : Bytes) (reverse needTrim : Bool) : Bytes × Bytes :=
  let seek := if !reverse then findFirstOf str delim else findLastOf str delim
  let (first, second) := cutAt str seek
  if needTrim then (trim first, trim second) else (first, second)

/-- `utils::split2_by`. -/
def split2By (str : Bytes) (delim : UInt8) (needTrim : Bool) : Bytes × Bytes :=
  split2 str [delim] false needTrim

theorem cutAt_cons (byte : UInt8) (rest : Bytes) (seek : Option Nat) :
    cutAt (byte :: rest) (seek.map (· + 1)) =
      (byte :: (cutAt rest seek).1, (cutAt rest seek).2) := by
  cases seek with
  | none => rfl
  | some index => rfl

theorem cutAt_findFirstOf (str : Bytes) (delim : UInt8) :
    cutAt str (findFirstOf str [delim]) =
      (str.takeWhile (· != delim), (str.dropWhile (· != delim)).tail) := by
  induction str with
  | nil => rfl
  | cons byte rest inductionHypothesis =>
    unfold findFirstOf at inductionHypothesis ⊢
    rw [List.findIdx?_cons, List.takeWhile_cons, List.dropWhile_cons]
    by_cases here : byte = delim
    · simp [here, cutAt]
    · have unequal : (byte != delim) = true := bne_iff_ne.mpr here
      have other : List.contains [delim] byte = false := by simp [here]
      rw [other, if_neg Bool.false_ne_true, if_pos unequal, if_pos unequal, cutAt_cons,
        inductionHypothesis]

theorem split2By_trimmed (str : Bytes) (delim : UInt8) :
    split2By str delim true =
      (trim (str.takeWhile (· != delim)), trim (str.dropWhile (· != delim)).tail) := by
  rw [split2By, split2, if_pos (show (!false) = true from rfl), cutAt_findFirstOf]
  rfl

/-! ### Searching -/

theorem findFrom_of_le {str : Bytes} (needle : Bytes) {pos : Nat} (inside : pos ≤ str.length) :
    findFrom str needle pos = (Library.occurrence needle (str.drop pos)).map (pos + ·) :=
  if_neg (Nat.not_lt.mpr inside)

theorem findFrom_zero_eq_none_iff (str needle : Bytes) :
    findFrom str needle 0 = none ↔ ¬needle <:+: str := by
  rw [findFrom_of_le _ (Nat.zero_le _), List.drop_zero, Option.map_eq_none_iff,
    Library.occurrence_eq_none_iff]

theorem findFrom_append (skipped before : Bytes) {first : UInt8} (needle rest : Bytes)
    (free : first ∉ before) :
    findFrom (skipped ++ (before ++ (first :: needle ++ rest))) (first :: needle) skipped.length =
      some (skipped.length + before.length) := by
  have inside : skipped.length ≤ (skipped ++ (before ++ (first :: needle ++ rest))).length := by
    rw [List.length_append]
    exact Nat.le_add_right _ _
  rw [findFrom_of_le _ inside, List.drop_left, Library.occurrence_append before needle rest free,
    Option.map_some]

theorem eq_of_findFrom_zero {str needle : Bytes} {pos : Nat}
    (found : findFrom str needle 0 = some pos) :
    str = str.take pos ++ (needle ++ str.drop (pos + needle.length)) := by
  rw [findFrom_of_le _ (Nat.zero_le _), List.drop_zero] at found
  obtain ⟨index, searched, same⟩ := Option.map_eq_some_iff.mp found
  rw [Nat.zero_add] at same
  subst same
  exact Library.eq_of_occurrence searched

theorem findFirstOf_append {before : Bytes} {char : UInt8} (absent : char ∉ before) (after : Bytes) :
    findFirstOf (before ++ char :: after) [char] = some before.length := by
  have passed : ∀ byte ∈ before, ([char].contains byte) = false := by
    intro byte member
    have differs : byte ≠ char := fun same => absent (same ▸ member)
    simp [differs]
  rw [findFirstOf, List.findIdx?_append, List.findIdx?_eq_none_iff.mpr passed, Option.none_or,
    List.findIdx?_cons]
  simp

theorem findLastOf_append (before : Bytes) {after : Bytes} {char : UInt8} (absent : char ∉ after) :
    findLastOf (before ++ char :: after) [char] = some before.length := by
  have reversed : (before ++ char :: after).reverse = after.reverse ++ char :: before.reverse := by
    simp
  rw [findLastOf, reversed, findFirstOf_append (mt List.mem_reverse.mp absent), Option.map_some]
  simp only [List.length_append, List.length_cons, List.length_reverse, Option.some.injEq]
  omega

theorem findFirstOf_eq_none {str : Bytes} {char : UInt8} (absent : char ∉ str) :
    findFirstOf str [char] = none := by
  rw [findFirstOf, List.findIdx?_eq_none_iff]
  intro byte member
  have differs : byte ≠ char := fun same => absent (same ▸ member)
  simp [differs]

/-- A character does not occur, or the last of its occurrences is found. -/
theorem findLastOf_cases (str : Bytes) (char : UInt8) :
    findLastOf str [char] = none ∧ char ∉ str ∨
      ∃ before after, str = before ++ char :: after ∧ char ∉ after ∧
        findLastOf str [char] = some before.length := by
  by_cases occurs : char ∈ str
  · obtain ⟨after, before, reversed, absent⟩ :=
      List.eq_append_cons_of_mem (List.mem_reverse.mpr occurs)
    have parts : str = before.reverse ++ char :: after.reverse := by
      rw [← List.reverse_reverse str, reversed, List.reverse_append, List.reverse_cons,
        List.append_assoc, List.singleton_append]
    refine .inr ⟨before.reverse, after.reverse, parts, mt List.mem_reverse.mp absent, ?_⟩
    rw [parts]
    exact findLastOf_append before.reverse (mt List.mem_reverse.mp absent)
  · refine .inl ⟨?_, occurs⟩
    rw [findLastOf, findFirstOf_eq_none (mt List.mem_reverse.mp occurs), Option.map_none]

end NativeLibs
