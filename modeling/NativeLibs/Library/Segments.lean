/-
This file is the project's library on buffers that hold a sequence as a list of
chunks. Chunks are added at the end and elements are drained from the front,
which may cut a chunk. A reader looks at the chunks from a position on without
taking them. No chunk is ever empty, so a reader that is given at least one
chunk to look at finds something exactly when there is something.
-/

import Mathlib.Data.List.Basic
import Mathlib.Tactic

namespace NativeLibs.Library

/-- Chunks in order, none of them empty. -/
structure Segments (Element : Type*) where
  chunks : List (List Element)
  filled : ∀ chunk ∈ chunks, chunk ≠ []

namespace Segments

variable {Element : Type*}

/-- What is in the buffer. -/
def elements (buffer : Segments Element) : List Element := buffer.chunks.flatten

/-- The number of elements. -/
def length (buffer : Segments Element) : ℕ := buffer.elements.length

/-- A buffer without chunks. -/
def empty : Segments Element := ⟨[], fun _ member => nomatch member⟩

/-- A chunk comes to the end. -/
def add (buffer : Segments Element) (chunk : List Element) (nonempty : chunk ≠ []) :
    Segments Element where
  chunks := buffer.chunks ++ [chunk]
  filled := by
    intro other member
    rcases List.mem_append.mp member with old | new
    · exact buffer.filled other old
    · rw [List.mem_singleton.mp new]
      exact nonempty

/-- The chunks from a position on. The chunk that holds the position is cut. -/
def cut : ℕ → List (List Element) → List (List Element)
  | _, [] => []
  | position, chunk :: rest =>
    if chunk.length ≤ position then cut (position - chunk.length) rest
    else chunk.drop position :: rest

theorem flatten_cut (position : ℕ) (chunks : List (List Element)) :
    (cut position chunks).flatten = chunks.flatten.drop position := by
  induction chunks generalizing position with
  | nil => rw [cut, List.flatten_nil, List.drop_nil]
  | cons chunk rest inductionHypothesis =>
    rw [cut, List.flatten_cons, List.drop_append]
    split
    · rename_i passed
      rw [inductionHypothesis, List.drop_of_length_le passed, List.nil_append]
    · rename_i inside
      rw [List.flatten_cons, Nat.sub_eq_zero_of_le (not_le.mp inside).le, List.drop_zero]

theorem filled_cut (position : ℕ) (chunks : List (List Element))
    (filled : ∀ chunk ∈ chunks, chunk ≠ []) : ∀ chunk ∈ cut position chunks, chunk ≠ [] := by
  induction chunks generalizing position with
  | nil => exact filled
  | cons chunk rest inductionHypothesis =>
    have restFilled : ∀ other ∈ rest, other ≠ [] :=
      fun other member => filled other (List.mem_cons_of_mem _ member)
    rw [cut]
    split
    · exact inductionHypothesis _ restFilled
    · rename_i inside
      intro other member
      rcases List.mem_cons.mp member with rfl | later
      · rw [ne_eq, List.drop_eq_nil_iff]
        exact inside
      · exact restFilled other later

/-- A number of elements goes from the front. -/
def drain (buffer : Segments Element) (count : ℕ) : Segments Element :=
  ⟨cut count buffer.chunks, filled_cut count buffer.chunks buffer.filled⟩

/-- At most `count` chunks from a position on. -/
def peek (buffer : Segments Element) (position count : ℕ) : List (List Element) :=
  (cut position buffer.chunks).take count

theorem elements_add (buffer : Segments Element) (chunk : List Element) (nonempty : chunk ≠ []) :
    (buffer.add chunk nonempty).elements = buffer.elements ++ chunk := by
  rw [elements, add, List.flatten_append, List.flatten_singleton]
  rfl

theorem elements_drain (buffer : Segments Element) (count : ℕ) :
    (buffer.drain count).elements = buffer.elements.drop count :=
  flatten_cut count buffer.chunks

theorem peek_prefix (buffer : Segments Element) (position count : ℕ) :
    (buffer.peek position count).flatten <+: buffer.elements.drop position := by
  rw [peek, elements, ← flatten_cut]
  refine ⟨((cut position buffer.chunks).drop count).flatten, ?_⟩
  rw [← List.flatten_append, List.take_append_drop]

theorem peek_eq_nil_iff (buffer : Segments Element) (position count : ℕ) (positive : 0 < count) :
    buffer.peek position count = [] ↔ buffer.length ≤ position := by
  rw [peek, List.take_eq_nil_iff, or_iff_right positive.ne', length, ← List.drop_eq_nil_iff, elements,
    ← flatten_cut, List.flatten_eq_nil_iff]
  constructor
  · intro nothing chunk member
    rw [nothing] at member
    cases member
  · intro allEmpty
    refine List.eq_nil_iff_forall_not_mem.mpr fun chunk member => ?_
    exact filled_cut position buffer.chunks buffer.filled chunk member (allEmpty chunk member)

/-- What a reader sees is not empty unless it sees nothing. -/
theorem flatten_peek_eq_nil_iff (buffer : Segments Element) (position count : ℕ)
    (positive : 0 < count) :
    (buffer.peek position count).flatten = [] ↔ buffer.length ≤ position := by
  rw [← peek_eq_nil_iff buffer position count positive, List.flatten_eq_nil_iff]
  constructor
  · intro allEmpty
    refine List.eq_nil_iff_forall_not_mem.mpr fun chunk member => ?_
    exact filled_cut position buffer.chunks buffer.filled chunk (List.mem_of_mem_take member)
      (allEmpty chunk member)
  · intro nothing chunk member
    rw [nothing] at member
    cases member

end Segments

end NativeLibs.Library
