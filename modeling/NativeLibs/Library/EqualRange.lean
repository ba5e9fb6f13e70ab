/-
This file is the project's library on the search of an ordered container: what
`equal_range` gives for a container and a probe, under a comparison that need
not be an order. The search cuts the elements in three, and its contract speaks
only of containers that are partitioned with respect to the probe: the elements
below it, then those equivalent to it, then those above. Of other containers
nothing is known but that the three parts make up the elements.

`partitioned_of_pairwise` gives the partition from what holds of any two
elements, which is how an invariant of the container yields it for every probe.
-/

import Mathlib.Data.List.Basic
import Mathlib.Data.List.TakeWhile
import Mathlib.Tactic

namespace NativeLibs.Library

variable {Element : Type*}

/-! ### The contract -/

/-- Neither of two elements is less than the other. -/
def equivalent (less : Element → Element → Bool) (probe element : Element) : Bool :=
  !less element probe && !less probe element

/-- No element is both below and above the probe, those below come first, those above last. -/
structure Partitioned (less : Element → Element → Bool) (elements : List Element)
    (probe : Element) : Prop where
  exclusive : ∀ element ∈ elements, less element probe = true → less probe element = false
  parts : elements = elements.filter (fun element => less element probe) ++
    (elements.filter (equivalent less probe) ++ elements.filter (less probe))

/-- An `equal_range`: the elements before the two iterators, between them, and after them. -/
structure EqualRange (less : Element → Element → Bool) where
  find : List Element → Element → List Element × List Element × List Element
  parts : ∀ elements probe, (find elements probe).1 ++
    ((find elements probe).2.1 ++ (find elements probe).2.2) = elements
  spec : ∀ elements probe, Partitioned less elements probe → find elements probe =
    (elements.filter (fun element => less element probe),
      elements.filter (equivalent less probe), elements.filter (less probe))

/-! ### Partitions from pairs -/

/-- Elements are partitioned when, of any two, the later being below the probe puts the earlier
there, and the earlier being above puts the later there. -/
theorem partitioned_of_pairwise (less : Element → Element → Bool) (elements : List Element)
    (probe : Element)
    (exclusive : ∀ element, less element probe = true → less probe element = false)
    (ordered : elements.Pairwise fun first second =>
      (less second probe = true → less first probe = true) ∧
        (less probe first = true → less probe second = true)) :
    Partitioned less elements probe := by
  refine ⟨fun element _ => exclusive element, ?_⟩
  induction elements with
  | nil => rfl
  | cons first rest inductionHypothesis =>
    obtain ⟨later, restOrdered⟩ := List.pairwise_cons.mp ordered
    have restParts := inductionHypothesis restOrdered
    cases below : less first probe with
    | true =>
      have notAbove := exclusive first below
      simp only [List.filter_cons, equivalent, below, notAbove, if_true, Bool.not_true,
        Bool.false_and, Bool.false_eq_true, if_false, List.cons_append]
      exact congrArg (first :: ·) restParts
    | false =>
      -- nothing behind is below the probe either
      have noneBelow : rest.filter (fun element => less element probe) = [] := by
        refine List.filter_eq_nil_iff.mpr fun second member belowSecond => ?_
        have belowFirst := (later second member).1 belowSecond
        rw [below] at belowFirst
        cases belowFirst
      rw [noneBelow, List.nil_append] at restParts
      cases above : less probe first with
      | false =>
        simp only [List.filter_cons, equivalent, below, above, noneBelow, Bool.not_false,
          Bool.and_true, if_true, Bool.false_eq_true, if_false, List.nil_append, List.cons_append]
        exact congrArg (first :: ·) restParts
      | true =>
        -- everything behind is above the probe too
        have noneEquivalent : rest.filter (equivalent less probe) = [] := by
          refine List.filter_eq_nil_iff.mpr fun second member same => ?_
          rw [equivalent, (later second member).2 above, Bool.not_true, Bool.and_false] at same
          cases same
        rw [noneEquivalent, List.nil_append] at restParts
        have notEquivalent : equivalent less probe first = false := by
          rw [equivalent, above, Bool.not_true, Bool.and_false]
        simp only [List.filter_cons, notEquivalent, below, above, noneBelow, noneEquivalent,
          if_true, Bool.false_eq_true, if_false, List.nil_append]
        exact congrArg (first :: ·) restParts

/-! ### A search from the front -/

theorem span_append (holds : Element → Bool) (first second : List Element)
    (all : ∀ element ∈ first, holds element = true)
    (none : ∀ element ∈ second, holds element = false) :
    (first ++ second).takeWhile holds = first ∧ (first ++ second).dropWhile holds = second := by
  have stops : second.takeWhile holds = [] ∧ second.dropWhile holds = second := by
    cases second with
    | nil => exact ⟨rfl, rfl⟩
    | cons element rest =>
      have fails : ¬holds element = true := Bool.not_eq_true _ ▸ none element List.mem_cons_self
      exact ⟨List.takeWhile_cons_of_neg fails, List.dropWhile_cons_of_neg fails⟩
  rw [List.takeWhile_append_of_pos all, List.dropWhile_append_of_pos all, stops.1, stops.2,
    List.append_nil]
  exact ⟨rfl, rfl⟩

/-- A search from the front is an `equal_range`. -/
def linearEqualRange (less : Element → Element → Bool) : EqualRange less where
  find elements probe :=
    let rest := elements.dropWhile fun element => less element probe
    (elements.takeWhile fun element => less element probe,
      rest.takeWhile fun element => !less probe element,
      rest.dropWhile fun element => !less probe element)
  parts elements probe := by
    rw [List.takeWhile_append_dropWhile, List.takeWhile_append_dropWhile]
  spec elements probe partitioned := by
    have notBelow : ∀ element ∈ elements.filter (equivalent less probe) ++
        elements.filter (less probe), less element probe = false := by
      intro element member
      rcases List.mem_append.mp member with same | above
      · exact (Bool.not_eq_true' _).mp ((Bool.and_eq_true _ _).mp (List.mem_filter.mp same).2).1
      · obtain ⟨stored, isAbove⟩ := List.mem_filter.mp above
        refine Bool.eq_false_iff.mpr fun below => ?_
        rw [partitioned.exclusive element stored below] at isAbove
        cases isAbove
    have lower := span_append (fun element => less element probe)
      (elements.filter fun element => less element probe) _
      (fun element member => (List.mem_filter.mp member).2) notBelow
    have upper := span_append (fun element => !less probe element)
      (elements.filter (equivalent less probe)) (elements.filter (less probe))
      (fun element member => ((Bool.and_eq_true _ _).mp (List.mem_filter.mp member).2).2)
      (fun element member => (Bool.not_eq_false' _).mpr (List.mem_filter.mp member).2)
    rw [← partitioned.parts] at lower
    simp only [lower.1, lower.2, upper.1, upper.2]

end NativeLibs.Library
