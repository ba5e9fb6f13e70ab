/-
This file models `utils::swap_remove_if`, which moves the elements that satisfy a
predicate behind the others by swaps. Two positions go through the sequence. What
is before the first one is kept, what is between the two is to be removed, and what
is behind was not looked at. A swap exchanges the first element of the second region
for the element that is looked at, so that the kept elements stay in their order and
the others may not.
-/

import Mathlib.Data.List.Perm.Basic
import Mathlib.Tactic

namespace NativeLibs

variable {α : Type*}

/-! ### The loop -/

/-- The loop of `utils::swap_remove_if`. -/
def swapLoop (p : α → Bool) (seq : Array α) (begin i : ℕ) (behind : begin < i) : Array α × ℕ :=
  if inside : i < seq.size then
    if !p seq[i] then
      swapLoop p (seq.swap begin i (behind.trans inside) inside) (begin + 1) (i + 1)
        (Nat.succ_lt_succ behind)
    else swapLoop p seq begin (i + 1) (Nat.lt_succ_of_lt behind)
  else (seq, begin)
termination_by seq.size - i
decreasing_by
  · rw [Array.size_swap]
    omega
  · omega

/-- `utils::swap_remove_if`: the sequence afterwards and the position that is returned. -/
def swapRemoveIf (p : α → Bool) (seq : Array α) : Array α × ℕ :=
  match seq.findIdx? p with
  | none => (seq, seq.size)
  | some begin => swapLoop p seq begin (begin + 1) (Nat.lt_succ_self begin)

/-! ### The three regions -/

/-- The regions that the two positions make: what is kept, what is to be removed, of which there is
something, and what was not looked at. -/
structure Regions (p : α → Bool) (seq : Array α) (begin i : ℕ) (kept removed rest : List α) :
    Prop where
  parts : seq.toList = kept ++ removed ++ rest
  atBegin : begin = kept.length
  atIndex : i = kept.length + removed.length
  nonempty : removed ≠ []
  satisfied : ∀ element ∈ removed, p element = true

namespace Regions

variable {p : α → Bool} {seq : Array α} {begin i : ℕ} {kept removed rest : List α}

theorem size_eq (regions : Regions p seq begin i kept removed rest) :
    seq.size = i + rest.length := by
  rw [← Array.length_toList, regions.parts, List.length_append, List.length_append,
    regions.atIndex]

theorem behind (regions : Regions p seq begin i kept removed rest) : begin < i := by
  rw [regions.atBegin, regions.atIndex]
  exact Nat.lt_add_of_pos_right (List.length_pos_iff.mpr regions.nonempty)

theorem getElem_eq {element : α} (regions : Regions p seq begin i kept removed (element :: rest))
    (inside : i < seq.size) : seq[i] = element := by
  rw [← Array.getElem_toList]
  simp only [regions.parts]
  rw [List.getElem_append_right (by rw [List.length_append, regions.atIndex])]
  simp only [List.length_append, regions.atIndex, Nat.sub_self, List.getElem_cons_zero]

theorem getElem_begin {first : α} {others : List α}
    (regions : Regions p seq begin i kept (first :: others) rest) (inside : begin < seq.size) :
    seq[begin] = first := by
  rw [← Array.getElem_toList]
  simp only [regions.parts, List.append_assoc]
  rw [List.getElem_append_right regions.atBegin.ge]
  simp only [regions.atBegin, Nat.sub_self, List.cons_append, List.getElem_cons_zero]

theorem pass {element : α} (regions : Regions p seq begin i kept removed (element :: rest))
    (holds : p element = true) :
    Regions p seq begin (i + 1) kept (removed ++ [element]) rest where
  parts := by
    rw [regions.parts, List.append_assoc, List.append_assoc, List.append_assoc,
      List.singleton_append]
  atBegin := regions.atBegin
  atIndex := by
    rw [regions.atIndex, List.length_append, List.length_singleton]
    rfl
  nonempty := List.append_ne_nil_of_left_ne_nil regions.nonempty _
  satisfied := List.forall_mem_append.mpr
    ⟨regions.satisfied, List.forall_mem_singleton.mpr holds⟩

/-- An element that does not is exchanged for the first of them. -/
theorem exchange {first element : α} {others : List α}
    (regions : Regions p seq begin i kept (first :: others) (element :: rest))
    (beginInside : begin < seq.size) (inside : i < seq.size) :
    Regions p (seq.swap begin i beginInside inside) (begin + 1) (i + 1) (kept ++ [element])
      (others ++ [first]) rest where
  parts := by
    have before : kept.length ≤ begin := regions.atBegin.ge
    have here : begin - kept.length = 0 := by rw [regions.atBegin, Nat.sub_self]
    have gap : i = (kept ++ element :: others).length := by
      rw [regions.atIndex, List.length_append, List.length_cons, List.length_cons]
    rw [Array.toList_swap, regions.getElem_eq inside, regions.getElem_begin beginInside,
      regions.parts, List.append_assoc, List.set_append_right _ _ before, here, List.cons_append,
      List.set_cons_zero, ← List.cons_append, ← List.append_assoc, List.set_append_right _ _ gap.ge,
      gap, Nat.sub_self, List.set_cons_zero]
    simp only [List.append_assoc, List.cons_append, List.nil_append]
  atBegin := by rw [regions.atBegin, List.length_append, List.length_singleton]
  atIndex := by
    rw [regions.atIndex, List.length_append, List.length_append, List.length_singleton,
      List.length_singleton, List.length_cons]
    omega
  nonempty := List.append_ne_nil_of_right_ne_nil _ (List.cons_ne_nil _ _)
  satisfied := by
    obtain ⟨firstHolds, othersHold⟩ := List.forall_mem_cons.mp regions.satisfied
    exact List.forall_mem_append.mpr ⟨othersHold, List.forall_mem_singleton.mpr firstHolds⟩

end Regions

/-- What is left of a sequence: the elements that do not satisfy the predicate, in their order, and
behind the position that is returned the others. -/
structure Partitioned (p : α → Bool) (before : List α) (result : Array α × ℕ) : Prop where
  inside : result.2 ≤ result.1.size
  permutation : result.1.toList.Perm before
  kept : result.1.toList.take result.2 = before.filter fun element => !p element
  removed : ∀ element ∈ result.1.toList.drop result.2, p element = true

/-- A sequence is partitioned if the position divides it into what is kept and a permutation of the
others. -/
theorem Partitioned.of_parts {p : α → Bool} {before : List α} {result : Array α × ℕ} (tail : List α)
    (sequence : result.1.toList = (before.filter fun element => !p element) ++ tail)
    (position : result.2 = (before.filter fun element => !p element).length)
    (others : tail.Perm (before.filter p)) : Partitioned p before result where
  inside := by
    rw [← Array.length_toList, sequence, position]
    exact (List.prefix_append _ tail).length_le
  permutation := by
    rw [sequence]
    exact (others.append_left _).trans
      (List.perm_append_comm.trans (List.filter_append_perm p before))
  kept := by rw [sequence, position, List.take_left]
  removed := by
    rw [sequence, position, List.drop_left]
    intro element member
    exact List.of_mem_filter (others.mem_iff.mp member)

/-- The loop comes to an end with what it kept, the rest that is kept, and the others. -/
theorem swapLoop_spec {p : α → Bool} {seq : Array α} {begin i : ℕ} {kept removed rest : List α}
    (regions : Regions p seq begin i kept removed rest) :
    ∃ tail, (swapLoop p seq begin i regions.behind).1.toList =
        kept ++ (rest.filter fun element => !p element) ++ tail ∧
      (swapLoop p seq begin i regions.behind).2 =
        (kept ++ rest.filter fun element => !p element).length ∧
      tail.Perm (removed ++ rest.filter p) := by
  -- the rest is what the loop still has to go through
  induction rest generalizing seq begin i kept removed with
  | nil =>
    have done : ¬i < seq.size := by
      rw [regions.size_eq]
      exact Nat.lt_irrefl _
    rw [swapLoop, dif_neg done]
    refine ⟨removed, ?_, ?_, ?_⟩
    · rw [regions.parts, List.filter_nil, List.append_nil, List.append_nil]
    · rw [List.filter_nil, List.append_nil]
      exact regions.atBegin
    · rw [List.filter_nil, List.append_nil]
  | cons element rest inductionHypothesis =>
    have inside : i < seq.size := by
      rw [regions.size_eq, List.length_cons]
      omega
    rw [swapLoop, dif_pos inside, regions.getElem_eq inside]
    cases holds : p element with
    | true =>
      obtain ⟨tail, sequence, position, permutation⟩ := inductionHypothesis (regions.pass holds)
      rw [List.filter_cons_of_neg (by rw [holds]; decide), List.filter_cons_of_pos holds,
        List.append_cons]
      exact ⟨tail, sequence, position, permutation⟩
    | false =>
      obtain ⟨first, others, rfl⟩ := List.exists_cons_of_ne_nil regions.nonempty
      obtain ⟨tail, sequence, position, permutation⟩ :=
        inductionHypothesis (regions.exchange (regions.behind.trans inside) inside)
      have stays : ((element :: rest).filter fun element => !p element) =
          element :: rest.filter fun element => !p element :=
        List.filter_cons_of_pos (by rw [holds]; rfl)
      rw [stays, List.append_cons, List.filter_cons_of_neg (by rw [holds]; decide)]
      refine ⟨tail, sequence, position, permutation.trans ?_⟩
      exact (List.perm_append_singleton first others).append_right _

theorem filter_not_of_fails {p : α → Bool} {elements : List α}
    (fails : ∀ element ∈ elements, p element = false) :
    (elements.filter fun element => !p element) = elements := by
  refine List.filter_eq_self.mpr fun element member => ?_
  rw [fails element member]
  rfl

theorem filter_of_fails {p : α → Bool} {elements : List α}
    (fails : ∀ element ∈ elements, p element = false) : elements.filter p = [] :=
  List.filter_eq_nil_iff.mpr fun element member => Bool.eq_false_iff.mp (fails element member)

theorem regions_of_found {p : α → Bool} {seq : Array α} {begin : ℕ}
    (found : seq.findIdx? p = some begin) :
    ∃ kept first rest, Regions p seq begin (begin + 1) kept [first] rest ∧
      ∀ element ∈ kept, p element = false := by
  obtain ⟨inside, holds, before⟩ := Array.findIdx?_eq_some_iff_getElem.mp found
  have inList : begin < seq.toList.length := inside
  refine ⟨seq.toList.take begin, seq[begin], seq.toList.drop (begin + 1), ?_, ?_⟩
  · exact {
      parts := by
        rw [List.append_assoc, List.singleton_append, ← Array.getElem_toList,
          ← List.drop_eq_getElem_cons inList, List.take_append_drop]
      atBegin := (List.length_take_of_le inList.le).symm
      atIndex := by rw [List.length_take_of_le inList.le, List.length_singleton]
      nonempty := List.cons_ne_nil _ _
      satisfied := List.forall_mem_singleton.mpr holds }
  · intro element member
    obtain ⟨index, within, rfl⟩ := List.mem_take_iff_getElem.mp member
    exact Bool.eq_false_iff.mpr (before index (lt_min_iff.mp within).1)

/-- For every sequence and every predicate, `swap_remove_if` keeps the elements that do not satisfy
the predicate in their order, and puts the others behind the position that it returns. -/
theorem swapRemoveIf_partitioned (p : α → Bool) (seq : Array α) :
    Partitioned p seq.toList (swapRemoveIf p seq) := by
  rw [swapRemoveIf]
  cases found : seq.findIdx? p with
  | none =>
    have fails : ∀ element ∈ seq.toList, p element = false := fun element member =>
      Array.findIdx?_eq_none_iff.mp found element (Array.mem_toList_iff.mp member)
    have whole := filter_not_of_fails fails
    refine Partitioned.of_parts [] ?_ ?_ ?_
    · rw [whole, List.append_nil]
    · rw [whole, Array.length_toList]
    · rw [filter_of_fails fails]
  | some begin =>
    show Partitioned p seq.toList (swapLoop p seq begin (begin + 1) _)
    obtain ⟨kept, first, rest, regions, fails⟩ := regions_of_found found
    obtain ⟨tail, sequence, position, permutation⟩ := swapLoop_spec regions
    have holds := List.forall_mem_singleton.mp regions.satisfied
    have stay : (seq.toList.filter fun element => !p element) =
        kept ++ rest.filter fun element => !p element := by
      rw [regions.parts, List.filter_append, List.filter_append, filter_not_of_fails fails,
        List.filter_cons_of_neg (by rw [holds]; decide), List.filter_nil, List.append_nil]
    have go : seq.toList.filter p = [first] ++ rest.filter p := by
      rw [regions.parts, List.filter_append, List.filter_append, filter_of_fails fails,
        List.filter_cons_of_pos holds, List.filter_nil, List.nil_append]
    rw [← stay] at sequence position
    rw [← go] at permutation
    exact Partitioned.of_parts tail sequence position permutation

end NativeLibs
