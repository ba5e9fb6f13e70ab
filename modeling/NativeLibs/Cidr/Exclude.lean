/-
This file embeds `CidrRange::exclude`: a work list of ranges, each of which is
dropped, kept, or split in two and put back, depending on the first excluded
range it is comparable with.

A split range goes back as two ranges with a longer prefix, so the loop ends:
a range weighs as much as the tree of all its splits has nodes. That the result
is the difference of the two unions rests on ranges being blocks, of which any
two are nested or disjoint.
-/

import NativeLibs.Cidr.Order

namespace NativeLibs.Cidr

open Library

namespace CidrRange

/-! ### The loop -/

/-- What the loop over the excluded ranges decides on a range. -/
inductive Verdict where
  | skip
  | split
  | keep
  deriving DecidableEq

/-- The loop over the excluded ranges; it stops at the first that is comparable. -/
def verdict (range : CidrRange) : List CidrRange → Verdict
  | [] => .keep
  | excludedRange :: rest =>
    if excludedRange.contains range then .skip
    else if range.contains excludedRange then .split
    else verdict range rest

/-- The number of ranges that splitting a range all the way down visits. -/
def weight (range : CidrRange) : Nat := 2 ^ (range.level + 1) - 1

theorem weight_pos (range : CidrRange) : 0 < weight range := by
  have positive := Nat.two_pow_pos range.level
  rw [weight, pow_succ]
  omega

theorem several_of_split {range : CidrRange} {pair : CidrRange × CidrRange}
    (parts : range.split = some pair) : range.prefixLen ≠ range.address.length * 8 := by
  intro single
  rw [split, if_pos single] at parts
  cases parts

theorem split_some (range left right : CidrRange) (parts : range.split = some (left, right)) :
    left.size = range.size ∧ right.size = range.size ∧ range.level = left.level + 1 ∧
      right.level = left.level ∧ left.point = range.point ∧
      right.point = range.point + 2 ^ left.level := by
  obtain ⟨first, second, found, leftSize, rightSize, -, -, lower, same, leftPoint, rightPoint⟩ :=
    range.split_spec (several_of_split parts)
  cases parts.symm.trans found
  exact ⟨leftSize, rightSize, lower, same, leftPoint, rightPoint⟩

theorem split_prefixLen (range left right : CidrRange) (parts : range.split = some (left, right)) :
    left.prefixLen = range.prefixLen + 1 ∧ right.prefixLen = range.prefixLen + 1 := by
  obtain ⟨first, second, found, -, -, leftPrefix, rightPrefix, -⟩ :=
    range.split_spec (several_of_split parts)
  cases parts.symm.trans found
  exact ⟨leftPrefix, rightPrefix⟩

theorem weight_split (range left right : CidrRange) (parts : range.split = some (left, right)) :
    weight left + weight right < weight range := by
  obtain ⟨-, -, lower, same, -, -⟩ := split_some range left right parts
  have positive := Nat.two_pow_pos (left.level + 1)
  rw [weight, weight, weight, same, lower, pow_succ 2 (left.level + 1)]
  omega

/-- The loop of `CidrRange::exclude` over the work list. -/
def excludeLoop (excludedRanges : List CidrRange) (stack done : List CidrRange) : List CidrRange :=
  match stack with
  | [] => done
  | range :: stack =>
    match verdict range excludedRanges with
    | .skip => excludeLoop excludedRanges stack done
    | .split =>
      match _parts : range.split with
      | some (left, right) => excludeLoop excludedRanges (left :: right :: stack) done
      | none => excludeLoop excludedRanges stack done
    | .keep => excludeLoop excludedRanges stack (done ++ [range])
termination_by (stack.map weight).sum
decreasing_by
  · have positive := weight_pos range
    rw [List.map_cons, List.sum_cons]
    omega
  · have lighter := weight_split range left right _parts
    rw [List.map_cons, List.map_cons, List.map_cons, List.sum_cons, List.sum_cons, List.sum_cons]
    omega
  · have positive := weight_pos range
    rw [List.map_cons, List.sum_cons]
    omega
  · have positive := weight_pos range
    rw [List.map_cons, List.sum_cons]
    omega

/-- `CidrRange::exclude`. `std::list::sort` is a stable sort by `operator<`. -/
def exclude (originalRanges excludedRanges : List CidrRange) : List CidrRange :=
  excludeLoop excludedRanges (originalRanges.mergeSort fun range other => !other.less range) []

/-! ### The parts of a split range -/

theorem containsAddress_split (range left right : CidrRange) (address : Bytes)
    (parts : range.split = some (left, right)) :
    range.containsAddress address = true ↔
      left.containsAddress address = true ∨ right.containsAddress address = true := by
  obtain ⟨leftSize, rightSize, lower, same, leftPoint, rightPoint⟩ :=
    split_some range left right parts
  have aligned := range.aligned
  rw [lower] at aligned
  rw [containsAddress_iff, containsAddress_iff, containsAddress_iff, leftSize, rightSize, lower,
    same, leftPoint, rightPoint, mem_block_succ _ _ _ aligned]
  exact and_or_left

theorem contains_split (range left right : CidrRange) (parts : range.split = some (left, right)) :
    range.contains left = true ∧ range.contains right = true := by
  obtain ⟨leftSize, rightSize, -⟩ := split_some range left right parts
  refine ⟨contains_of_addresses range left leftSize fun address inside => ?_,
    contains_of_addresses range right rightSize fun address inside => ?_⟩
  · exact (containsAddress_split range left right address parts).mpr (Or.inl inside)
  · exact (containsAddress_split range left right address parts).mpr (Or.inr inside)

theorem contains_of_single (range other : CidrRange) (single : range.split = none)
    (inner : range.contains other = true) : other.contains range = true := by
  have full : range.prefixLen = range.address.length * 8 := by
    by_contra several
    obtain ⟨left, right, parts, -⟩ := range.split_spec several
    rw [single] at parts
    cases parts
  rw [contains_iff] at inner ⊢
  obtain ⟨sameSize, shorter, pointMember⟩ := inner
  have otherFull : other.prefixLen = range.prefixLen := by
    refine le_antisymm ?_ shorter
    rw [full]
    exact other.fits.trans_eq (congrArg (· * 8) sameSize)
  have sameLevel : other.level = range.level := by rw [level, level, sameSize, otherFull]
  refine ⟨sameSize.symm, otherFull.le, ?_⟩
  rw [sameLevel, mem_block]
  exact ((mem_block _ _ _).mp pointMember).symm

/-! ### The result -/

/-- The verdict is backed by an excluded range, or by all of them. -/
theorem verdict_spec (range : CidrRange) (excludedRanges : List CidrRange) :
    match verdict range excludedRanges with
    | .skip => ∃ excluded ∈ excludedRanges, excluded.contains range = true
    | .split => ∃ excluded ∈ excludedRanges,
        excluded.contains range = false ∧ range.contains excluded = true
    | .keep => ∀ excluded ∈ excludedRanges,
        excluded.contains range = false ∧ range.contains excluded = false := by
  induction excludedRanges with
  | nil => exact fun excluded member => absurd member List.not_mem_nil
  | cons first rest inductionHypothesis =>
    rw [verdict]
    cases inFirst : first.contains range with
    | true => exact ⟨first, List.mem_cons_self, inFirst⟩
    | false =>
      cases aroundFirst : range.contains first with
      | true => exact ⟨first, List.mem_cons_self, inFirst, aroundFirst⟩
      | false =>
        simp only [Bool.false_eq_true, if_false]
        cases decided : verdict range rest with
        | skip =>
          rw [decided] at inductionHypothesis
          obtain ⟨excluded, member, found⟩ := inductionHypothesis
          exact ⟨excluded, List.mem_cons_of_mem _ member, found⟩
        | split =>
          rw [decided] at inductionHypothesis
          obtain ⟨excluded, member, found⟩ := inductionHypothesis
          exact ⟨excluded, List.mem_cons_of_mem _ member, found⟩
        | keep =>
          rw [decided] at inductionHypothesis
          intro excluded member
          rcases List.mem_cons.mp member with rfl | inRest
          · exact ⟨inFirst, aroundFirst⟩
          · exact inductionHypothesis excluded inRest

/-- An address belongs to one of the ranges. -/
def Covered (ranges : List CidrRange) (address : Bytes) : Prop :=
  ∃ range ∈ ranges, range.containsAddress address = true

theorem covered_cons (range : CidrRange) (ranges : List CidrRange) (address : Bytes) :
    Covered (range :: ranges) address ↔
      range.containsAddress address = true ∨ Covered ranges address :=
  List.exists_mem_cons_iff ..

theorem covered_append_singleton (ranges : List CidrRange) (range : CidrRange) (address : Bytes) :
    Covered (ranges ++ [range]) address ↔
      Covered ranges address ∨ range.containsAddress address = true := by
  unfold Covered
  simp [or_and_right, exists_or]

/-- The loop keeps the difference: what is done, and what of the work list is not excluded. -/
theorem covered_excludeLoop (excludedRanges stack done : List CidrRange) (address : Bytes) :
    Covered (excludeLoop excludedRanges stack done) address ↔
      Covered done address ∨ Covered stack address ∧ ¬Covered excludedRanges address := by
  fun_induction excludeLoop excludedRanges stack done with
  | case1 done =>
    have nothing : ¬Covered [] address := fun ⟨_, member, _⟩ => List.not_mem_nil member
    exact ⟨Or.inl, fun either => either.resolve_right fun both => nothing both.1⟩
  | case2 done range stack skipped inductionHypothesis =>
    -- an excluded range covers the whole range
    have reason := verdict_spec range excludedRanges
    rw [skipped] at reason
    obtain ⟨excluded, member, outer⟩ := reason
    have gone : range.containsAddress address = true → Covered excludedRanges address :=
      fun inside => ⟨excluded, member, containsAddress_of_contains _ _ _ outer inside⟩
    rw [inductionHypothesis, covered_cons]
    tauto
  | case3 done range stack splits left right parts inductionHypothesis =>
    rw [inductionHypothesis, covered_cons, covered_cons, covered_cons,
      containsAddress_split range left right address parts, or_assoc]
  | case4 done range stack splits single inductionHypothesis =>
    -- this branch is never taken: a single address that contains a range lies in it
    have reason := verdict_spec range excludedRanges
    rw [splits] at reason
    obtain ⟨excluded, -, outside, inner⟩ := reason
    rw [contains_of_single range excluded single inner] at outside
    cases outside
  | case5 done range stack kept inductionHypothesis =>
    -- the range is disjoint from every excluded range
    have reason := verdict_spec range excludedRanges
    rw [kept] at reason
    have apart : range.containsAddress address = true → ¬Covered excludedRanges address := by
      rintro inside ⟨excluded, member, inExcluded⟩
      obtain ⟨notOuter, notInner⟩ := reason excluded member
      rcases le_total excluded.prefixLen range.prefixLen with shorter | longer
      · rw [contains_of_common excluded range address shorter inExcluded inside] at notOuter
        cases notOuter
      · rw [contains_of_common range excluded address longer inside inExcluded] at notInner
        cases notInner
    rw [inductionHypothesis, covered_append_singleton, covered_cons]
    tauto

/-- For all lists of ranges: an address of any length belongs to a range of the result exactly
when it belongs to one of the original ranges and to none of the excluded ones. -/
theorem exclude_containsAddress_iff (originalRanges excludedRanges : List CidrRange)
    (address : Bytes) :
    (∃ range ∈ exclude originalRanges excludedRanges, range.containsAddress address = true) ↔
      (∃ range ∈ originalRanges, range.containsAddress address = true) ∧
        ∀ range ∈ excludedRanges, range.containsAddress address = false := by
  have loop := covered_excludeLoop excludedRanges
    (originalRanges.mergeSort fun range other => !other.less range) [] address
  have nothing : ¬Covered [] address := fun ⟨_, member, _⟩ => List.not_mem_nil member
  have sorted : Covered (originalRanges.mergeSort fun range other => !other.less range) address ↔
      Covered originalRanges address := by
    unfold Covered
    simp only [List.mem_mergeSort]
  have excluded : ¬Covered excludedRanges address ↔
      ∀ range ∈ excludedRanges, range.containsAddress address = false := by
    unfold Covered
    simp
  rw [or_iff_right nothing, sorted, excluded] at loop
  exact loop

end CidrRange

end NativeLibs.Cidr
