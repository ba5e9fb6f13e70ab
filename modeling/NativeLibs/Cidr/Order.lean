/-
This file relates the order `operator<` of ranges, their equality, and the two
`contains`. The order compares address bytes and then prefix lengths, containment
compares masks and masked bytes; both are statements about dyadic blocks, of
which any two are nested or disjoint.

`CidrRangeSet` rests on one more fact: what lies between a range and a range it
contains, in the order, is contained in the first (`contains_between`).
-/

import NativeLibs.Cidr.Range

namespace NativeLibs.Cidr

open Library

namespace CidrRange

/-! ### The order -/

theorem contains_trans (outer middle inner : CidrRange) (first : outer.contains middle = true)
    (second : middle.contains inner = true) : outer.contains inner = true := by
  rw [contains_iff] at first second ⊢
  obtain ⟨middleSize, middlePrefix, middleMember⟩ := first
  obtain ⟨innerSize, innerPrefix, innerMember⟩ := second
  refine ⟨innerSize.trans middleSize, middlePrefix.trans innerPrefix, ?_⟩
  rw [← block_eq_of_mem _ _ _ middleMember]
  exact block_subset_block _ _ _ (level_le_level outer middle middleSize.symm middlePrefix)
    innerMember

theorem less_trans (first second third : CidrRange) (lower : first.less second = true)
    (upper : second.less third = true) : first.less third = true := by
  rw [less_iff] at lower upper ⊢
  omega

theorem less_asymm (range other : CidrRange) (below : range.less other = true) :
    other.less range = false := by
  refine Bool.eq_false_iff.mpr fun above => ?_
  rw [less_iff] at below above
  omega

theorem point_le_of_mem (range : CidrRange) (number : ℕ)
    (member : number ∈ block range.level range.point) : range.point ≤ number := by
  rw [mem_block] at member
  rw [← Nat.div_mul_cancel range.aligned, ← member]
  exact Nat.div_mul_le_self _ _

theorem not_less_of_contains (outer range : CidrRange) (inner : outer.contains range = true) :
    range.less outer = false := by
  obtain ⟨sameSize, shorter, member⟩ := (contains_iff _ _).mp inner
  have start := outer.point_le_of_mem _ member
  refine Bool.eq_false_iff.mpr fun below => ?_
  rw [less_iff] at below
  omega

/-- Ranges that `operator<` does not tell apart contain each other. -/
theorem contains_of_not_less (range other : CidrRange) (notBelow : range.less other = false)
    (notAbove : other.less range = false) : range.contains other = true := by
  have first := Bool.eq_false_iff.mp notBelow
  have second := Bool.eq_false_iff.mp notAbove
  rw [ne_eq, less_iff] at first second
  have samePoint : other.point = range.point := by omega
  rw [contains_iff, samePoint]
  exact ⟨by omega, by omega, self_mem_block _ _⟩

theorem contains_between (outer middle inner : CidrRange) (nested : outer.contains inner = true)
    (lower : outer.less middle = true) (upper : middle.less inner = true) :
    outer.contains middle = true := by
  obtain ⟨sameSize, -, innerMember⟩ := (contains_iff _ _).mp nested
  rw [less_iff] at lower upper
  have middleSize : middle.size = outer.size := by omega
  have above : outer.point ≤ middle.point := by omega
  have under : middle.point ≤ inner.point := by omega
  have member := block_between _ _ _ _ _ (self_mem_block _ _) innerMember above under
  refine (contains_iff _ _).mpr ⟨middleSize, ?_, member⟩
  by_contra longer
  -- a coarser block that starts inside a block starts where that block does
  have coarser := level_le_level middle outer middleSize (not_le.mp longer).le
  have divides := (pow_dvd_pow 2 coarser).trans middle.aligned
  have samePoint : middle.point = outer.point := by
    rw [← Nat.div_mul_cancel divides, (mem_block _ _ _).mp member,
      Nat.div_mul_cancel outer.aligned]
  omega

/-! ### Nested and disjoint ranges -/

theorem containsAddress_of_contains (outer range : CidrRange) (address : Bytes)
    (inner : outer.contains range = true) (member : range.containsAddress address = true) :
    outer.containsAddress address = true := by
  rw [contains_iff] at inner
  rw [containsAddress_iff] at member ⊢
  obtain ⟨sameSize, shorter, pointMember⟩ := inner
  refine ⟨member.1.trans sameSize, ?_⟩
  rw [← block_eq_of_mem _ _ _ pointMember]
  exact block_subset_block _ _ _ (level_le_level outer range sameSize.symm shorter) member.2

theorem contains_of_common (outer range : CidrRange) (address : Bytes)
    (shorter : outer.prefixLen ≤ range.prefixLen)
    (inOuter : outer.containsAddress address = true)
    (inRange : range.containsAddress address = true) : outer.contains range = true := by
  rw [containsAddress_iff] at inOuter inRange
  have sameSize : range.size = outer.size := inRange.1.symm.trans inOuter.1
  rw [contains_iff]
  exact ⟨sameSize, shorter, mem_block_of_meets _ _ _ _ _
    (level_le_level outer range sameSize.symm shorter) inRange.2 inOuter.2⟩

theorem containsAddress_self (range : CidrRange) : range.containsAddress range.address = true :=
  (containsAddress_iff _ _).mpr ⟨rfl, self_mem_block _ _⟩

theorem contains_of_addresses (outer range : CidrRange) (sameSize : range.size = outer.size)
    (inside : ∀ address, range.containsAddress address = true →
      outer.containsAddress address = true) : outer.contains range = true := by
  have start : range.point ∈ block outer.level outer.point :=
    ((containsAddress_iff _ _).mp (inside _ range.containsAddress_self)).2
  refine (contains_iff _ _).mpr ⟨sameSize, ?_, start⟩
  by_contra longer
  have shorter : range.prefixLen < outer.prefixLen := not_le.mp longer
  have outerFits : outer.prefixLen ≤ 8 * range.size := sameSize ▸ outer.fits_bits
  have several : range.prefixLen ≠ range.address.length * 8 := by
    rw [Nat.mul_comm]
    exact (shorter.trans_le outerFits).ne
  -- the second half of the range starts outside of the other block
  obtain ⟨left, right, -, leftSize, rightSize, leftPrefix, -, lower, -, -, rightPoint⟩ :=
    range.split_spec several
  have aligned := range.aligned
  rw [lower] at aligned
  have rightInside : range.containsAddress right.address = true := by
    refine (containsAddress_iff _ _).mpr ⟨rightSize, ?_⟩
    show right.point ∈ _
    rw [lower, mem_block_succ _ _ _ aligned, rightPoint]
    exact Or.inr (self_mem_block _ _)
  have rightStart := ((containsAddress_iff _ _).mp (inside _ rightInside)).2
  have finer : outer.level ≤ left.level :=
    level_le_level left outer (leftSize.trans sameSize) (leftPrefix ▸ shorter)
  refine add_notMem_block outer.level left.level range.point finer ?_
  rw [← rightPoint, block_eq_of_mem _ _ _ start]
  exact rightStart

theorem rangeEquals_iff_block (range other : CidrRange) :
    rangeEquals range other = true ↔ range.size = other.size ∧
      range.prefixLen = other.prefixLen ∧ range.point = other.point := by
  rw [rangeEquals, Bool.and_eq_true, Bool.and_eq_true, decide_eq_true_eq, decide_eq_true_eq,
    decide_eq_true_eq, and_assoc]
  constructor
  · intro ⟨sameSize, samePrefix, sameAddress⟩
    exact ⟨sameSize.symm, samePrefix.symm, congrArg addressValue sameAddress⟩
  · intro ⟨sameSize, samePrefix, samePoint⟩
    exact ⟨sameSize.symm, samePrefix.symm, address_eq_of_value _ _ sameSize samePoint⟩

/-- One of two ranges is below the other, unless they are equal. -/
theorem less_iff_neither (range other : CidrRange) :
    range.less other = true ↔ ¬rangeEquals range other = true ∧ ¬other.less range = true := by
  rw [less_iff, less_iff, rangeEquals_iff_block]
  omega

theorem contains_both_iff (range other : CidrRange) :
    range.contains other = true ∧ other.contains range = true ↔
      rangeEquals range other = true := by
  constructor
  · intro ⟨inner, outer⟩
    have notBelow := not_less_of_contains other range outer
    have notAbove := not_less_of_contains range other inner
    by_contra different
    have below := (less_iff_neither range other).mpr
      ⟨different, Bool.eq_false_iff.mp notAbove⟩
    exact Bool.false_ne_true (notBelow.symm.trans below)
  · intro same
    have notBelow : range.less other = false := Bool.eq_false_iff.mpr fun below =>
      ((less_iff_neither range other).mp below).1 same
    have reverse : rangeEquals other range = true := by
      rw [rangeEquals_iff_block] at same ⊢
      exact ⟨same.1.symm, same.2.1.symm, same.2.2.symm⟩
    have notAbove : other.less range = false := Bool.eq_false_iff.mpr fun above =>
      ((less_iff_neither other range).mp above).1 reverse
    exact ⟨contains_of_not_less range other notBelow notAbove,
      contains_of_not_less other range notAbove notBelow⟩

/-- Two ranges have a common address. -/
def Meets (range other : CidrRange) : Prop :=
  ∃ address, range.containsAddress address = true ∧ other.containsAddress address = true

theorem nested_of_meets (range other : CidrRange) (meets : Meets range other) :
    range.contains other = true ∨ other.contains range = true := by
  obtain ⟨address, inRange, inOther⟩ := meets
  rcases le_total range.prefixLen other.prefixLen with shorter | longer
  · exact Or.inl (contains_of_common range other address shorter inRange inOther)
  · exact Or.inr (contains_of_common other range address longer inOther inRange)

theorem meets_of_contains (outer range : CidrRange) (inner : outer.contains range = true) :
    Meets outer range :=
  ⟨range.address, containsAddress_of_contains _ _ _ inner range.containsAddress_self,
    range.containsAddress_self⟩

theorem Meets.symm {range other : CidrRange} (meets : Meets range other) : Meets other range :=
  meets.imp fun _ => And.symm

theorem Meets.of_contains {outer range other : CidrRange} (meets : Meets range other)
    (inner : outer.contains range = true) : Meets outer other :=
  meets.imp fun _ both => ⟨containsAddress_of_contains _ _ _ inner both.1, both.2⟩

/-- For all ranges: `operator<` is a strict total order whose equality is `operator==`; a range
contains another exactly when their addresses have one length and it has every address of the
other; ranges with addresses of one length are nested or disjoint; ranges contain each other
exactly when they are equal; and a range that is contained in another is not below it. -/
theorem order_and_containment (range other third : CidrRange) :
    (range.less other = true ↔ ¬rangeEquals range other = true ∧ ¬other.less range = true) ∧
    (range.less other = true → other.less third = true → range.less third = true) ∧
    (range.contains other = true ↔ other.address.length = range.address.length ∧
      ∀ address, other.containsAddress address = true → range.containsAddress address = true) ∧
    (range.address.length = other.address.length → range.contains other = true ∨
      other.contains range = true ∨ ¬Meets range other) ∧
    (range.contains other = true ∧ other.contains range = true ↔
      rangeEquals range other = true) ∧
    (range.contains other = true → ¬other.less range = true) := by
  refine ⟨less_iff_neither range other, less_trans range other third, ?_, fun _ => ?_,
    contains_both_iff range other, fun inner => ?_⟩
  · constructor
    · intro inner
      exact ⟨((contains_iff _ _).mp inner).1, fun address =>
        containsAddress_of_contains range other address inner⟩
    · intro ⟨sameSize, inside⟩
      exact contains_of_addresses range other sameSize inside
  · by_cases meets : Meets range other
    · exact (nested_of_meets range other meets).imp_right Or.inl
    · exact Or.inr (Or.inr meets)
  · exact Bool.eq_false_iff.mp (not_less_of_contains range other inner)

end CidrRange

end NativeLibs.Cidr
